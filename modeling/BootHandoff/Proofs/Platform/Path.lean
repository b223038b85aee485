/-
# Paths through a program

A path through a `Firmware` program is one way it can go: what is asked and
what is answered, in order, and the value at the end.  Every run on a platform
is a path (`path_run`), so what holds on all paths holds on all platforms.

`path_bind_iff` takes the path of a composed program apart into the paths of
its parts.  The other statements do the same for boot code that can end early
(`Task.Path`) and for boot code that works on something it was lent
(`Action.Path`), so that no later proof looks into the monads themselves.

A part cannot be cut out of a run in two ways: `Path.unique` says that two
paths through one program that start the same list of steps are the same.
-/

import BootHandoff.Platform.Action

namespace BootHandoff

theorem mapError_eq_ok_iff {ε ε' α : Type} {f : ε → ε'} {x : Except ε α} {a : α} :
    x.mapError f = .ok a ↔ x = .ok a := by
  cases x with
  | ok b => exact ⟨fun h => congrArg _ (Except.ok.inj h), fun h => congrArg _ (Except.ok.inj h)⟩
  | error e => exact ⟨nofun, nofun⟩

theorem exists_mapError_eq_error_iff {ε ε' α : Type} {f : ε → ε'} {x : Except ε α}
    {P : ε' → Prop} : (∃ e', x.mapError f = .error e' ∧ P e') ↔ ∃ e, x = .error e ∧ P (f e) := by
  cases x with
  | ok a => exact ⟨nofun, nofun⟩
  | error e =>
    constructor
    · rintro ⟨_, ⟨⟩, hP⟩
      exact ⟨e, rfl, hP⟩
    · rintro ⟨_, ⟨⟩, hP⟩
      exact ⟨f e, rfl, hP⟩

theorem mapError_eq_error_iff {ε ε' α : Type} {f : ε → ε'} {x : Except ε α} {e' : ε'} :
    x.mapError f = .error e' ↔ ∃ e, x = .error e ∧ f e = e' := by
  cases x with
  | ok a => exact ⟨nofun, nofun⟩
  | error e =>
    constructor
    · rintro ⟨⟩
      exact ⟨e, rfl, rfl⟩
    · rintro ⟨_, ⟨⟩, rfl⟩
      rfl

theorem mapError_error_injective {ε α : Type} {x y : Except ε α}
    (h : x.mapError Stop.error = y.mapError Stop.error) : x = y := by
  cases y with
  | ok b => exact mapError_eq_ok_iff.1 h
  | error e =>
    obtain ⟨e', rfl, he⟩ := mapError_eq_error_iff.1 h
    rw [Stop.error.inj he]

section Ends

variable {m : Type → Type} [Monad m] {ε ε' α : Type} [MonadExcept (Stop ε) m]

theorem check_eq_settle (x : Except Halt α) :
    (check x : m α) = settle (x.mapError (Stop.halt : Halt → Stop ε)) := by
  cases x <;> rfl

theorem accept_eq_settle (wrap : ε' → ε) (x : Except ε' α) :
    (accept wrap x : m α) = settle (x.mapError fun e => Stop.error (wrap e)) := by
  cases x <;> rfl

end Ends

namespace Platform

namespace Firmware

variable {α β : Type}

/-- A path through a program: the steps on it, and the value at its end. -/
inductive Path {α : Type} : Firmware α → List Step → α → Prop where
  | done (a : α) : Path (.done a) [] a
  | ask (q : Query) (answer : q.Answer) {next : q.Answer → Firmware α} {steps : List Step} {a : α}
      (rest : Path (next answer) steps a) : Path (.ask q next) (⟨q, answer⟩ :: steps) a

theorem path_pure_iff {a b : α} {steps : List Step} :
    (pure a : Firmware α).Path steps b ↔ steps = [] ∧ b = a := by
  constructor
  · intro h
    cases h
    exact ⟨rfl, rfl⟩
  · rintro ⟨rfl, rfl⟩
    exact .done _

theorem path_ask_iff {q : Query} {next : q.Answer → Firmware α} {steps : List Step} {a : α} :
    (Firmware.ask q next).Path steps a ↔
      ∃ answer rest, steps = ⟨q, answer⟩ :: rest ∧ (next answer).Path rest a := by
  constructor
  · intro h
    cases h with
    | ask _ answer rest => exact ⟨answer, _, rfl, rest⟩
  · rintro ⟨answer, rest, rfl, h⟩
    exact .ask q answer h

theorem path_query_iff {q : Query} {steps : List Step} {answer : q.Answer} :
    (query q).Path steps answer ↔ steps = [⟨q, answer⟩] := by
  unfold query
  rw [path_ask_iff]
  constructor
  · rintro ⟨other, rest, rfl, h⟩
    obtain ⟨rfl, rfl⟩ := path_pure_iff.1 h
    rfl
  · rintro rfl
    exact ⟨answer, [], rfl, .done answer⟩

/-- **A path through a composed program** is a path through the first part, and
then one through what the second part is for the value of the first. -/
theorem path_bind_iff {x : Firmware α} {f : α → Firmware β} {steps : List Step} {b : β} :
    (x >>= f).Path steps b ↔
      ∃ first rest a, steps = first ++ rest ∧ x.Path first a ∧ (f a).Path rest b := by
  induction x generalizing steps with
  | done a =>
    constructor
    · intro h
      exact ⟨[], steps, a, rfl, .done a, h⟩
    · rintro ⟨first, rest, a', rfl, h, hrest⟩
      cases h
      exact hrest
  | ask q next ih =>
    rw [ask_bind, path_ask_iff]
    constructor
    · rintro ⟨answer, tail, rfl, h⟩
      obtain ⟨first, rest, a, rfl, hfirst, hrest⟩ := (ih answer).1 h
      exact ⟨⟨q, answer⟩ :: first, rest, a, rfl, .ask q answer hfirst, hrest⟩
    · rintro ⟨first, rest, a, rfl, h, hrest⟩
      cases h with
      | ask _ answer hfirst =>
        exact ⟨answer, _, rfl, (ih answer).2 ⟨_, rest, a, rfl, hfirst, hrest⟩⟩

/-- A path through a program whose value is then looked at in another way. -/
theorem path_map_iff {x : Firmware α} {g : α → β} {steps : List Step} {b : β} :
    (x >>= fun a => pure (g a)).Path steps b ↔ ∃ a, x.Path steps a ∧ b = g a := by
  rw [path_bind_iff]
  constructor
  · rintro ⟨first, rest, a, rfl, hfirst, hrest⟩
    obtain ⟨rfl, rfl⟩ := path_pure_iff.1 hrest
    exact ⟨a, by rwa [List.append_nil], rfl⟩
  · rintro ⟨a, h, rfl⟩
    exact ⟨steps, [], a, (List.append_nil steps).symm, h, .done _⟩

/-- **Every run is a path.** -/
theorem path_run {σ : Type} (m : Machine σ) (x : Firmware α) (s : σ) :
    x.Path (x.run m s).steps (x.run m s).value := by
  induction x generalizing s with
  | done a => exact .done a
  | ask q next ih => exact .ask q _ (ih _ _)

/-- **Two paths through one program that start the same steps are the same.** -/
theorem Path.unique {x : Firmware α} {first second rest more : List Step} {a b : α}
    (h₁ : x.Path first a) (h₂ : x.Path second b) (h : first ++ rest = second ++ more) :
    first = second ∧ a = b ∧ rest = more := by
  induction h₁ generalizing second with
  | done a =>
    cases h₂
    exact ⟨rfl, rfl, h⟩
  | ask q answer _ ih =>
    cases h₂ with
    | ask _ other hrest =>
      rw [List.cons_append, List.cons_append, List.cons.injEq] at h
      obtain ⟨hstep, htail⟩ := h
      obtain rfl : answer = other := by
        injection hstep
      obtain ⟨rfl, rfl, rfl⟩ := ih hrest htail
      exact ⟨rfl, rfl, rfl⟩

end Firmware
namespace Task

variable {ε ε' α β : Type} {steps : List Step}

/-- A path through a task, and how the task ends on it. -/
def Path (t : Task ε α) (steps : List Step) (result : Except (Stop ε) α) : Prop :=
  Firmware.Path t.run steps result

theorem path_pure_iff {a : α} {result : Except (Stop ε) α} :
    (pure a : Task ε α).Path steps result ↔ steps = [] ∧ result = .ok a :=
  Firmware.path_pure_iff

theorem path_fail_iff {e : ε} {result : Except (Stop ε) α} :
    (fail e : Task ε α).Path steps result ↔ steps = [] ∧ result = .error (.error e) :=
  Firmware.path_pure_iff

theorem path_halt_iff {h : Halt} {result : Except (Stop ε) α} :
    (halt h : Task ε α).Path steps result ↔ steps = [] ∧ result = .error (.halt h) :=
  Firmware.path_pure_iff

theorem path_settle_iff {x result : Except (Stop ε) α} :
    (settle x : Task ε α).Path steps result ↔ steps = [] ∧ result = x := by
  cases x <;> exact Firmware.path_pure_iff

theorem path_check_iff {x : Except Halt α} {result : Except (Stop ε) α} :
    (check x : Task ε α).Path steps result ↔ steps = [] ∧ result = x.mapError .halt := by
  rw [check_eq_settle, path_settle_iff]

theorem path_bind_iff {t : Task ε α} {f : α → Task ε β} {result : Except (Stop ε) β} :
    (t >>= f).Path steps result ↔
      (∃ first rest a, steps = first ++ rest ∧ t.Path first (.ok a) ∧ (f a).Path rest result) ∨
        ∃ stop, t.Path steps (.error stop) ∧ result = .error stop := by
  show (t.run >>= _).Path steps result ↔ _
  rw [Firmware.path_bind_iff]
  constructor
  · rintro ⟨first, rest, end₁, rfl, hfirst, hrest⟩
    cases end₁ with
    | ok a => exact .inl ⟨first, rest, a, rfl, hfirst, hrest⟩
    | error stop =>
      obtain ⟨rfl, rfl⟩ := Firmware.path_pure_iff.1 hrest
      exact .inr ⟨stop, by rwa [List.append_nil], rfl⟩
  · rintro (⟨first, rest, a, rfl, hfirst, hrest⟩ | ⟨stop, h, rfl⟩)
    · exact ⟨first, rest, .ok a, rfl, hfirst, hrest⟩
    · exact ⟨steps, [], .error stop, (List.append_nil steps).symm, h, .done _⟩

theorem path_query_bind_iff {q : Query} {f : q.Answer → Task ε β} {result : Except (Stop ε) β} :
    ((liftM (Firmware.query q) : Task ε q.Answer) >>= f).Path steps result ↔
      ∃ answer rest, steps = ⟨q, answer⟩ :: rest ∧ (f answer).Path rest result :=
  Firmware.path_ask_iff

theorem path_lift_bind_iff {x : Firmware α} {f : α → Task ε β} {result : Except (Stop ε) β} :
    ((liftM x : Task ε α) >>= f).Path steps result ↔
      ∃ first rest a, steps = first ++ rest ∧ x.Path first a ∧ (f a).Path rest result := by
  show ((x >>= fun a => pure (Except.ok a)) >>= _).Path steps result ↔ _
  rw [bind_assoc]
  exact Firmware.path_bind_iff

theorem path_lift_iff {x : Firmware α} {result : Except (Stop ε) α} :
    (liftM x : Task ε α).Path steps result ↔ ∃ a, x.Path steps a ∧ result = .ok a :=
  Firmware.path_map_iff

theorem path_query_iff {q : Query} {result : Except (Stop ε) q.Answer} :
    (liftM (Firmware.query q) : Task ε q.Answer).Path steps result ↔
      ∃ answer, steps = [⟨q, answer⟩] ∧ result = .ok answer := by
  simp only [path_lift_iff, Firmware.path_query_iff]

theorem path_settle_bind_iff {x : Except (Stop ε) α} {f : α → Task ε β}
    {result : Except (Stop ε) β} :
    ((settle x : Task ε α) >>= f).Path steps result ↔
      (∃ a, x = .ok a ∧ (f a).Path steps result) ∨
        ∃ stop, x = .error stop ∧ steps = [] ∧ result = .error stop := by
  cases x with
  | ok a => exact ⟨fun h => .inl ⟨a, rfl, h⟩, by rintro (⟨_, ⟨⟩, h⟩ | ⟨_, ⟨⟩, _⟩); exact h⟩
  | error stop =>
    show (settle (.error stop) : Task ε β).Path steps result ↔ _
    rw [path_settle_iff]
    simp

theorem path_check_bind_iff {x : Except Halt α} {f : α → Task ε β} {result : Except (Stop ε) β} :
    ((check x : Task ε α) >>= f).Path steps result ↔
      (∃ a, x = .ok a ∧ (f a).Path steps result) ∨
        ∃ h, x = .error h ∧ steps = [] ∧ result = .error (.halt h) := by
  rw [check_eq_settle, path_settle_bind_iff]
  simp only [mapError_eq_ok_iff, exists_mapError_eq_error_iff]

theorem path_accept_bind_iff {wrap : ε' → ε} {x : Except ε' α} {f : α → Task ε β}
    {result : Except (Stop ε) β} :
    ((accept wrap x : Task ε α) >>= f).Path steps result ↔
      (∃ a, x = .ok a ∧ (f a).Path steps result) ∨
        ∃ e, x = .error e ∧ steps = [] ∧ result = .error (.error (wrap e)) := by
  rw [accept_eq_settle, path_settle_bind_iff]
  simp only [mapError_eq_ok_iff, exists_mapError_eq_error_iff]

theorem path_widen_iff {wrap : ε → ε'} {t : Task ε α} {result : Except (Stop ε') α} :
    (t.widen wrap).Path steps result ↔
      ∃ narrow, t.Path steps narrow ∧ result = narrow.mapError (·.map wrap) := by
  have h : (t.widen wrap).run = t.run >>= fun narrow => pure (narrow.mapError (·.map wrap)) :=
    congrArg (t.run >>= ·) (funext fun narrow => by cases narrow <;> rfl)
  unfold Path
  rw [h]
  exact Firmware.path_map_iff

theorem path_widen_ok_iff {wrap : ε → ε'} {t : Task ε α} {a : α} :
    (t.widen wrap).Path steps (.ok a) ↔ t.Path steps (.ok a) := by
  rw [path_widen_iff]
  constructor
  · rintro ⟨_ | a', h, hresult⟩
    · cases hresult
    · obtain rfl := Except.ok.inj hresult
      exact h
  · intro h
    exact ⟨.ok a, h, rfl⟩

theorem path_widen_error_iff {wrap : ε → ε'} {t : Task ε α} {wide : Stop ε'} :
    (t.widen wrap).Path steps (.error wide) ↔
      ∃ stop, t.Path steps (.error stop) ∧ wide = stop.map wrap := by
  rw [path_widen_iff]
  constructor
  · rintro ⟨stop | _, h, hresult⟩
    · exact ⟨stop, h, Except.error.inj hresult⟩
    · cases hresult
  · rintro ⟨stop, h, rfl⟩
    exact ⟨.error stop, h, rfl⟩

/-- What follows a task whose errors are seen as of a wider kind. -/
theorem path_widen_bind_iff {wrap : ε → ε'} {t : Task ε α} {f : α → Task ε' β}
    {result : Except (Stop ε') β} :
    (t.widen wrap >>= f).Path steps result ↔
      (∃ first rest a, steps = first ++ rest ∧ t.Path first (.ok a) ∧ (f a).Path rest result) ∨
        ∃ stop, t.Path steps (.error stop) ∧ result = .error (stop.map wrap) := by
  rw [path_bind_iff]
  simp only [path_widen_ok_iff, path_widen_error_iff]
  refine or_congr_right ⟨?_, ?_⟩
  · rintro ⟨_, ⟨stop, h, rfl⟩, rfl⟩
    exact ⟨stop, h, rfl⟩
  · rintro ⟨stop, h, rfl⟩
    exact ⟨_, ⟨stop, h, rfl⟩, rfl⟩

end Task

namespace Action

variable {σ τ ε ε' α β : Type} {steps : List Step} {s t : σ}

/-- A path through an action from a value it works on: how the action ends on
it, and the value then. -/
def Path (x : Action σ ε α) (s : σ) (steps : List Step) (result : Except (Stop ε) α) (t : σ) :
    Prop :=
  Firmware.Path (x.on s) steps (result, t)

/-- Every run of an action is a path. -/
theorem path_run {μ : Type} (m : Machine μ) (x : Action σ ε α) (s : σ) (u : μ) :
    x.Path s ((x.on s).run m u).steps ((x.on s).run m u).value.1 ((x.on s).run m u).value.2 :=
  Firmware.path_run m (x.on s) u

/-- What an action does that asks nothing. -/
theorem path_of_on_eq_pure {x : Action σ ε α} {result ending : Except (Stop ε) α} {u : σ}
    (h : x.on s = pure (ending, u)) :
    x.Path s steps result t ↔ steps = [] ∧ result = ending ∧ t = u := by
  unfold Path
  rw [h, Firmware.path_pure_iff, Prod.mk.injEq]

theorem path_pure_iff {a : α} {result : Except (Stop ε) α} :
    (pure a : Action σ ε α).Path s steps result t ↔ steps = [] ∧ result = .ok a ∧ t = s :=
  path_of_on_eq_pure rfl

theorem path_modify_iff {f : σ → σ} {result : Except (Stop ε) PUnit} :
    (modify f : Action σ ε PUnit).Path s steps result t ↔
      steps = [] ∧ result = .ok ⟨⟩ ∧ t = f s :=
  path_of_on_eq_pure rfl

theorem path_fail_iff {e : ε} {result : Except (Stop ε) α} :
    (fail e : Action σ ε α).Path s steps result t ↔
      steps = [] ∧ result = .error (.error e) ∧ t = s :=
  path_of_on_eq_pure rfl

theorem path_halt_iff {h : Halt} {result : Except (Stop ε) α} :
    (halt h : Action σ ε α).Path s steps result t ↔
      steps = [] ∧ result = .error (.halt h) ∧ t = s :=
  path_of_on_eq_pure rfl

theorem path_settle_iff {x result : Except (Stop ε) α} :
    (settle x : Action σ ε α).Path s steps result t ↔ steps = [] ∧ result = x ∧ t = s := by
  cases x <;> exact path_of_on_eq_pure rfl

theorem path_accept_iff {wrap : ε' → ε} {x : Except ε' α} {result : Except (Stop ε) α} :
    (accept wrap x : Action σ ε α).Path s steps result t ↔
      steps = [] ∧ (result = x.mapError fun e => .error (wrap e)) ∧ t = s := by
  rw [accept_eq_settle, path_settle_iff]

theorem path_bind_iff {x : Action σ ε α} {f : α → Action σ ε β} {result : Except (Stop ε) β} :
    (x >>= f).Path s steps result t ↔
      (∃ first rest a u, steps = first ++ rest ∧ x.Path s first (.ok a) u ∧
        (f a).Path u rest result t) ∨
      ∃ stop, x.Path s steps (.error stop) t ∧ result = .error stop := by
  show (x.on s >>= _).Path steps (result, t) ↔ _
  rw [Firmware.path_bind_iff]
  constructor
  · rintro ⟨first, rest, ⟨ending, u⟩, rfl, hfirst, hrest⟩
    cases ending with
    | ok a => exact .inl ⟨first, rest, a, u, rfl, hfirst, hrest⟩
    | error stop =>
      obtain ⟨rfl, hend⟩ := Firmware.path_pure_iff.1 hrest
      obtain ⟨rfl, rfl⟩ := Prod.mk.inj hend
      exact .inr ⟨stop, by rwa [List.append_nil], rfl⟩
  · rintro (⟨first, rest, a, u, rfl, hfirst, hrest⟩ | ⟨stop, h, rfl⟩)
    · exact ⟨first, rest, (.ok a, u), rfl, hfirst, hrest⟩
    · exact ⟨steps, [], (.error stop, t), (List.append_nil steps).symm, h, .done _⟩

/-- What follows an action that ended with a value goes on from where it
left. -/
theorem Path.bind {x : Action σ ε α} {f : α → Action σ ε β} {first rest : List Step} {a : α}
    {u : σ} {result : Except (Stop ε) β} (hx : x.Path s first (.ok a) u)
    (hf : (f a).Path u rest result t) : (x >>= f).Path s (first ++ rest) result t :=
  path_bind_iff.2 (.inl ⟨first, rest, a, u, rfl, hx, hf⟩)

/-- Nothing follows an action that ended early. -/
theorem Path.bind_error {x : Action σ ε α} {f : α → Action σ ε β} {stop : Stop ε}
    (hx : x.Path s steps (.error stop) t) : (x >>= f).Path s steps (.error stop) t :=
  path_bind_iff.2 (.inr ⟨stop, hx, rfl⟩)

theorem path_get_bind_iff {f : σ → Action σ ε β} {result : Except (Stop ε) β} :
    ((get : Action σ ε σ) >>= f).Path s steps result t ↔ (f s).Path s steps result t :=
  Iff.rfl

theorem path_set_bind_iff {u : σ} {f : PUnit → Action σ ε β} {result : Except (Stop ε) β} :
    ((set u : Action σ ε PUnit) >>= f).Path s steps result t ↔ (f ⟨⟩).Path u steps result t :=
  Iff.rfl

theorem path_modify_bind_iff {g : σ → σ} {f : PUnit → Action σ ε β}
    {result : Except (Stop ε) β} :
    ((modify g : Action σ ε PUnit) >>= f).Path s steps result t ↔
      (f ⟨⟩).Path (g s) steps result t :=
  Iff.rfl

theorem path_lift_bind_iff {x : Firmware α} {f : α → Action σ ε β} {result : Except (Stop ε) β} :
    ((liftM x : Action σ ε α) >>= f).Path s steps result t ↔
      ∃ first rest a, steps = first ++ rest ∧ x.Path first a ∧ (f a).Path s rest result t := by
  have h : ((liftM x : Action σ ε α) >>= f).on s = x >>= fun a => (f a).on s := by
    show ((x >>= _) >>= _) >>= _ = _
    rw [bind_assoc, bind_assoc]
    rfl
  unfold Path
  rw [h]
  exact Firmware.path_bind_iff

theorem path_lift_iff {x : Firmware α} {result : Except (Stop ε) α} :
    (liftM x : Action σ ε α).Path s steps result t ↔
      ∃ a, x.Path steps a ∧ result = .ok a ∧ t = s := by
  have h : (liftM x : Action σ ε α).on s = x >>= fun a => pure (.ok a, s) := by
    show (x >>= _) >>= _ = _
    rw [bind_assoc]
    rfl
  unfold Path
  simp only [h, Firmware.path_map_iff, Prod.mk.injEq]

theorem path_query_iff {q : Query} {result : Except (Stop ε) q.Answer} :
    (liftM (Firmware.query q) : Action σ ε q.Answer).Path s steps result t ↔
      ∃ answer, steps = [⟨q, answer⟩] ∧ result = .ok answer ∧ t = s := by
  simp only [path_lift_iff, Firmware.path_query_iff]

theorem path_query_bind_iff {q : Query} {f : q.Answer → Action σ ε β}
    {result : Except (Stop ε) β} :
    ((liftM (Firmware.query q) : Action σ ε q.Answer) >>= f).Path s steps result t ↔
      ∃ answer rest, steps = ⟨q, answer⟩ :: rest ∧ (f answer).Path s rest result t :=
  Firmware.path_ask_iff

theorem path_settle_bind_iff {x : Except (Stop ε) α} {f : α → Action σ ε β}
    {result : Except (Stop ε) β} :
    ((settle x : Action σ ε α) >>= f).Path s steps result t ↔
      (∃ a, x = .ok a ∧ (f a).Path s steps result t) ∨
        ∃ stop, x = .error stop ∧ steps = [] ∧ result = .error stop ∧ t = s := by
  cases x with
  | ok a => exact ⟨fun h => .inl ⟨a, rfl, h⟩, by rintro (⟨_, ⟨⟩, h⟩ | ⟨_, ⟨⟩, _⟩); exact h⟩
  | error stop =>
    show (settle (.error stop) : Action σ ε β).Path s steps result t ↔ _
    rw [path_settle_iff]
    simp

theorem path_check_bind_iff {x : Except Halt α} {f : α → Action σ ε β}
    {result : Except (Stop ε) β} :
    ((check x : Action σ ε α) >>= f).Path s steps result t ↔
      (∃ a, x = .ok a ∧ (f a).Path s steps result t) ∨
        ∃ h, x = .error h ∧ steps = [] ∧ result = .error (.halt h) ∧ t = s := by
  rw [check_eq_settle, path_settle_bind_iff]
  simp only [mapError_eq_ok_iff, exists_mapError_eq_error_iff]

theorem path_accept_bind_iff {wrap : ε' → ε} {x : Except ε' α} {f : α → Action σ ε β}
    {result : Except (Stop ε) β} :
    ((accept wrap x : Action σ ε α) >>= f).Path s steps result t ↔
      (∃ a, x = .ok a ∧ (f a).Path s steps result t) ∨
        ∃ e, x = .error e ∧ steps = [] ∧ result = .error (.error (wrap e)) ∧ t = s := by
  rw [accept_eq_settle, path_settle_bind_iff]
  simp only [mapError_eq_ok_iff, exists_mapError_eq_error_iff]

/-- What follows a question whose answer may be an error. -/
theorem path_answer_bind_iff {x : Firmware (Except ε' α)} {wrap : ε' → ε} {f : α → Action σ ε β}
    {result : Except (Stop ε) β} :
    (do let a ← accept wrap (← (liftM x : Action σ ε (Except ε' α))); f a).Path s steps result t ↔
      (∃ first rest a, steps = first ++ rest ∧ x.Path first (.ok a) ∧ (f a).Path s rest result t) ∨
        ∃ e, x.Path steps (.error e) ∧ result = .error (.error (wrap e)) ∧ t = s := by
  rw [path_lift_bind_iff]
  constructor
  · rintro ⟨first, rest, answer, rfl, hx, hrest⟩
    rcases path_accept_bind_iff.1 hrest with ⟨a, rfl, hf⟩ | ⟨e, rfl, rfl, rfl, rfl⟩
    · exact .inl ⟨first, rest, a, rfl, hx, hf⟩
    · exact .inr ⟨e, by rwa [List.append_nil], rfl, rfl⟩
  · rintro (⟨first, rest, a, rfl, hx, hf⟩ | ⟨e, hx, rfl, rfl⟩)
    · exact ⟨first, rest, .ok a, rfl, hx, path_accept_bind_iff.2 (.inl ⟨a, rfl, hf⟩)⟩
    · exact ⟨steps, [], .error e, (List.append_nil steps).symm, hx,
        path_accept_bind_iff.2 (.inr ⟨e, rfl, rfl, rfl, rfl⟩)⟩

theorem path_task_iff {x : Task ε α} {result : Except (Stop ε) α} :
    (liftM x : Action σ ε α).Path s steps result t ↔ x.Path steps result ∧ t = s := by
  show (x.run >>= fun r => pure (r, s)).Path steps (result, t) ↔ _
  rw [Firmware.path_map_iff]
  constructor
  · rintro ⟨ending, h, hend⟩
    obtain ⟨rfl, rfl⟩ := Prod.mk.inj hend
    exact ⟨h, rfl⟩
  · rintro ⟨h, rfl⟩
    exact ⟨result, h, rfl⟩

/-- What follows a task in an action. -/
theorem path_task_bind_iff {x : Task ε α} {f : α → Action σ ε β} {result : Except (Stop ε) β} :
    ((liftM x : Action σ ε α) >>= f).Path s steps result t ↔
      (∃ first rest a, steps = first ++ rest ∧ x.Path first (.ok a) ∧ (f a).Path s rest result t) ∨
        ∃ stop, x.Path steps (.error stop) ∧ result = .error stop ∧ t = s := by
  rw [path_bind_iff]
  constructor
  · rintro (⟨first, rest, a, u, rfl, hfirst, hrest⟩ | ⟨stop, h, rfl⟩)
    · obtain ⟨hpath, rfl⟩ := path_task_iff.1 hfirst
      exact .inl ⟨first, rest, a, rfl, hpath, hrest⟩
    · obtain ⟨hpath, rfl⟩ := path_task_iff.1 h
      exact .inr ⟨stop, hpath, rfl, rfl⟩
  · rintro (⟨first, rest, a, rfl, hfirst, hrest⟩ | ⟨stop, h, rfl, rfl⟩)
    · exact .inl ⟨first, rest, a, s, rfl, path_task_iff.2 ⟨hfirst, rfl⟩, hrest⟩
    · exact .inr ⟨stop, path_task_iff.2 ⟨h, rfl⟩, rfl⟩

/-- What follows, in an action, a task whose errors are seen as of a wider
kind. -/
theorem path_widen_bind_iff {wrap : ε → ε'} {x : Task ε α} {f : α → Action σ ε' β}
    {result : Except (Stop ε') β} :
    ((liftM (x.widen wrap) : Action σ ε' α) >>= f).Path s steps result t ↔
      (∃ first rest a, steps = first ++ rest ∧ x.Path first (.ok a) ∧ (f a).Path s rest result t) ∨
        ∃ stop, x.Path steps (.error stop) ∧ result = .error (stop.map wrap) ∧ t = s := by
  rw [path_task_bind_iff]
  simp only [Task.path_widen_ok_iff, Task.path_widen_error_iff]
  refine or_congr_right ⟨?_, ?_⟩
  · rintro ⟨_, ⟨stop, h, rfl⟩, rfl, rfl⟩
    exact ⟨stop, h, rfl, rfl⟩
  · rintro ⟨stop, h, rfl, rfl⟩
    exact ⟨_, ⟨stop, h, rfl⟩, rfl, rfl⟩

theorem path_focus_iff {get : σ → τ} {put : τ → σ → σ} {x : Action τ ε α}
    {result : Except (Stop ε) α} :
    (x.focus get put).Path s steps result t ↔ ∃ u, x.Path (get s) steps result u ∧ t = put u s := by
  show (x.on (get s) >>= fun r => pure (r.1, put r.2 s)).Path steps (result, t) ↔ _
  rw [Firmware.path_map_iff]
  constructor
  · rintro ⟨⟨ending, u⟩, h, hend⟩
    obtain ⟨rfl, rfl⟩ := Prod.mk.inj hend
    exact ⟨u, h, rfl⟩
  · rintro ⟨u, h, rfl⟩
    exact ⟨(result, u), h, rfl⟩

/-- An action whose error is looked at goes on after a value and after an
error, and ends with a halt only after a halt. -/
theorem path_attempt_iff {x : Action σ ε α} {result : Except (Stop ε') (Except ε α)} :
    (x.attempt : Action σ ε' (Except ε α)).Path s steps result t ↔
      (∃ a, x.Path s steps (.ok a) t ∧ result = .ok (.ok a)) ∨
      (∃ e, x.Path s steps (.error (.error e)) t ∧ result = .ok (.error e)) ∨
      ∃ h, x.Path s steps (.error (.halt h)) t ∧ result = .error (.halt h) := by
  show (x.on s >>= _).Path steps (result, t) ↔ _
  rw [Firmware.path_bind_iff]
  constructor
  · rintro ⟨first, rest, ⟨ending, u⟩, rfl, hfirst, hrest⟩
    rcases ending with (e | h) | a <;> obtain ⟨rfl, hend⟩ := Firmware.path_pure_iff.1 hrest <;>
      obtain ⟨rfl, rfl⟩ := Prod.mk.inj hend <;> rw [List.append_nil]
    · exact .inr (.inl ⟨e, hfirst, rfl⟩)
    · exact .inr (.inr ⟨h, hfirst, rfl⟩)
    · exact .inl ⟨a, hfirst, rfl⟩
  · rintro (⟨a, h, rfl⟩ | ⟨e, h, rfl⟩ | ⟨e, h, rfl⟩) <;>
      exact ⟨steps, [], _, (List.append_nil steps).symm, h, .done _⟩

/-- What follows an action for a part whose error is looked at. -/
theorem path_attempt_focus_bind_iff {get : σ → τ} {put : τ → σ → σ} {x : Action τ ε α}
    {f : Except ε α → Action σ ε' β} {result : Except (Stop ε') β} :
    ((x.focus get put).attempt >>= f).Path s steps result t ↔
      (∃ first rest found u, steps = first ++ rest ∧
        x.Path (get s) first (found.mapError .error) u ∧ (f found).Path (put u s) rest result t) ∨
      ∃ h u, x.Path (get s) steps (.error (.halt h)) u ∧ result = .error (.halt h) ∧
        t = put u s := by
  rw [path_bind_iff]
  constructor
  · rintro (⟨first, rest, found, v, rfl, hx, hf⟩ | ⟨stop, hx, rfl⟩)
    · rcases path_attempt_iff.1 hx with ⟨a, ha, ⟨⟩⟩ | ⟨e, he, ⟨⟩⟩ | ⟨h, -, ⟨⟩⟩
      · obtain ⟨u, hu, rfl⟩ := path_focus_iff.1 ha
        exact .inl ⟨first, rest, .ok a, u, rfl, hu, hf⟩
      · obtain ⟨u, hu, rfl⟩ := path_focus_iff.1 he
        exact .inl ⟨first, rest, .error e, u, rfl, hu, hf⟩
    · rcases path_attempt_iff.1 hx with ⟨a, -, ⟨⟩⟩ | ⟨e, -, ⟨⟩⟩ | ⟨h, hh, ⟨⟩⟩
      obtain ⟨u, hu, rfl⟩ := path_focus_iff.1 hh
      exact .inr ⟨h, u, hu, rfl, rfl⟩
  · rintro (⟨first, rest, found, u, rfl, hu, hf⟩ | ⟨h, u, hu, rfl, rfl⟩)
    · refine .inl ⟨first, rest, found, put u s, rfl, path_attempt_iff.2 ?_, hf⟩
      cases found with
      | ok a => exact .inl ⟨a, path_focus_iff.2 ⟨u, hu, rfl⟩, rfl⟩
      | error e => exact .inr (.inl ⟨e, path_focus_iff.2 ⟨u, hu, rfl⟩, rfl⟩)
    · refine .inr ⟨.halt h, path_attempt_iff.2 (.inr (.inr ⟨h, ?_, rfl⟩)), rfl⟩
      exact path_focus_iff.2 ⟨u, hu, rfl⟩

end Action

end Platform
end BootHandoff
