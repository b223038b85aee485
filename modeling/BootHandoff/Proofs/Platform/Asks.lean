/-
# What a program may ask

`Asks P` says of boot code that whatever it asks, on any path, satisfies `P`.
It is the part of a specification that callers need most often: code that asks
nothing of the processor leaves the order of cleaning and jumping to them, and
code that asks nothing of the container has not booted anything unverified.

The statements follow the ways in which boot code is put together, so that the
footprint of a function is read off its text.
-/

import BootHandoff.Flash.Session
import BootHandoff.Proofs.Platform.Path

namespace BootHandoff
namespace Platform

variable {σ τ κ ι ε ε' α β : Type} {P : Query → Prop}

/-- Whatever a program asks satisfies `P`. -/
def Firmware.Asks (P : Query → Prop) (x : Firmware α) : Prop :=
  ∀ steps a, x.Path steps a → ∀ step ∈ steps, P step.query

/-- Whatever a task asks satisfies `P`. -/
def Task.Asks (P : Query → Prop) (t : Task ε α) : Prop :=
  ∀ steps result, t.Path steps result → ∀ step ∈ steps, P step.query

/-- Whatever an action asks satisfies `P`, and it leaves `kept` of what it
works on as it was, however it ends. -/
def Action.Frame (P : Query → Prop) (kept : σ → κ) (x : Action σ ε α) : Prop :=
  ∀ s steps result t, x.Path s steps result t → (∀ step ∈ steps, P step.query) ∧ kept t = kept s

namespace Firmware

theorem asks_pure (a : α) : (pure a : Firmware α).Asks P := by
  intro steps b h
  obtain ⟨rfl, -⟩ := path_pure_iff.1 h
  exact List.forall_mem_nil _

theorem asks_query {q : Query} (hq : P q) : (query q).Asks P := by
  intro steps answer h
  obtain rfl := path_query_iff.1 h
  exact List.forall_mem_singleton.2 hq

theorem asks_bind {x : Firmware α} {f : α → Firmware β} (hx : x.Asks P)
    (hf : ∀ a, (f a).Asks P) : (x >>= f).Asks P := by
  intro steps b h
  obtain ⟨first, rest, a, rfl, hfirst, hrest⟩ := path_bind_iff.1 h
  exact List.forall_mem_append.2 ⟨hx _ _ hfirst, hf a _ _ hrest⟩

end Firmware

namespace Task

theorem Asks.mono {Q : Query → Prop} {t : Task ε α} (ht : t.Asks P) (h : ∀ q, P q → Q q) :
    t.Asks Q :=
  fun steps result hpath step hstep => h _ (ht steps result hpath step hstep)

theorem asks_of_silent {t : Task ε α} (h : ∀ steps result, t.Path steps result → steps = []) :
    t.Asks P := by
  intro steps result hpath
  rw [h steps result hpath]
  exact List.forall_mem_nil _

theorem asks_pure (a : α) : (pure a : Task ε α).Asks P :=
  asks_of_silent fun _ _ h => (path_pure_iff.1 h).1

theorem asks_fail (e : ε) : (fail e : Task ε α).Asks P :=
  asks_of_silent fun _ _ h => (path_fail_iff.1 h).1

theorem asks_check (x : Except Halt α) : (check x : Task ε α).Asks P :=
  asks_of_silent fun _ _ h => (path_check_iff.1 h).1

theorem asks_bind {t : Task ε α} {f : α → Task ε β} (ht : t.Asks P)
    (hf : ∀ a, (f a).Asks P) : (t >>= f).Asks P := by
  intro steps result h
  rcases path_bind_iff.1 h with ⟨first, rest, a, rfl, hfirst, hrest⟩ | ⟨stop, h, -⟩
  · exact List.forall_mem_append.2 ⟨ht _ _ hfirst, hf a _ _ hrest⟩
  · exact ht _ _ h

theorem asks_lift {x : Firmware α} (hx : x.Asks P) : (liftM x : Task ε α).Asks P := by
  intro steps result h
  obtain ⟨a, hpath, -⟩ := path_lift_iff.1 h
  exact hx _ _ hpath

theorem asks_lift_bind {x : Firmware α} {f : α → Task ε β} (hx : x.Asks P)
    (hf : ∀ a, (f a).Asks P) : ((liftM x : Task ε α) >>= f).Asks P := by
  intro steps result h
  obtain ⟨first, rest, a, rfl, hfirst, hrest⟩ := path_lift_bind_iff.1 h
  exact List.forall_mem_append.2 ⟨hx _ _ hfirst, hf a _ _ hrest⟩

end Task

namespace Action

variable {kept : σ → κ}

theorem Frame.mono {Q : Query → Prop} {x : Action σ ε α} (hx : x.Frame P kept)
    (h : ∀ q, P q → Q q) : x.Frame Q kept := by
  intro s steps result t hpath
  obtain ⟨hasks, hkept⟩ := hx s steps result t hpath
  exact ⟨fun step hstep => h _ (hasks step hstep), hkept⟩

theorem frame_of_silent {x : Action σ ε α}
    (h : ∀ s steps result t, x.Path s steps result t → steps = [] ∧ kept t = kept s) :
    x.Frame P kept := by
  intro s steps result t hpath
  obtain ⟨rfl, hkept⟩ := h s steps result t hpath
  exact ⟨List.forall_mem_nil _, hkept⟩

theorem frame_pure (a : α) : (pure a : Action σ ε α).Frame P kept :=
  frame_of_silent fun _ _ _ _ h =>
    have ⟨hsteps, _, ht⟩ := path_pure_iff.1 h
    ⟨hsteps, congrArg kept ht⟩

theorem frame_fail (e : ε) : (fail e : Action σ ε α).Frame P kept :=
  frame_of_silent fun _ _ _ _ h =>
    have ⟨hsteps, _, ht⟩ := path_fail_iff.1 h
    ⟨hsteps, congrArg kept ht⟩

theorem frame_halt (e : Halt) : (halt e : Action σ ε α).Frame P kept :=
  frame_of_silent fun _ _ _ _ h =>
    have ⟨hsteps, _, ht⟩ := path_halt_iff.1 h
    ⟨hsteps, congrArg kept ht⟩

theorem frame_accept (wrap : ε' → ε) (x : Except ε' α) :
    (accept wrap x : Action σ ε α).Frame P kept :=
  frame_of_silent fun _ _ _ _ h =>
    have ⟨hsteps, _, ht⟩ := path_accept_iff.1 h
    ⟨hsteps, congrArg kept ht⟩

theorem frame_modify {f : σ → σ} (hf : ∀ s, kept (f s) = kept s) :
    (modify f : Action σ ε PUnit).Frame P kept :=
  frame_of_silent fun s _ _ _ h =>
    have ⟨hsteps, _, ht⟩ := path_modify_iff.1 h
    ⟨hsteps, ht ▸ hf s⟩

theorem frame_bind {x : Action σ ε α} {f : α → Action σ ε β} (hx : x.Frame P kept)
    (hf : ∀ a, (f a).Frame P kept) : (x >>= f).Frame P kept := by
  intro s steps result t h
  rcases path_bind_iff.1 h with ⟨first, rest, a, u, rfl, hfirst, hrest⟩ | ⟨stop, h, -⟩
  · obtain ⟨hasks₁, hkept₁⟩ := hx _ _ _ _ hfirst
    obtain ⟨hasks₂, hkept₂⟩ := hf a _ _ _ _ hrest
    exact ⟨List.forall_mem_append.2 ⟨hasks₁, hasks₂⟩, hkept₂.trans hkept₁⟩
  · exact hx _ _ _ _ h

theorem frame_lift_bind {x : Firmware α} {f : α → Action σ ε β} (hx : x.Asks P)
    (hf : ∀ a, (f a).Frame P kept) : ((liftM x : Action σ ε α) >>= f).Frame P kept := by
  intro s steps result t h
  obtain ⟨first, rest, a, rfl, hfirst, hrest⟩ := path_lift_bind_iff.1 h
  obtain ⟨hasks, hkept⟩ := hf a _ _ _ _ hrest
  exact ⟨List.forall_mem_append.2 ⟨hx _ _ hfirst, hasks⟩, hkept⟩

theorem frame_task {x : Task ε α} (hx : x.Asks P) : (liftM x : Action σ ε α).Frame P kept := by
  intro s steps result t h
  obtain ⟨hpath, rfl⟩ := path_task_iff.1 h
  exact ⟨hx _ _ hpath, rfl⟩

/-- Work on a part asks what it asks, and leaves what is not in that part. -/
theorem frame_focus {get : σ → τ} {put : τ → σ → σ} {x : Action τ ε α} {inner : τ → ι}
    (hx : x.Frame P inner) (hput : ∀ u s, kept (put u s) = kept s) :
    (x.focus get put).Frame P kept := by
  intro s steps result t h
  obtain ⟨u, hpath, rfl⟩ := path_focus_iff.1 h
  exact ⟨(hx _ _ _ _ hpath).1, hput u s⟩

theorem frame_attempt {x : Action σ ε α} (hx : x.Frame P kept) :
    (x.attempt : Action σ ε' (Except ε α)).Frame P kept := by
  intro s steps result t h
  rcases path_attempt_iff.1 h with ⟨_, h, -⟩ | ⟨_, h, -⟩ | ⟨_, h, -⟩ <;> exact hx _ _ _ _ h

end Action
end Platform

namespace Flash

open Platform

variable {σ κ ε α : Type}

/-- Work that is followed by closing the flash, however it ends. -/
theorem path_close_iff {body : Action σ ε α} {s t : σ} {steps : List Step}
    {result : Except (Stop ε) α} :
    Action.Path (ExceptT.mk do
      let result ← body.run
      liftM Firmware.closeFlash
      return result) s steps result t ↔
        ∃ inner, steps = inner ++ [⟨.closeFlash, ()⟩] ∧ body.Path s inner result t := by
  show (body.on s >>= fun r => Firmware.ask .closeFlash fun _ => pure r).Path steps (result, t) ↔ _
  rw [Firmware.path_bind_iff]
  constructor
  · rintro ⟨inner, rest, r, rfl, hinner, hrest⟩
    obtain ⟨⟨⟩, last, rfl, hlast⟩ := Firmware.path_ask_iff.1 hrest
    obtain ⟨rfl, rfl⟩ := Firmware.path_pure_iff.1 hlast
    exact ⟨inner, rfl, hinner⟩
  · rintro ⟨inner, rfl, hinner⟩
    exact ⟨inner, _, (result, t), rfl, hinner, .ask .closeFlash () (.done _)⟩

/-- **A session closes what it opened:** it ends with the error of a flash that
does not open, or does its work between opening and closing, however the work
ends. -/
theorem path_session_iff {wrap : FlashError → ε} {body : Action σ ε α} {s t : σ}
    {steps : List Step} {result : Except (Stop ε) α} :
    Action.Path (session wrap body) s steps result t ↔
      (∃ e, steps = [⟨.openFlash, .error e⟩] ∧ result = .error (.error (wrap e)) ∧ t = s) ∨
      ∃ inner, steps = ⟨.openFlash, .ok ()⟩ :: (inner ++ [⟨.closeFlash, ()⟩]) ∧
        body.Path s inner result t := by
  have hopen : Action.Path (session wrap body) s steps result t ↔
      ∃ answer rest, steps = ⟨.openFlash, answer⟩ :: rest ∧
        Action.Path ((accept wrap answer : Action σ ε Unit) >>= fun _ => ExceptT.mk do
          let result ← body.run
          liftM Firmware.closeFlash
          return result) s rest result t :=
    Firmware.path_ask_iff
  rw [hopen]
  constructor
  · rintro ⟨e | ⟨⟩, rest, rfl, h⟩
    · obtain ⟨rfl, rfl, rfl⟩ := Action.path_fail_iff.1 h
      exact .inl ⟨e, rfl, rfl, rfl⟩
    · obtain ⟨inner, rfl, hinner⟩ := path_close_iff.1 h
      exact .inr ⟨inner, rfl, hinner⟩
  · rintro (⟨e, rfl, rfl, rfl⟩ | ⟨inner, rfl, hinner⟩)
    · exact ⟨.error e, [], rfl, Action.path_fail_iff.2 ⟨rfl, rfl, rfl⟩⟩
    · exact ⟨.ok (), _, rfl, path_close_iff.2 ⟨inner, rfl, hinner⟩⟩

/-- A session of a task closes what it opened too. -/
theorem path_task_session {wrap : FlashError → ε} {body : Task ε α} {steps : List Step}
    {result : Except (Stop ε) α} (h : (session wrap body : Task ε α).Path steps result) :
    (∃ e, steps = [⟨.openFlash, .error e⟩] ∧ result = .error (.error (wrap e))) ∨
      ∃ inner, steps = ⟨.openFlash, .ok ()⟩ :: (inner ++ [⟨.closeFlash, ()⟩]) ∧
        body.Path inner result := by
  obtain ⟨opened, rest, rfl, hopened⟩ := (Task.path_query_bind_iff (q := .openFlash)).1 h
  rcases Task.path_accept_bind_iff.1 hopened with ⟨⟨⟩, rfl, hwork⟩ | ⟨e, rfl, rfl, rfl⟩
  · obtain ⟨inner, last, ending, rfl, hinner, hclose⟩ := Firmware.path_bind_iff.1 hwork
    obtain ⟨⟨⟩, none, rfl, hend⟩ := Firmware.path_ask_iff.1 hclose
    obtain ⟨rfl, rfl⟩ := Firmware.path_pure_iff.1 hend
    exact .inr ⟨inner, rfl, hinner⟩
  · exact .inl ⟨e, rfl, rfl⟩

theorem frame_session {P : Query → Prop} {kept : σ → κ} {wrap : FlashError → ε}
    {body : Action σ ε α} (hopen : P .openFlash) (hclose : P .closeFlash)
    (hbody : body.Frame P kept) : Action.Frame P kept (session wrap body) := by
  intro s steps result t h
  rcases path_session_iff.1 h with ⟨e, rfl, -, rfl⟩ | ⟨inner, rfl, hinner⟩
  · exact ⟨List.forall_mem_singleton.2 hopen, rfl⟩
  · obtain ⟨hasks, hkept⟩ := hbody _ _ _ _ hinner
    exact ⟨List.forall_mem_cons.2 ⟨hopen, List.forall_mem_append.2
      ⟨hasks, List.forall_mem_singleton.2 hclose⟩⟩, hkept⟩

end Flash
end BootHandoff
