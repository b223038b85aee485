/-
# A preparation that is tried again

A handoff that could not load its secure monitor may be prepared again, any
number of times, and on other platforms.  Each attempt is an `Attempt`, and
`Context.after` is the state it leaves.  A phase never goes back, and as long as
the secure monitor has not been loaded, nothing but the phase has changed
(`Untouched`), so that the next attempt is like the first; once it has been, an
attempt asks nothing and halts.

Unlike the courses this holds with code of the board's own too, whatever that
code does.
-/

import BootHandoff.Proofs.Bench.Steady
import BootHandoff.Proofs.Handoff.Relocation
import BootHandoff.Proofs.Platform.Extensionality

namespace BootHandoff
namespace Handoff

open Abi Bench Board Platform SecureOs Verified

variable {decoder : KeyStore.Decoder} {registry : Registry} {payload : Payload} {c t : Context}
  {steps : List Step}

namespace Phase

theorem le_refl (p : Phase) : p ≤ p := Nat.le_refl p.rank

theorem le_trans {p q r : Phase} (hpq : p ≤ q) (hqr : q ≤ r) : p ≤ r :=
  Nat.le_trans (show p.rank ≤ q.rank from hpq) hqr

end Phase

section Later

variable {ε α : Type}

/-- An action that never goes back in the order of the phases. -/
def Ascends (x : Action Context ε α) : Prop :=
  ∀ c steps result t, x.Path c steps result t → c.phase ≤ t.phase

theorem ascends_of_keeps {x : Action Context ε α}
    (h : ∀ c steps result t, x.Path c steps result t → t.phase = c.phase) : Ascends x := by
  intro c steps result t hpath
  rw [h c steps result t hpath]
  exact Phase.le_refl _

theorem ascends_bind {β : Type} {x : Action Context ε α} {f : α → Action Context ε β}
    (hx : Ascends x) (hf : ∀ a, Ascends (f a)) : Ascends (x >>= f) := by
  intro c steps result t hpath
  rcases Action.path_bind_iff.1 hpath with
    ⟨first, rest, a, u, rfl, hfirst, hrest⟩ | ⟨stop, hfirst, -⟩
  · exact Phase.le_trans (hx _ _ _ _ hfirst) (hf a _ _ _ _ hrest)
  · exact hx _ _ _ _ hfirst

theorem ascends_get_bind {f : Context → Action Context ε α} (hf : ∀ c, Ascends (f c)) :
    Ascends ((get : Action Context ε Context) >>= f) :=
  fun c _ _ _ hpath => hf c _ _ _ _ (Action.path_get_bind_iff.1 hpath)

theorem ascends_pure (a : α) : Ascends (pure a : Action Context ε α) :=
  ascends_of_keeps fun _ _ _ _ hpath => by rw [(Action.path_pure_iff.1 hpath).2.2]

theorem ascends_modify {f : Context → Context} (h : ∀ c, (f c).phase = c.phase) :
    Ascends (modify f : Action Context ε PUnit) :=
  ascends_of_keeps fun c _ _ _ hpath => by rw [(Action.path_modify_iff.1 hpath).2.2, h]

theorem ascends_enter (phase : Phase) : Ascends (enter phase : Action Context ε Unit) := by
  intro c steps result t hpath
  rcases path_enter_iff.1 hpath with ⟨hle, -, -, rfl⟩ | ⟨-, -, -, rfl⟩
  · exact hle
  · exact Phase.le_refl _

theorem ascends_cleanParams (withSecureOs : Bool) :
    Ascends (cleanParams withSecureOs : Action Context ε Unit) :=
  ascends_of_keeps fun _ _ _ _ hpath => by rw [(path_cleanParams hpath).2.2]

theorem ascends_extendParams : Ascends (extendParams : Action Context ε UInt64) := by
  refine ascends_of_keeps fun c steps result t hpath => ?_
  replace hpath := Action.path_get_bind_iff.1 hpath
  split at hpath
  · obtain ⟨first, rest, answer, rfl, -, hset⟩ := Action.path_lift_bind_iff.1 hpath
    replace hset := Action.path_set_bind_iff.1 hset
    obtain ⟨-, -, rfl⟩ := Action.path_pure_iff.1 hset
    rfl
  · obtain ⟨-, -, rfl⟩ := Action.path_pure_iff.1 hpath
    rfl

end Later

theorem ascends_adjustEntry : Ascends (adjustEntry decoder) := by
  refine ascends_of_keeps fun c steps result t hpath => ?_
  replace hpath := Action.path_get_bind_iff.1 hpath
  split at hpath
  · obtain ⟨-, -, rfl⟩ := Action.path_pure_iff.1 hpath
    rfl
  · obtain ⟨first, rest, answer, rfl, -, hset⟩ := Action.path_lift_bind_iff.1 hpath
    replace hset := Action.path_set_bind_iff.1 hset
    obtain ⟨-, -, rfl⟩ := Action.path_settle_iff.1 hset
    rfl
  · obtain ⟨first, rest, answer, rfl, -, hset⟩ := Action.path_lift_bind_iff.1 hpath
    replace hset := Action.path_set_bind_iff.1 hset
    obtain ⟨-, -, rfl⟩ := Action.path_accept_iff.1 hset
    rfl

theorem ascends_describeSecureOs (pc : UInt64) : Ascends (describeSecureOs decoder pc) :=
  ascends_bind (ascends_modify fun _ => rfl) fun _ =>
    ascends_bind ascends_adjustEntry fun _ => ascends_modify fun _ => rfl

theorem ascends_finish (payload : Payload) (entry : UInt64) (withSecureOs : Bool) :
    Ascends (finish payload entry withSecureOs) :=
  ascends_bind (ascends_modify fun _ => rfl) fun _ => ascends_bind ascends_extendParams fun _ =>
    ascends_bind (ascends_enter _) fun _ => ascends_bind (ascends_cleanParams _) fun _ =>
    ascends_get_bind fun _ => ascends_pure _

/-- Behind the phase in which the parameters are assembled there is no way
back before it. -/
theorem le_of_path_assemble {entry : UInt64} {pc? : Option UInt64}
    {result : Except (Stop BootError) Jump} (hphase : c.phase ≤ .assembleParams)
    (h : (assemble decoder payload entry pc?).Path c steps result t) :
    .assembleParams ≤ t.phase := by
  rcases path_enter_bind_iff.1 h with ⟨-, rest, -, hrest⟩ | ⟨hnle, -, -, -⟩
  · cases pc? with
    | none => exact ascends_finish _ _ _ _ _ _ _ hrest
    | some pc =>
      exact (ascends_bind (ascends_describeSecureOs pc) fun _ => ascends_finish _ _ _) _ _ _ _ hrest
  · exact absurd hphase hnle

/-- **What an attempt leaves,** with any addition of the board: everything as it
was if it starts too late, nothing but the phase if the secure monitor does not
load, and a later phase if it does. -/
theorem prepare_cases {result : Except (Stop BootError) Jump}
    (h : (prepare decoder registry payload).Path c steps result t) :
    (¬c.phase ≤ .loadMonitor ∧ t = c) ∨
    (c.phase ≤ .loadMonitor ∧ t = { c with phase := .loadMonitor }) ∨
    (c.phase ≤ .loadMonitor ∧ .loadSecureOs ≤ t.phase) := by
  rcases path_enter_bind_iff.1 h with ⟨hphase, rest, -, hget⟩ | ⟨hphase, -, -, rfl⟩
  · replace hget := Action.path_get_bind_iff.1 hget
    rcases Action.path_widen_bind_iff.1 hget with
      ⟨forMonitor, rest, monitor, -, -, hfresh⟩ | ⟨stop, -, -, rfl⟩
    · refine .inr (.inr ⟨hphase, ?_⟩)
      replace hfresh := Action.path_modify_bind_iff.1 hfresh
      rcases Action.path_bind_iff.1 hfresh with
        ⟨first, rest, pc?, u, -, hload?, hassemble⟩ | ⟨stop, hload?, -⟩
      · have hearly : u.phase ≤ .assembleParams := by
          rcases path_loadSecureOs? (show Phase.loadMonitor ≤ .loadSecureOs by decide) hload? with
            ⟨-, -, -, rfl⟩ | ⟨_, _, _, -, -, -, -, rfl⟩
          · show Phase.loadMonitor ≤ .assembleParams
            decide
          · show Phase.loadSecureOs ≤ .assembleParams
            decide
        have hlate := le_of_path_assemble hearly hassemble
        exact Phase.le_trans (show Phase.loadSecureOs ≤ .assembleParams by decide) hlate
      · rcases path_loadSecureOs? (show Phase.loadMonitor ≤ .loadSecureOs by decide) hload? with
          ⟨-, -, ⟨⟩, -⟩ | ⟨_, _, _, -, -, -, -, rfl⟩
        exact Phase.le_refl _
    · exact .inr (.inl ⟨hphase, rfl⟩)
  · exact .inl ⟨hphase, rfl⟩

/-- One attempt at a preparation: a platform in some state, a registry and a
payload. -/
structure Attempt where
  State : Type
  machine : Machine State
  state : State
  registry : Registry
  payload : Payload

/-- The state of a handoff behind one more attempt. -/
def Context.after (decoder : KeyStore.Decoder) (c : Context) (attempt : Attempt) : Context :=
  (((prepare decoder attempt.registry attempt.payload).on c).run attempt.machine
    attempt.state).value.2

theorem Context.after_cases (c : Context) (attempt : Attempt) :
    (¬c.phase ≤ .loadMonitor ∧ c.after decoder attempt = c) ∨
    (c.phase ≤ .loadMonitor ∧ c.after decoder attempt = { c with phase := .loadMonitor }) ∨
    (c.phase ≤ .loadMonitor ∧ .loadSecureOs ≤ (c.after decoder attempt).phase) :=
  prepare_cases (Action.path_run attempt.machine
    (prepare decoder attempt.registry attempt.payload) c attempt.state)

/-- No attempt goes back in the order of the phases. -/
theorem Context.phase_le_after (c : Context) (attempt : Attempt) :
    c.phase ≤ (c.after decoder attempt).phase := by
  rcases c.after_cases attempt with ⟨-, ht⟩ | ⟨hphase, ht⟩ | ⟨hphase, hlate⟩
  · rw [ht]
    exact Phase.le_refl _
  · rw [ht]
    exact hphase
  · exact Phase.le_trans (Phase.le_trans hphase (by decide)) hlate

theorem Context.phase_le_foldl_after (c : Context) (attempts : List Attempt) :
    c.phase ≤ (attempts.foldl (Context.after decoder) c).phase := by
  induction attempts generalizing c with
  | nil => exact Phase.le_refl _
  | cons attempt rest ih => exact Phase.le_trans (c.phase_le_after attempt) (ih _)

/-- As long as the secure monitor has not been loaded, a handoff is as it began,
but for the phase. -/
def Untouched (start c : Context) : Prop :=
  c.phase ≤ .loadMonitor → c = { start with phase := c.phase }

theorem Untouched.after {start : Context} (h : Untouched start c) (attempt : Attempt) :
    Untouched start (c.after decoder attempt) := by
  intro hafter
  rcases c.after_cases attempt with ⟨hphase, ht⟩ | ⟨hphase, ht⟩ | ⟨-, hlate⟩
  · rw [ht] at hafter
    exact absurd hafter hphase
  · rw [ht, h hphase]
  · exact absurd (Phase.le_trans hlate hafter) (by decide)

theorem untouched_foldl_after {start : Context} (h : Untouched start c)
    (attempts : List Attempt) :
    Untouched start (attempts.foldl (Context.after decoder) c) := by
  induction attempts generalizing c with
  | nil => exact h
  | cons attempt rest ih => exact ih (h.after attempt)

/-- A preparation that starts in time does not look at the phase that it starts
in. -/
theorem prepare_on_of_le {phase : Phase} (hphase : phase ≤ .loadMonitor)
    (hc : c.phase ≤ .loadMonitor) :
    (prepare decoder registry payload).on { c with phase := phase } =
      (prepare decoder registry payload).on c := by
  refine Firmware.ext_of_path fun steps ended hpath => ?_
  obtain ⟨result, t⟩ := ended
  rcases path_enter_bind_iff.1
    (show (prepare decoder registry payload).Path _ steps result t from hpath)
    with ⟨-, rest, rfl, hrest⟩ | ⟨hnle, -, -, -⟩
  · exact path_enter_bind_of_le hc hrest
  · exact absurd hphase hnle

/-- A preparation that starts too late asks nothing. -/
theorem prepare_on_of_not_le (hphase : ¬c.phase ≤ .loadMonitor) :
    (prepare decoder registry payload).on c = pure (.error (.halt .assertionFailed), c) := by
  refine Firmware.ext_of_path fun steps ended hpath => ?_
  obtain ⟨result, t⟩ := ended
  rcases path_enter_bind_iff.1
    (show (prepare decoder registry payload).Path c steps result t from hpath)
    with ⟨hle, -⟩ | ⟨-, rfl, rfl, rfl⟩
  · exact absurd hle hphase
  · exact Firmware.path_pure_iff.2 ⟨rfl, rfl⟩

/-- **What holds of every sequence of attempts,** on any platforms, with any
registries and payloads and with any addition of the board.  The phase never
goes back.  As long as it is not behind loading the secure monitor, the handoff
is as it began but for the phase, and the next attempt is the same program as
the first: it asks the same, ends in the same way and leaves the same; a fresh
handoff with its structures elsewhere does the same on the same answers, up to
where it cleans them and what addresses they have, unless code of the board's
own looks at the parameters, which hold these addresses.  Once the phase is
behind loading the secure monitor, the next attempt asks nothing, halts over a
failed assertion and changes nothing. -/
theorem attempts_in_order (decoder : KeyStore.Decoder) (config : BootConfig)
    (places : Places) (extension : Extension) (attempts : List Attempt) :
    let start := Context.new config places extension
    let c := attempts.foldl (Context.after decoder) start
    (∀ more : List Attempt, c.phase ≤ (more.foldl (Context.after decoder) c).phase) ∧
    (c.phase ≤ .loadMonitor →
      c = { start with phase := c.phase } ∧
      ∀ registry payload,
        (prepare decoder registry payload).on c = (prepare decoder registry payload).on start ∧
        (extension ≠ .custom → ∀ elsewhere steps result t,
          (prepare decoder registry payload).Path c steps result t →
          ∃ steps' result' t',
            (prepare decoder registry payload).Path (.new config elsewhere extension) steps'
              result' t' ∧
            Relocates elsewhere t t' steps steps' result result')) ∧
    (¬c.phase ≤ .loadMonitor → ∀ registry payload,
      (prepare decoder registry payload).on c = pure (.error (.halt .assertionFailed), c)) := by
  intro start c
  have hstart : start.phase ≤ .loadMonitor := show Phase.init ≤ .loadMonitor by decide
  have huntouched : Untouched start c := untouched_foldl_after (fun _ => rfl) attempts
  refine ⟨fun more => c.phase_le_foldl_after more, fun hphase => ?_,
    fun hphase registry payload => prepare_on_of_not_le hphase⟩
  have hc : c = { start with phase := c.phase } := huntouched hphase
  have hsame : ∀ registry payload,
      (prepare decoder registry payload).on c = (prepare decoder registry payload).on start := by
    intro registry payload
    rw [hc]
    exact prepare_on_of_le hphase hstart
  refine ⟨hc, fun registry payload => ⟨hsame registry payload, ?_⟩⟩
  intro hcustom elsewhere steps result t hpath
  have hpath' : (prepare decoder registry payload).Path start steps result t := by
    unfold Action.Path at hpath ⊢
    rwa [hsame] at hpath
  obtain ⟨steps', result', t', hcourse, hrelocates⟩ :=
    (course_of_path hcustom hpath').relocate elsewhere
  exact ⟨steps', result', t', hcourse.path hcustom, hrelocates⟩

/-- A handoff on a bench without a secure monitor may be tried again on one that
has it, and is then prepared as if for the first time. -/
theorem attempts_in_order_on_bench :
    let config := Rig.config false
    let start := Context.onBench config (.tlk 0x4000 .zero)
    let failed : Attempt := ⟨Rig, Rig.machine, Rig.standard, .unavailable, .onBench⟩
    let c := start.after KeyStore.decodeOver failed
    let again := prepare KeyStore.decodeOver .unavailable .onBench
    c.phase = .loadMonitor ∧ again.on c = again.on start ∧
    ((again.on c).run Rig.machine Rig.stocked).value.1 = .ok ⟨0x40000000, 0x1000, 0⟩ := by
  intro config start failed c again
  have hphase : c.phase = .loadMonitor := by
    unfold c failed start config
    rfl
  have hearly : c.phase ≤ .loadMonitor := by
    rw [hphase]
    exact Phase.le_refl _
  obtain ⟨-, hretry, -⟩ := attempts_in_order KeyStore.decodeOver config
    ⟨0x1000, 0x2000, 0x3000⟩ (.tlk 0x4000 .zero) [failed]
  have hsame : again.on c = again.on start := ((hretry hearly).2 .unavailable .onBench).1
  refine ⟨hphase, hsame, ?_⟩
  rw [hsame]
  unfold again start config
  rfl

end Handoff
end BootHandoff
