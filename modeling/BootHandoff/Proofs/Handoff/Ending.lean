/-
# How a handoff ends

What comes behind the preparation depends on its end alone: a jump, a message
and a stop, or nothing at all.  `path_run` puts the two together, so that
statements about a whole handoff are proved by cases on its course and its end.
-/

import BootHandoff.Handoff.Run
import BootHandoff.Proofs.Handoff.Course

namespace BootHandoff
namespace Handoff

open Platform Verified

variable {decoder : KeyStore.Decoder} {registry : Registry} {payload : Payload} {c t : Context}
  {steps : List Step}

/-- What a handoff does behind its preparation, and how it ends. -/
inductive Ends (u : Context) :
    Except (Stop BootError) Jump → List Step → Halt → Context → Prop where
  | returned (jump : Jump) :
      Ends u (.ok jump)
        [entered .disableMmu, ⟨.disableMmu, ()⟩, entered .transferControl,
          ⟨.enterMonitor jump.entry jump.params jump.platformParams u.memory, ()⟩,
          logged .error "BL31 returned!"]
        (.died "BL31 returned!") { u with phase := .transferControl }
  | failed (e : BootError) :
      Ends u (.error (.error e))
        [logged .error s!"handoff failed in {u.phase.name}: {e.message}"]
        (.died s!"handoff failed in {u.phase.name}: {e.message}") u
  | halted (h : Halt) : Ends u (.error (.halt h)) [] h u

theorem Ends.of_error {u : Context} {e : BootError} {rest : List Step} {halt : Halt}
    (h : Ends u (.error (.error e)) rest halt t) :
    rest = [logged .error s!"handoff failed in {u.phase.name}: {e.message}"] ∧
    halt = .died s!"handoff failed in {u.phase.name}: {e.message}" ∧ t = u := by
  cases h
  exact ⟨rfl, rfl, rfl⟩

theorem path_die {text : String} {halt : Halt} (h : (die text).Path steps halt) :
    steps = [logged .error text] ∧ halt = .died text := by
  obtain ⟨⟨⟩, last, rfl, hend⟩ := (Firmware.path_ask_iff (q := .log _ _)).1 h
  obtain ⟨rfl, rfl⟩ := Firmware.path_pure_iff.1 hend
  exact ⟨rfl, rfl⟩

/-- Giving up leaves the handoff as it is. -/
theorem path_lift_die {text : String} {halt : Halt}
    (h : Firmware.Path ((liftM (die text) : StateT Context Firmware Halt).run c) steps (halt, t)) :
    steps = [logged .error text] ∧ halt = .died text ∧ t = c := by
  obtain ⟨first, rest, halt', rfl, hdie, hend⟩ := Firmware.path_bind_iff.1 h
  obtain ⟨rfl, rfl⟩ := path_die hdie
  obtain ⟨rfl, hpair⟩ := Firmware.path_pure_iff.1 hend
  obtain ⟨rfl, rfl⟩ := Prod.mk.inj hpair
  exact ⟨rfl, rfl, rfl⟩

/-- The jump of a handoff that has written out the cache. -/
theorem path_transfer {jump : Jump} {result : Except (Stop BootError) Unit}
    (hphase : c.phase = .flushCache) (h : (transfer jump).Path c steps result t) :
    steps = [entered .disableMmu, ⟨.disableMmu, ()⟩, entered .transferControl,
      ⟨.enterMonitor jump.entry jump.params jump.platformParams c.memory, ()⟩] ∧
    result = .ok () ∧ t = { c with phase := .transferControl } := by
  rcases path_enter_bind_iff.1 h with ⟨-, rest, rfl, hmmu⟩ | ⟨hnle, -, -, -⟩
  · obtain ⟨⟨⟩, rest, rfl, henter⟩ := (Action.path_query_bind_iff (q := .disableMmu)).1 hmmu
    rcases path_enter_bind_iff.1 henter with ⟨-, rest, rfl, hget⟩ | ⟨hnle, -, -, -⟩
    · replace hget := Action.path_get_bind_iff.1 hget
      obtain ⟨⟨⟩, rfl, rfl, rfl⟩ := (Action.path_query_iff (q := .enterMonitor _ _ _ _)).1 hget
      exact ⟨rfl, rfl, rfl⟩
    · exact absurd (show Phase.disableMmu ≤ .transferControl by decide) hnle
  · exact absurd (show c.phase ≤ .disableMmu by rw [hphase]; decide) hnle

/-- A preparation that succeeds has come to writing out the cache. -/
theorem Course.phase_eq {jump : Jump} (h : Course decoder registry payload c steps (.ok jump) t) :
    t.phase = .flushCache := by
  cases h with
  | alone hphase hmonitor hnone ht => rw [ht]; rfl
  | complete hphase hmonitor hsome hload hadjust ht => rw [ht]; rfl

/-- What a handoff does last, once there is nothing left but to stop. -/
def report : Except (Stop BootError) Unit → StateT Context Firmware Halt
  | .ok () => die "BL31 returned!"
  | .error (.error e) => do die s!"handoff failed in {(← get).phase.name}: {e.message}"
  | .error (.halt h) => return h

/-- What a handoff does behind its preparation. -/
def conclude : Except (Stop BootError) Jump → StateT Context Firmware Halt
  | .ok jump => (transfer jump : Action Context BootError Unit).run >>= report
  | .error stop => report (.error stop)

/-- **A handoff is a preparation and a conclusion.** -/
theorem run_eq (registry : Registry) (payload : Payload) (c : Context) :
    (run decoder registry payload).run c =
      (prepare decoder registry payload).on c >>= fun p => (conclude p.1).run p.2 := by
  show ((prepare decoder registry payload).on c >>= _) >>= _ = _
  rw [bind_assoc]
  refine congrArg _ (funext fun p => ?_)
  obtain ⟨result, u⟩ := p
  cases result <;> rfl

/-- The conclusion of a preparation that, if it succeeded, wrote out the
cache. -/
theorem path_conclude {result : Except (Stop BootError) Jump} {halt : Halt}
    (hphase : ∀ jump, result = .ok jump → c.phase = .flushCache)
    (h : Firmware.Path ((conclude result).run c) steps (halt, t)) :
    Ends c result steps halt t := by
  rcases result with (e | h) | jump
  · obtain ⟨rfl, rfl, rfl⟩ := path_lift_die h
    exact .failed e
  · obtain ⟨rfl, hpair⟩ := Firmware.path_pure_iff.1 h
    obtain ⟨rfl, rfl⟩ := Prod.mk.inj hpair
    exact .halted _
  · obtain ⟨first, rest, ⟨ending, u⟩, rfl, hjump, hend⟩ := Firmware.path_bind_iff.1 h
    obtain ⟨rfl, rfl, rfl⟩ := path_transfer (hphase jump rfl) hjump
    obtain ⟨rfl, rfl, rfl⟩ := path_lift_die hend
    exact .returned jump

theorem Course.phase_eq_of_ok {result : Except (Stop BootError) Jump}
    (h : Course decoder registry payload c steps result t) (jump : Jump)
    (hjump : result = .ok jump) : t.phase = .flushCache :=
  (hjump ▸ h).phase_eq

/-- **Every path of a handoff is a course and an end.** -/
theorem path_run {halt : Halt} (hcustom : c.extension ≠ .custom)
    (h : Firmware.Path ((run decoder registry payload).run c) steps (halt, t)) :
    ∃ preparing result u rest, Course decoder registry payload c preparing result u ∧
      steps = preparing ++ rest ∧ Ends u result rest halt t := by
  rw [run_eq] at h
  obtain ⟨preparing, rest, ⟨result, u⟩, rfl, hprepare, hend⟩ := Firmware.path_bind_iff.1 h
  have hcourse := course_of_path hcustom hprepare
  exact ⟨preparing, result, u, rest, hcourse, rfl, path_conclude hcourse.phase_eq_of_ok hend⟩

/-- **A handoff on a platform** is the preparation there, and the end that its
result leads to. -/
theorem run_ends {σ : Type} (m : Machine σ) (s : σ) (registry : Registry) (payload : Payload)
    (hcustom : c.extension ≠ .custom) :
    let p := ((prepare decoder registry payload).on c).run m s
    let r := ((run decoder registry payload).run c).run m s
    Course decoder registry payload c p.steps p.value.1 p.value.2 ∧
      ∃ rest, r.steps = p.steps ++ rest ∧ Ends p.value.2 p.value.1 rest r.value.1 r.value.2 := by
  intro p r
  have hcourse := course_of_path hcustom (Action.path_run m (prepare decoder registry payload) c s)
  let q := ((conclude p.value.1).run p.value.2).run m p.state
  have hr : r = ⟨q.value, q.state, p.steps ++ q.steps⟩ := by
    unfold r
    rw [run_eq, Firmware.run_bind]
  refine ⟨hcourse, q.steps, by rw [hr], ?_⟩
  rw [hr]
  exact path_conclude hcourse.phase_eq_of_ok (Firmware.path_run m _ _)

end Handoff
end BootHandoff
