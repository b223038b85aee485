/-
# Where the structures lie makes no other difference

A handoff tells nobody but the secure monitor where its structures are.  The
same handoff with its structures elsewhere takes the same course on the same
answers, up to the last steps, in which the structures are cleaned: they are
cleaned at their own addresses, and the parameters point at them there
(`Context.movedTo`).
-/

import BootHandoff.Proofs.Handoff.Completeness

namespace BootHandoff
namespace Handoff

open Abi Board Platform SecureOs Verified

variable {decoder : KeyStore.Decoder} {registry : Registry} {payload : Payload} {c t : Context}
  {steps : List Step}

namespace Context

/-- The same state, its structures elsewhere, before they point at each
other. -/
def placedAt (c : Context) (elsewhere : Places) : Context := { c with places := elsewhere }

/-- A prepared handoff with its structures elsewhere: the parameters point at
the entry points there. -/
def movedTo (c : Context) (elsewhere : Places) : Context :=
  { c.placedAt elsewhere with
    monitorParams.secureOsEntry := if c.config.secureOs.isSome then elsewhere.secureOsEntry
      else c.monitorParams.secureOsEntry
    monitorParams.payloadEntry := elsewhere.payloadEntry }

/-- The structures that a prepared handoff cleans last. -/
def structures (c : Context) : List Block :=
  (if c.config.secureOs.isSome then [c.secureOsBlock] else []) ++ [c.paramsBlock, c.payloadBlock]

theorem structures_of_none (h : c.config.secureOs = none) :
    c.structures = [c.paramsBlock, c.payloadBlock] := by
  unfold structures
  rw [h]
  rfl

theorem structures_of_some {secureOs : SecureOsConfig} (h : c.config.secureOs = some secureOs) :
    c.structures = [c.secureOsBlock, c.paramsBlock, c.payloadBlock] := by
  unfold structures
  rw [h]
  rfl

theorem movedTo_of_none (h : c.config.secureOs = none) (payload : Payload) (elsewhere : Places) :
    (c.assembling.prepared payload).movedTo elsewhere =
      (c.placedAt elsewhere).assembling.prepared payload := by
  unfold movedTo
  rw [show (c.assembling.prepared payload).config.secureOs = none from h]
  rfl

theorem movedTo_of_some {secureOs : SecureOsConfig} (h : c.config.secureOs = some secureOs)
    (payload : Payload) (elsewhere : Places) :
    (c.described.prepared payload).movedTo elsewhere =
      (c.placedAt elsewhere).described.prepared payload := by
  unfold movedTo
  rw [show (c.described.prepared payload).config.secureOs = some secureOs from h]
  rfl

end Context

/-- The jump of a handoff with its structures elsewhere. -/
def Jump.movedTo (jump : Jump) (elsewhere : Places) : Jump :=
  { jump with params := elsewhere.monitorParams }

/-- How two preparations on the same answers compare, the second of which has
its structures elsewhere: if they end early, they did the same, and if not, the
same up to cleaning the structures, which are the same up to their addresses. -/
inductive Relocates (elsewhere : Places) (t t' : Context) (steps steps' : List Step) :
    Except (Stop BootError) Jump → Except (Stop BootError) Jump → Prop where
  | ended (stop : Stop BootError) (hsteps : steps' = steps) (ht : t' = t.placedAt elsewhere) :
      Relocates elsewhere t t' steps steps' (.error stop) (.error stop)
  | ready (jump : Jump) (shared : List Step) (hsteps : steps = shared ++ t.structures.map cleaned)
      (hsteps' : steps' = shared ++ t'.structures.map cleaned) (ht : t' = t.movedTo elsewhere) :
      Relocates elsewhere t t' steps steps' (.ok jump) (.ok (jump.movedTo elsewhere))

theorem Adjusts.placedAt {result : Except (Stop BootError) Unit}
    (h : Adjusts decoder c steps result t) (elsewhere : Places) :
    Adjusts decoder (c.placedAt elsewhere) steps result (t.placedAt elsewhere) := by
  cases h with
  | plain hextension => exact .plain hextension
  | filled hextension hfill => exact .filled hextension hfill

/-- **A course can be taken with the structures anywhere.** -/
theorem Course.relocate {result : Except (Stop BootError) Jump}
    (h : Course decoder registry payload c steps result t) (elsewhere : Places) :
    ∃ steps' result' t', Course decoder registry payload (c.placedAt elsewhere) steps' result' t' ∧
      Relocates elsewhere t t' steps steps' result result' := by
  cases h with
  | late hphase => exact ⟨_, _, _, .late hphase, .ended _ rfl rfl⟩
  | noMonitor hphase hmonitor => exact ⟨_, _, _, .noMonitor hphase hmonitor, .ended _ rfl rfl⟩
  | noSecureOs hphase hmonitor hsecureOs hload =>
    exact ⟨_, _, _, .noSecureOs hphase hmonitor hsecureOs hload, .ended _ rfl rfl⟩
  | notAdjusted hphase hmonitor hsecureOs hload hadjust =>
    exact ⟨_, _, _, .notAdjusted hphase hmonitor hsecureOs hload (hadjust.placedAt elsewhere),
      .ended _ rfl rfl⟩
  | alone hphase hmonitor hsecureOs ht =>
    rename_i forMonitor monitor
    have hblocks : t.structures = [t.paramsBlock, t.payloadBlock] :=
      Context.structures_of_none (by rw [ht]; exact hsecureOs)
    have hblocks' : (t.movedTo elsewhere).structures =
        [(t.movedTo elsewhere).paramsBlock, (t.movedTo elsewhere).payloadBlock] :=
      Context.structures_of_none (by rw [ht]; exact hsecureOs)
    have ht' : t.movedTo elsewhere = (c.placedAt elsewhere).assembling.prepared payload := by
      rw [ht, Context.movedTo_of_none hsecureOs]
    refine ⟨_, _, t.movedTo elsewhere, .alone hphase hmonitor hsecureOs ht', ?_⟩
    refine .ready ⟨monitor.entry, c.places.monitorParams, 0⟩ (entered .loadMonitor ::
      (forMonitor ++ [entered .assembleParams, entered .flushCache])) ?_ ?_ rfl
    · rw [hblocks]
      simp only [List.map_cons, List.map_nil, List.cons_append, List.append_assoc, List.nil_append]
    · rw [hblocks']
      simp only [List.map_cons, List.map_nil, List.cons_append, List.append_assoc, List.nil_append]
  | complete hphase hmonitor hsecureOs hload hadjust ht =>
    rename_i forMonitor forSecureOs adjusting monitor secureOs pc u
    have hsome : u.config.secureOs = some secureOs := by
      rw [hadjust.keeps.1]
      exact hsecureOs
    have hblocks : t.structures = [t.secureOsBlock, t.paramsBlock, t.payloadBlock] :=
      Context.structures_of_some (by rw [ht]; exact hsome)
    have hblocks' : (t.movedTo elsewhere).structures = [(t.movedTo elsewhere).secureOsBlock,
        (t.movedTo elsewhere).paramsBlock, (t.movedTo elsewhere).payloadBlock] :=
      Context.structures_of_some (by rw [ht]; exact hsome)
    have ht' : t.movedTo elsewhere = (u.placedAt elsewhere).described.prepared payload := by
      rw [ht, Context.movedTo_of_some hsome]
    refine ⟨_, _, t.movedTo elsewhere,
      .complete hphase hmonitor hsecureOs hload (hadjust.placedAt elsewhere) ht', ?_⟩
    refine .ready ⟨monitor.entry, c.places.monitorParams, 0⟩ (entered .loadMonitor ::
      (forMonitor ++ entered .loadSecureOs :: (forSecureOs ++ entered .assembleParams ::
        (adjusting ++ [entered .flushCache])))) ?_ ?_ rfl
    · rw [hblocks]
      simp only [List.map_cons, List.map_nil, List.cons_append, List.append_assoc, List.nil_append]
    · rw [hblocks']
      simp only [List.map_cons, List.map_nil, List.cons_append, List.append_assoc, List.nil_append]

end Handoff
end BootHandoff
