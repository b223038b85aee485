/-
# Requests for recovery, one after another

A reason is stored in three moves: the block is read, the reason and then the check
are set, and the block is saved.  Whatever the block was before, also if its check was
wrong, it is then `Resealed`: it has the reason and the check of its bytes, and its
other bytes are what they were.

Resealing a block twice is resealing it once with the later reason (`Resealed.trans`),
so after any number of calls the stored block is the one from before the calls,
resealed with the last reason that was saved, whatever the earlier ones were.
-/

import BootHandoff.Bench.Device
import BootHandoff.Proofs.Platform.Trace
import BootHandoff.Recovery.Request

namespace BootHandoff
namespace Platform

/-- The saves of the non-volatile block. -/
def Query.saved? : Query → Option (Buffer 16)
  | .saveNonVolatile block => some block
  | _ => none

/-- The platform has a non-volatile block, which is `held` in each of its states: it
reads back what was last saved, and nothing else changes it. -/
structure Machine.KeepsBlock {σ : Type} (m : Machine σ) (held : σ → Buffer 16) : Prop where
  read : ∀ u, (m.respond .readNonVolatile u).1 = held u
  after : ∀ q u, held (m.respond q u).2 = q.saved?.getD (held u)

end Platform
namespace Recovery

open Platform

namespace NvBlock

/-- The block `after` is the block `before` with this reason and the check of its bytes,
and with nothing else changed. -/
structure Resealed (before : NvBlock) (reason : UInt8) (after : NvBlock) : Prop where
  reason_eq : after.get 2 = reason
  check_eq : after.get 15 = crc after
  rest_eq : ∀ i, i ≠ 2 → i ≠ 15 → after.get i = before.get i

variable {b c d : NvBlock} {reason reason' : UInt8}

/-- The check does not depend on the byte that holds it. -/
theorem crc_set_check (b : NvBlock) (v : UInt8) : crc (Buffer.set b 15 v) = crc b :=
  congrArg Crc8.smbus.checksum (List.take_set_of_le (Nat.le_refl 15))

theorem resealed_withReason (b : NvBlock) (reason : UInt8) :
    Resealed b reason (b.withReason reason) where
  reason_eq := by
    rw [withReason, sealed, Buffer.get_set_of_ne _ (by decide), Buffer.get_set_self]
  check_eq := by
    rw [withReason, sealed, Buffer.get_set_self, crc_set_check]
  rest_eq i hreason hcheck := by
    rw [withReason, sealed, Buffer.get_set_of_ne _ hcheck.symm, Buffer.get_set_of_ne _ hreason.symm]

theorem Resealed.isValid (h : Resealed b reason c) : c.isValid = true := beq_iff_eq.2 h.check_eq

/-- **Only the later of two reasons is left.** -/
theorem Resealed.trans (h : Resealed b reason c) (h' : Resealed c reason' d) :
    Resealed b reason' d where
  reason_eq := h'.reason_eq
  check_eq := h'.check_eq
  rest_eq i hreason hcheck := (h'.rest_eq i hreason hcheck).trans (h.rest_eq i hreason hcheck)

/-- The block after these reasons were stored one after another. -/
def ResealedBy (before : NvBlock) (reasons : List UInt8) (after : NvBlock) : Prop :=
  match reasons.getLast? with
  | none => after = before
  | some reason => Resealed before reason after

theorem ResealedBy.append {first rest : List UInt8} (h : ResealedBy b first c)
    (h' : ResealedBy c rest d) : ResealedBy b (first ++ rest) d := by
  unfold ResealedBy at *
  rw [List.getLast?_append]
  cases hrest : rest.getLast? with
  | none =>
    rw [hrest] at h'
    obtain rfl := h'
    exact h
  | some reason' =>
    rw [hrest] at h'
    cases hfirst : first.getLast? with
    | none =>
      rw [hfirst] at h
      obtain rfl := h
      exact h'
    | some reason =>
      rw [hfirst] at h
      exact h.trans h'

end NvBlock

/-- A call that may store a reason. -/
inductive Call where
  | store (reason : UInt8)
  | request (reason : UInt8) (controllerReadOnly : Bool)
  deriving DecidableEq, Repr

/-- What a call does, and what a request answers. -/
def Call.perform : Call → Firmware (Option Bool)
  | .store reason => do
    Recovery.store reason
    return none
  | .request reason controllerReadOnly => do
    return some (← Recovery.request reason controllerReadOnly)

/-- The reason that a call has to save: that of a request only if there is one and the
embedded controller does not run its read-only image. -/
def Call.reason? : Call → Option UInt8
  | .store reason => some reason
  | .request reason controllerReadOnly =>
    if reason ≠ 0 ∧ controllerReadOnly = false then some reason else none

section

variable {reason : UInt8} {controllerReadOnly : Bool}

/-- A request for which there is something to save logs it and saves it. -/
theorem request_of_due (h : reason ≠ 0 ∧ controllerReadOnly = false) :
    request reason controllerReadOnly = do
      Firmware.log .info s!"saving recovery reason {Text.hexPadded 2 reason.toNat}"
      store reason
      return true := by
  obtain ⟨hreason, rfl⟩ := h
  exact if_neg fun hskip => hskip.elim hreason Bool.false_ne_true

/-- Any other request is over at once. -/
theorem request_of_not_due (h : ¬(reason ≠ 0 ∧ controllerReadOnly = false)) :
    request reason controllerReadOnly = pure false := by
  refine if_pos ?_
  by_cases hreason : reason = 0
  · exact .inl hreason
  · exact .inr (eq_true_of_ne_false fun hfalse => h ⟨hreason, hfalse⟩)

end

section

variable {σ α β : Type} {m : Machine σ} {held : σ → NvBlock} {u : σ}

/-- From a state of the platform on, a program stores these reasons one after another:
all it saves is valid blocks with these reasons, and it leaves the block resealed with
the last of them. -/
structure StoresReasons (m : Machine σ) (held : σ → NvBlock) (u : σ) (x : Firmware α)
    (reasons : List UInt8) : Prop where
  valid : ∀ block ∈ seen Query.saved? (x.run m u).steps, NvBlock.isValid block = true
  reasons_eq : (seen Query.saved? (x.run m u).steps).map (·.get 2) = reasons
  resealed : (held u).ResealedBy reasons (held (x.run m u).state)

namespace StoresReasons

theorem pure (a : α) : StoresReasons m held u (Pure.pure a) [] :=
  ⟨List.forall_mem_nil _, rfl, rfl⟩

theorem bind {x : Firmware α} {f : α → Firmware β} {first rest : List UInt8}
    (hx : StoresReasons m held u x first)
    (hf : StoresReasons m held (x.run m u).state (f (x.run m u).value) rest) :
    StoresReasons m held u (x >>= f) (first ++ rest) where
  valid := by
    rw [Firmware.run_bind, seen_append, List.forall_mem_append]
    exact ⟨hx.valid, hf.valid⟩
  reasons_eq := by
    rw [Firmware.run_bind, seen_append, List.map_append, hx.reasons_eq, hf.reasons_eq]
  resealed := by
    rw [Firmware.run_bind]
    exact hx.resealed.append hf.resealed

theorem log (hkeeps : m.KeepsBlock held) (level : Level) (text : String) :
    StoresReasons m held u (Firmware.log level text) [] :=
  ⟨List.forall_mem_nil _, rfl, hkeeps.after (.log level text) u⟩

/-- Storing a reason saves the block resealed with it. -/
theorem store (hkeeps : m.KeepsBlock held) (reason : UInt8) :
    StoresReasons m held u (Recovery.store reason) [reason] := by
  have hread : (m.respond .readNonVolatile u).1 = held u := hkeeps.read u
  have hresealed := NvBlock.resealed_withReason (held u) reason
  have hsaved : seen Query.saved? ((Recovery.store reason).run m u).steps =
      [(held u).withReason reason] := by
    rw [← hread]
    rfl
  have hheld : held ((Recovery.store reason).run m u).state = (held u).withReason reason := by
    rw [← hread]
    exact hkeeps.after (.saveNonVolatile _) _
  refine ⟨?_, ?_, ?_⟩
  · rw [hsaved, List.forall_mem_singleton]
    exact hresealed.isValid
  · rw [hsaved, List.map_singleton, hresealed.reason_eq]
  · rw [hheld]
    exact hresealed

/-- A request stores its reason if it is due. -/
theorem request (hkeeps : m.KeepsBlock held) (reason : UInt8) (controllerReadOnly : Bool) :
    StoresReasons m held u (Recovery.request reason controllerReadOnly)
      (if reason ≠ 0 ∧ controllerReadOnly = false then [reason] else []) := by
  split
  · rename_i hdue
    rw [request_of_due hdue]
    have hstored : ∀ v, StoresReasons m held v (do Recovery.store reason; return true)
        ([reason] ++ []) := fun v => (store hkeeps reason).bind (pure true)
    exact (log hkeeps _ _).bind (hstored _)
  · rename_i hdue
    rw [request_of_not_due hdue]
    exact pure false

/-- Each call stores the reason that it has to save. -/
theorem perform (hkeeps : m.KeepsBlock held) (call : Call) :
    StoresReasons m held u call.perform call.reason?.toList := by
  have hreasons : call.reason?.toList = call.reason?.toList ++ [] := (List.append_nil _).symm
  rw [hreasons]
  cases call with
  | store reason => exact (store hkeeps reason).bind (pure _)
  | request reason controllerReadOnly =>
    have hreason? : (Call.request reason controllerReadOnly).reason?.toList =
        if reason ≠ 0 ∧ controllerReadOnly = false then [reason] else [] := by
      show (if _ then some reason else none).toList = _
      split <;> rfl
    rw [hreason?]
    exact (request hkeeps reason controllerReadOnly).bind (pure _)

/-- Calls one after another store their reasons one after another. -/
theorem mapM_perform (hkeeps : m.KeepsBlock held) (u : σ) (calls : List Call) :
    StoresReasons m held u (calls.mapM Call.perform) (calls.filterMap Call.reason?) := by
  induction calls generalizing u with
  | nil => exact pure []
  | cons call calls ih =>
    have hreasons : (call :: calls).filterMap Call.reason? =
        call.reason?.toList ++ (calls.filterMap Call.reason? ++ []) := by
      rw [List.filterMap_cons, List.append_nil]
      cases call.reason? <;> rfl
    rw [List.mapM_cons, hreasons]
    exact (perform hkeeps call).bind ((ih _).bind (pure _))

end StoresReasons

/-- **A request stores what it has to and says so.**  It does nothing at all for no
reason, or while the embedded controller runs its read-only image. -/
theorem run_request (m : Machine σ) (u : σ) (reason : UInt8) (controllerReadOnly : Bool) :
    let r := (request reason controllerReadOnly).run m u
    if reason ≠ 0 ∧ controllerReadOnly = false then
      r.value = true ∧ (seen Query.saved? r.steps).length = 1
    else r.value = false ∧ r.steps = [] := by
  intro r
  unfold r
  split
  · rename_i hdue
    rw [request_of_due hdue]
    exact ⟨rfl, rfl⟩
  · rename_i hdue
    rw [request_of_not_due hdue]
    exact ⟨rfl, rfl⟩

/-- **The stored block after any calls.**  On a platform with a non-volatile block,
whatever the block is at first, every block that is ever saved is valid, and what is
saved are the reasons of the calls that have one to save, in their order.  Without any,
the block stays as it is.  Else it ends with the last of them, with the check of its
bytes, and with all other bytes as they were at first.  A request answers whether it
saves, which it does once if there is a reason and the embedded controller does not run
its read-only image; otherwise it asks nothing of the platform. -/
theorem block_after_calls {m : Machine σ} {held : σ → NvBlock} (hkeeps : m.KeepsBlock held)
    (u : σ) (calls : List Call) :
    let r := (calls.mapM Call.perform).run m u
    let saved : List NvBlock := seen Query.saved? r.steps
    (∀ block ∈ saved, block.isValid = true) ∧
    saved.map (·.get 2) = calls.filterMap Call.reason? ∧
    (match (calls.filterMap Call.reason?).getLast? with
      | none => held r.state = held u
      | some reason => (held r.state).get 2 = reason ∧
        (held r.state).get 15 = NvBlock.crc (held r.state) ∧
        ∀ i, i ≠ 2 → i ≠ 15 → (held r.state).get i = (held u).get i) ∧
    ∀ (v : σ) (reason : UInt8) (controllerReadOnly : Bool),
      let r := (request reason controllerReadOnly).run m v
      (r.value = true ∧ (seen Query.saved? r.steps).length = 1 ↔
        reason ≠ 0 ∧ controllerReadOnly = false) ∧
      (¬(reason ≠ 0 ∧ controllerReadOnly = false) → r.value = false ∧ r.steps = []) := by
  intro r saved
  have hstores := StoresReasons.mapM_perform hkeeps u calls
  refine ⟨hstores.valid, hstores.reasons_eq, ?_, fun v reason controllerReadOnly => ?_⟩
  · have hresealed : (held u).ResealedBy _ (held r.state) := hstores.resealed
    unfold NvBlock.ResealedBy at hresealed
    split
    · rename_i hnone
      rwa [hnone] at hresealed
    · rename_i reason hsome
      rw [hsome] at hresealed
      exact ⟨hresealed.reason_eq, hresealed.check_eq, hresealed.rest_eq⟩
  · have hrequest := run_request m v reason controllerReadOnly
    intro r
    split at hrequest
    · rename_i hsaves
      exact ⟨iff_of_true hrequest hsaves, fun hskips => absurd hsaves hskips⟩
    · rename_i hskips
      refine ⟨iff_of_false ?_ hskips, fun _ => hrequest⟩
      rintro ⟨htrue, -⟩
      exact Bool.false_ne_true (hrequest.1.symm.trans htrue)

/-- The hypothesis is satisfiable: a block with a wrong check, and four calls of which
the second and the last save something. -/
theorem block_after_calls_on_bench :
    let b : NvBlock := Buffer.fill 16 0xaa
    let calls : List Call := [.request 0 false, .store 1, .request 0x42 true, .request 0x23 false]
    let r := (calls.mapM Call.perform).run Bench.nonVolatile b
    Bench.nonVolatile.KeepsBlock id ∧ b.isValid = false ∧
      (seen Query.saved? r.steps).map (·.get 2) = [1, 0x23] ∧
      Buffer.get r.state 2 = 0x23 ∧ Buffer.get r.state 5 = 0xaa := by
  intro b calls r
  have hkeeps : Bench.nonVolatile.KeepsBlock id := by
    refine ⟨fun _ => rfl, fun q u => ?_⟩
    cases q <;> rfl
  obtain ⟨-, hreasons, ⟨hreason, -, hrest⟩, -⟩ := block_after_calls hkeeps b calls
  exact ⟨hkeeps, by decide +kernel, hreasons, hreason, hrest 5 (by decide) (by decide)⟩

end

end Recovery
end BootHandoff
