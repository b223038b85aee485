/-
# Whatever training code answers

Training code answers with an address and a size, which are any two words for all that
the rest knows.  The table is copied from the one to a buffer of the caller, who hands
it on through a record with 32 bits for its length, so the size has to be one that a
table can have, that the buffer has room for and that the record does not cut.

`Answered.ok_cases` says what a success needs, and `Answered.unchanged` that nothing
else changes the buffer.  The other lemmas go the way back, from the size to the end.
-/

import BootHandoff.Proofs.Bench.Steady
import BootHandoff.Proofs.Training.Course

namespace BootHandoff
namespace Training

open Bench Board Flash Platform Verified

variable {σ : Type} {config : BootConfig} {registry : Registry} {place source size entry : UInt64}
  {n : Nat} {buf t : Buffer n} {steps before after : List Step}
  {result : Except (Stop Error) Table}

/-- The record of a table keeps its size, and is as large as it says. -/
theorem Table.length_record {table : Table} (h : table.size.toNat ≤ maxTableSize) :
    table.record.length.toNat = table.size.toNat := by
  have hmax : maxTableSize < 2 ^ 32 := by decide
  exact (UInt64.toNat_toUInt32 table.size).trans (Nat.mod_eq_of_lt (Nat.lt_of_le_of_lt h hmax))

/-- **A table that is copied** has a checked size, and comes from the address in the answer. -/
theorem Answered.ok_cases {table : Table}
    (h : Answered place source size buf steps (.ok table) t) :
    table = ⟨place, size⟩ ∧ 0 < size.toNat ∧ size.toNat ≤ maxTableSize ∧ size.toNat ≤ n ∧
      ∃ held text text', steps = [logged .info text, ⟨.window source size, .ok held⟩,
        logged .info text'] ∧ held.length = size.toNat ∧ t = buf.overwrite held := by
  cases h with
  | valid hpos hmax text hkept =>
    cases hkept with
    | complete hroom hlength text' =>
      exact ⟨rfl, hpos, hmax, hroom, _, text, text', rfl, hlength, rfl⟩

/-- Every other answer leaves the buffer as it was. -/
theorem Answered.unchanged (h : Answered place source size buf steps result t)
    (hfails : ∀ table, result ≠ .ok table) : t = buf := by
  cases h with
  | invalid hsize text => rfl
  | valid hpos hmax text hkept =>
    cases hkept with
    | complete => exact absurd rfl (hfails _)
    | _ => rfl

theorem Answered.of_invalid (h : Answered place source size buf steps result t)
    (hsize : size.toNat = 0 ∨ maxTableSize < size.toNat) :
    result = .error (.error (.invalidTableSize size)) ∧ seen Query.window? steps = [] := by
  cases h with
  | invalid => exact ⟨rfl, rfl⟩
  | valid => omega

theorem Answered.of_noRoom (h : Answered place source size buf steps result t)
    (hpos : 0 < size.toNat) (hmax : size.toNat ≤ maxTableSize) (hlarge : n < size.toNat) :
    result = .error (.error (.noRoom size)) ∧ seen Query.window? steps = [] := by
  cases h with
  | invalid => omega
  | valid _ _ text hkept =>
    cases hkept with
    | noRoom => exact ⟨rfl, rfl⟩
    | _ => omega

/-- A size that a table can have and that there is room for: memory decides. -/
theorem Answered.of_room (h : Answered place source size buf steps result t)
    (hpos : 0 < size.toNat) (hmax : size.toNat ≤ maxTableSize) (hroom : size.toNat ≤ n) :
    ∃ text answer last, steps = logged .info text :: ⟨.window source size, answer⟩ :: last ∧
      (∀ held, answer = .ok held → held.length = size.toNat → result = .ok ⟨place, size⟩) ∧
      ∀ e, answer = .error e → result = .error (.error (.driver e)) := by
  cases h with
  | invalid => omega
  | valid _ _ text hkept =>
    refine ⟨text, ?_⟩
    cases hkept with
    | noRoom => omega
    | denied _ e =>
      refine ⟨_, _, rfl, nofun, ?_⟩
      rintro _ ⟨⟩
      rfl
    | mismatch _ hlength =>
      refine ⟨_, _, rfl, ?_, nofun⟩
      rintro _ ⟨⟩ heq
      exact absurd heq hlength
    | complete => exact ⟨_, _, rfl, fun _ _ _ => rfl, nofun⟩

/-- What follows from an answer, wherever in a course it is. -/
theorem Course.answered_of_split (h : Course config registry place buf steps result t)
    (hsplit : steps = before ++ ⟨.train entry, (source, size)⟩ :: after) :
    Answered place source size buf after result t := by
  rcases h.cut_of_trains with ⟨hnone, -, -⟩ |
    ⟨code, forImage, region, copying, source', size', rest, -, hlocate, -, hcopied, hsteps,
      hanswered⟩
  · rw [hsplit, seen_append, seen_cons] at hnone
    simp [Query.train?] at hnone
  · have hbefore : seen Query.train? (forImage ++ copying) = [] := by
      rw [seen_append, seen_of_locate hlocate fun _ h => h.train?_eq_none, hcopied.train?]
      rfl
    have hafter : seen Query.train? rest = [] :=
      seen_eq_nil fun step hstep => (hanswered.collects step hstep).train?_eq_none
    rw [hsplit, ← List.append_assoc] at hsteps
    obtain ⟨-, hstep, rfl⟩ := split_unique hsteps.symm hbefore hafter nofun
    obtain ⟨rfl, rfl⟩ : source' = source ∧ size' = size := by
      injection hstep with _ hanswer
      exact Prod.mk.inj hanswer
    exact hanswered

/-- **Whatever training code answers, the caller gets a table or keeps its buffer.**  A run that
succeeds has asked, behind the training code, for the memory at the address and of the size that
the code answered with.  The size is one that a table can have and the buffer has room for, the
buffer starts with what that memory held and is otherwise as it was, and the record for the
payload has the buffer's address and the whole of the size.  However else a run ends, the buffer
is as it was.  A size that no table has, or that the buffer has no room for, is refused as such,
and no memory is asked for; with any other size it is up to the platform whether the memory is
granted, and if it is, the run succeeds. -/
theorem run_checks_answer (m : Machine σ) (u : σ) (config : BootConfig) (registry : Registry)
    (place : UInt64) (buf : Buffer n) :
    let r := ((run config registry place).on buf).run m u
    (∀ table, r.value.1 = .ok table →
      (0 < table.size.toNat ∧ table.size.toNat ≤ 20 * 4880 ∧ table.size.toNat ≤ n) ∧
      (∃ before entry source held text text', r.steps = before ++
          [⟨.train entry, (source, table.size)⟩, logged .info text,
            ⟨.window source table.size, .ok held⟩, logged .info text'] ∧
        held.length = table.size.toNat ∧
        r.value.2.bytes = held ++ buf.bytes.drop table.size.toNat) ∧
      table.record.tag = 0x2b ∧ table.record.size = 24 ∧ table.record.start = place ∧
        table.record.length.toNat = table.size.toNat) ∧
    ((∀ table, r.value.1 ≠ .ok table) → r.value.2 = buf) ∧
    ∀ before entry source size after,
      r.steps = before ++ ⟨.train entry, (source, size)⟩ :: after →
      (size.toNat = 0 ∨ 20 * 4880 < size.toNat →
        r.value.1 = .error (.error (.invalidTableSize size)) ∧ seen Query.window? after = []) ∧
      (0 < size.toNat → size.toNat ≤ 20 * 4880 → n < size.toNat →
        r.value.1 = .error (.error (.noRoom size)) ∧ seen Query.window? after = []) ∧
      (0 < size.toNat → size.toNat ≤ 20 * 4880 → size.toNat ≤ n →
        ∃ text answer last, after = logged .info text :: ⟨.window source size, answer⟩ :: last ∧
          (∀ held, answer = .ok held → held.length = size.toNat →
            r.value.1 = .ok ⟨place, size⟩) ∧
          ∀ e, answer = .error e → r.value.1 = .error (.error (.driver e))) := by
  intro r
  have hcourse := course_of_path (Action.path_run m (run config registry place) buf u)
  refine ⟨fun table htable => ?_, fun hfails => ?_, fun before entry source size after hsplit => ?_⟩
  · rw [show r.value.1 = .ok table from htable] at hcourse
    rcases hcourse.cut_of_trains with ⟨-, ⟨_, ⟨⟩⟩, -⟩ |
      ⟨code, forImage, region, copying, source, size, rest, -, -, -, -, hsteps, hanswered⟩
    obtain ⟨rfl, hpos, hmax, hroom, held, text, text', rfl, hlength, hheld⟩ := hanswered.ok_cases
    refine ⟨⟨hpos, hmax, hroom⟩, ⟨forImage ++ copying, code.loadAddress, source, held, text, text',
      hsteps.trans (List.append_assoc ..).symm, hlength, ?_⟩, rfl, rfl, rfl,
      Table.length_record hmax⟩
    rw [show r.value.2 = buf.overwrite held from hheld,
      Buffer.bytes_overwrite_of_le _ (by omega), hlength]
  · rcases hcourse.cut_of_trains with
      ⟨-, -, hsame⟩ | ⟨_, _, _, _, _, _, _, -, -, -, -, -, hanswered⟩
    · exact hsame
    · exact hanswered.unchanged hfails
  · have hanswered := hcourse.answered_of_split hsplit
    exact ⟨hanswered.of_invalid, hanswered.of_noRoom, hanswered.of_room⟩

/-- On the bench a table of three bytes goes into a buffer of four, from the memory that the
training code answered with. -/
theorem run_checks_answer_on_bench :
    let rig := Rig.training [0xde, 0xad] [1, 2, 3]
    let buf := Buffer.fill 4 0xaa
    let r := ((run Rig.trainingConfig .unavailable 0x5000).on buf).run Rig.machine rig
    r.value = (.ok ⟨0x5000, 3⟩, ⟨[1, 2, 3, 0xaa], rfl⟩) ∧
      ∃ before entry source text text', r.steps = before ++
        [⟨.train entry, (source, 3)⟩, logged .info text, ⟨.window source 3, .ok [1, 2, 3]⟩,
          logged .info text'] := by
  intro rig buf r
  have hvalue : r.value = (.ok ⟨0x5000, 3⟩, ⟨[1, 2, 3, 0xaa], rfl⟩) := by
    unfold r buf rig
    rfl
  obtain ⟨hsucceeds, -, -⟩ := run_checks_answer Rig.machine rig Rig.trainingConfig .unavailable
    0x5000 buf
  unfold r at *
  obtain ⟨-, ⟨before, entry, source, held, text, text', hsteps, -, hbytes⟩, -⟩ :=
    hsucceeds ⟨0x5000, 3⟩ (congrArg Prod.fst hvalue)
  rw [hvalue] at hbytes
  obtain rfl : [1, 2, 3] = held :=
    List.append_cancel_right (show [1, 2, 3] ++ [0xaa] = held ++ [0xaa] from hbytes)
  exact ⟨hvalue, before, entry, source, text, text', hsteps⟩

end Training
end BootHandoff
