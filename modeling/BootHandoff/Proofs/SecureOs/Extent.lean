/-
# Where the secure OS lies, over the unbounded numbers

The code places the secure OS with 64-bit words that may overflow at several
points.  Here the same is said with numbers that cannot: `behind` is where the
space of the secure monitor ends, `finish` where the carveout does.
`placement_eq` says what comes of each length, in these two numbers:

| the image ends | the carveout ends | placement |
| --- | --- | --- |
| behind the 64-bit words | anywhere | refused |
| within them | behind the 64-bit words | halts with an overflow |
| within the carveout | within the 64-bit words | the end of the monitor's space |
| behind the carveout | within the 64-bit words | refused |
-/

import BootHandoff.SecureOs.Placement
import Mathlib.Algebra.Group.Nat.Defs
import Mathlib.Tactic.SplitIfs

namespace BootHandoff

theorem orOverflow_eq_ok_iff {α : Type} {a? : Option α} {a : α} :
    orOverflow a? = .ok a ↔ a? = some a := by
  cases a? <;> simp [orOverflow]

theorem orOverflow_eq_error_iff {α : Type} {a? : Option α} {h : Halt} :
    orOverflow a? = .error h ↔ h = .overflow ∧ a? = none := by
  cases a? <;> simp [orOverflow, eq_comm]

/-- Two steps of checked arithmetic overflow where one of them does. -/
theorem orOverflow_bind {α β : Type} (a? : Option α) (f : α → Option β) :
    (orOverflow a? >>= fun a => orOverflow (f a)) = orOverflow (a?.bind f) := by
  cases a? <;> rfl

/-- Checked arithmetic has no result exactly when the number is not that of a
word. -/
theorem Word.eq_none_iff_of_forall_iff {word? : Option UInt64} {n : Nat}
    (h : ∀ w, word? = some w ↔ n = w.toNat) : word? = none ↔ 2 ^ 64 ≤ n := by
  constructor
  · rintro rfl
    refine Nat.not_lt.1 fun hlt => ?_
    cases (h (UInt64.ofNat n)).2 (by rw [UInt64.toNat_ofNat', Nat.mod_eq_of_lt hlt])
  · intro hn
    cases hw : word? with
    | none => rfl
    | some w => exact absurd w.toNat_lt (Nat.not_lt.2 ((h w).1 hw ▸ hn))

namespace Memory

/-- Where the first `reserved` MiB of a range end. -/
def MibRange.behind (r : MibRange) (reserved : UInt64) : Nat :=
  (r.base.toNat + reserved.toNat) * 2 ^ 20

/-- Where a range ends. -/
def MibRange.finish (r : MibRange) : Nat := r.behind r.size

/-- A number of MiB in bytes, with the sum and the product checked. -/
theorem bytes_eq_some_iff {a b address : UInt64} :
    ((Word.add64? a b).bind fun sum => Word.mul64? sum mib) = some address ↔
      (a.toNat + b.toNat) * 2 ^ 20 = address.toNat := by
  have hmib : mib.toNat = 2 ^ 20 := rfl
  rw [Option.bind_eq_some_iff]
  constructor
  · rintro ⟨sum, hsum, hmul⟩
    rw [Word.add64?_eq_some_iff.1 hsum, ← hmib]
    exact Word.mul64?_eq_some_iff.1 hmul
  · intro h
    have hlt := address.toNat_lt
    have hsum : (UInt64.ofNat (a.toNat + b.toNat)).toNat = a.toNat + b.toNat := by
      rw [UInt64.toNat_ofNat']
      omega
    refine ⟨_, Word.add64?_eq_some_iff.2 hsum.symm, Word.mul64?_eq_some_iff.2 ?_⟩
    rw [hsum, hmib]
    exact h

theorem MibRange.stopAddress_eq_orOverflow (r : MibRange) :
    r.stopAddress =
      orOverflow ((Word.add64? r.base r.size).bind fun sum => Word.mul64? sum mib) :=
  orOverflow_bind _ _

theorem MibRange.stopAddress_eq_ok_iff {r : MibRange} {stop : UInt64} :
    r.stopAddress = .ok stop ↔ r.finish = stop.toNat := by
  rw [r.stopAddress_eq_orOverflow, orOverflow_eq_ok_iff]
  exact bytes_eq_some_iff

theorem MibRange.stopAddress_eq_error_iff {r : MibRange} {h : Halt} :
    r.stopAddress = .error h ↔ h = .overflow ∧ 2 ^ 64 ≤ r.finish := by
  rw [r.stopAddress_eq_orOverflow, orOverflow_eq_error_iff,
    Word.eq_none_iff_of_forall_iff fun _ => bytes_eq_some_iff]
  exact Iff.rfl

end Memory

namespace SecureOs

open Memory

theorem base?_eq_some_iff {tz : MibRange} {reserved address : UInt64} :
    base? tz reserved = some address ↔ tz.behind reserved = address.toNat :=
  bytes_eq_some_iff

/-- **What comes of each length.** -/
theorem placement_eq (tz : MibRange) (reserved len : UInt64) :
    placement tz reserved len =
      if 2 ^ 64 ≤ tz.behind reserved + len.toNat then .error (.error (.secureOsTooLarge len))
      else if 2 ^ 64 ≤ tz.finish then .error (.halt .overflow)
      else if tz.behind reserved + len.toNat ≤ tz.finish then
        .ok (UInt64.ofNat (tz.behind reserved))
      else .error (.error (.secureOsTooLarge len)) := by
  unfold placement
  cases hbase : base? tz reserved with
  | none =>
    have hstart := (Word.eq_none_iff_of_forall_iff fun _ => base?_eq_some_iff).1 hbase
    rw [if_pos (Nat.le_add_right_of_le hstart)]
    rfl
  | some address =>
    rw [base?_eq_some_iff.1 hbase, UInt64.ofNat_toNat]
    dsimp only
    cases hstop : Word.add64? address len with
    | none =>
      rw [if_pos ((Word.eq_none_iff_of_forall_iff fun _ => Word.add64?_eq_some_iff).1 hstop)]
      rfl
    | some stop =>
      rw [Word.add64?_eq_some_iff.1 hstop, if_neg (Nat.not_le.2 stop.toNat_lt)]
      cases hlimit : tz.stopAddress with
      | error h =>
        obtain ⟨rfl, hfinish⟩ := MibRange.stopAddress_eq_error_iff.1 hlimit
        rw [if_pos hfinish]
        rfl
      | ok limit =>
        rw [MibRange.stopAddress_eq_ok_iff.1 hlimit, if_neg (Nat.not_le.2 limit.toNat_lt)]
        simp only [check, pure_bind, UInt64.le_iff_toNat_le]
        rfl

/-- **A placement succeeds** exactly when the image ends within the carveout
and the end of the carveout is an address. -/
theorem placement_eq_ok_iff {tz : MibRange} {reserved len address : UInt64} :
    placement tz reserved len = .ok address ↔
      tz.behind reserved = address.toNat ∧ tz.behind reserved + len.toNat ≤ tz.finish ∧
        tz.finish < 2 ^ 64 := by
  rw [placement_eq]
  constructor
  · intro h
    split_ifs at h with hsum hfinish hle
    have hbase : tz.behind reserved < 2 ^ 64 := by omega
    rw [← Except.ok.inj h, UInt64.toNat_ofNat', Nat.mod_eq_of_lt hbase]
    exact ⟨rfl, hle, Nat.not_le.1 hfinish⟩
  · rintro ⟨hbase, hle, hfinish⟩
    rw [if_neg (by omega), if_neg (by omega), if_pos hle, hbase, UInt64.ofNat_toNat]

/-- Whatever is placed starts before the carveout ends. -/
theorem le_of_placement {tz : MibRange} {reserved len base stop : UInt64}
    (hplace : placement tz reserved len = .ok base) (hstop : tz.stopAddress = .ok stop) :
    base ≤ stop := by
  obtain ⟨hbase, hle, -⟩ := placement_eq_ok_iff.1 hplace
  have hfinish := MibRange.stopAddress_eq_ok_iff.1 hstop
  rw [UInt64.le_iff_toNat_le]
  omega

/-- **An image that ends behind the carveout is refused,** whatever overflows
on the way. -/
theorem placement_of_lt {tz : MibRange} {reserved len : UInt64}
    (h : tz.finish < tz.behind reserved + len.toNat) :
    placement tz reserved len = .error (.error (.secureOsTooLarge len)) := by
  rw [placement_eq]
  split_ifs with hsum hfinish hle
  · rfl
  · omega
  · omega
  · rfl

/-- **A placement is refused** exactly when the image does not end within the carveout, or
not at an address. -/
theorem placement_eq_error_iff {tz : MibRange} {reserved len : UInt64} {e : BootError} :
    placement tz reserved len = .error (.error e) ↔
      e = .secureOsTooLarge len ∧
        ¬(tz.behind reserved + len.toNat < 2 ^ 64 ∧
          tz.behind reserved + len.toNat ≤ tz.finish) := by
  have hrefused : (.error (.error (.secureOsTooLarge len)) : Except (Stop BootError) UInt64) =
      .error (.error e) ↔ e = .secureOsTooLarge len := by
    simp [eq_comm]
  rw [placement_eq]
  split_ifs with hsum hfinish hle
  · rw [hrefused, iff_self_and]
    omega
  · refine iff_of_false nofun fun ⟨_, houtside⟩ => ?_
    omega
  · exact iff_of_false nofun fun ⟨_, houtside⟩ => houtside ⟨Nat.not_le.1 hsum, hle⟩
  · rw [hrefused, iff_self_and]
    omega

/-- **A placement halts** exactly when the image ends at an address and the carveout does
not. -/
theorem placement_eq_halt_iff {tz : MibRange} {reserved len : UInt64} {h : Halt} :
    placement tz reserved len = .error (.halt h) ↔
      h = .overflow ∧ tz.behind reserved + len.toNat < 2 ^ 64 ∧ 2 ^ 64 ≤ tz.finish := by
  rw [placement_eq]
  split_ifs with hsum hfinish hle
  · exact iff_of_false nofun fun ⟨_, haddress, _⟩ => Nat.not_lt.2 hsum haddress
  · have hhalts : (.error (.halt .overflow) : Except (Stop BootError) UInt64) =
        .error (.halt h) ↔ h = .overflow := by
      simp [eq_comm]
    rw [hhalts, iff_self_and]
    exact fun _ => ⟨Nat.not_le.1 hsum, hfinish⟩
  · exact iff_of_false nofun fun ⟨_, _, hbehind⟩ => hfinish hbehind
  · exact iff_of_false nofun fun ⟨_, _, hbehind⟩ => hfinish hbehind

/-- **What a placement comes to, told by where the image starts and where the carveout
stops.**  The image is placed at its start if it ends within the carveout, and refused if
it ends behind the carveout or behind the 64-bit words.  That leaves one gap: for an image
that ends at an address, in a carveout that does not, the device halts. -/
theorem placement_ends (tz : MibRange) (reserved len : UInt64) :
    let start := (tz.base.toNat + reserved.toNat) * 2 ^ 20
    let stop := (tz.base.toNat + tz.size.toNat) * 2 ^ 20
    (∀ address, placement tz reserved len = .ok address ↔
      address.toNat = start ∧ start + len.toNat < 2 ^ 64 ∧ start + len.toNat ≤ stop ∧
        stop < 2 ^ 64) ∧
    (∀ e, placement tz reserved len = .error (.error e) ↔
      e = .secureOsTooLarge len ∧ ¬(start + len.toNat < 2 ^ 64 ∧ start + len.toNat ≤ stop)) ∧
    (∀ h, placement tz reserved len = .error (.halt h) ↔
      h = .overflow ∧ start + len.toNat < 2 ^ 64 ∧ 2 ^ 64 ≤ stop) := by
  intro start stop
  refine ⟨fun address => ?_, fun _ => placement_eq_error_iff, fun _ => placement_eq_halt_iff⟩
  have hstart : tz.behind reserved = start := rfl
  have hstop : tz.finish = stop := rfl
  rw [placement_eq_ok_iff, hstart, hstop]
  omega

/-- **A carveout up to the last byte there is takes no image.**  This one would end long
before the carveout does, and at an address, but the end of the carveout is computed as an
address too. -/
theorem placement_up_to_last_byte :
    let tz : MibRange := ⟨0x400, 0xffffffffc00⟩
    let start := (tz.base.toNat + 1) * 2 ^ 20
    let stop := (tz.base.toNat + tz.size.toNat) * 2 ^ 20
    start + 0x1000 < 2 ^ 64 ∧ start + 0x1000 ≤ stop ∧ stop = 2 ^ 64 ∧
      placement tz 1 0x1000 = .error (.halt .overflow) := by
  intro tz start stop
  exact ⟨by decide, by decide, by decide, placement_eq_halt_iff.2 ⟨rfl, by decide, by decide⟩⟩

end SecureOs
end BootHandoff
