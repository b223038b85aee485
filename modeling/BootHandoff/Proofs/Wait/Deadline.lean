/-
# How long a bounded wait can take

A wait has no counter of its own.  It ends because its clock moves on, and what has passed is
a difference modulo `2 ^ 64`, which has to reach the timeout before it comes round to nothing
again.  On a clock that moves by `step` with each reading (`ticking`) round `i` finds that
`step * i` has passed, and the first such number that reaches the timeout is less than
`timeout + step`.  As long as that is at most `2 ^ 64` no round up to then has seen the
difference wrap (`mul_lt_of_le_deadline`), wherever the clock started.

So the timeout is reached in the round `deadline` and in none before
(`timeout_le_elapsed_iff`).  A wait whose condition is found earlier is over earlier; one
whose condition is never found takes that round and the last look behind it.
-/

import BootHandoff.Proofs.Wait.Polling
import Mathlib.Algebra.Order.Floor.Div

namespace BootHandoff
namespace Wait

open Platform

variable {start step timeout : UInt64} {i : Nat}

/-- The times that a clock shows which moves by `step` with each reading, round the 64-bit
words. -/
def ticking (start step : UInt64) (i : Nat) : UInt64 := start + step * UInt64.ofNat i

/-- The round in which the timeout is reached. -/
def deadline (step timeout : UInt64) : Nat := max 1 (timeout.toNat ⌈/⌉ step.toNat)

theorem one_le_deadline : 1 ≤ deadline step timeout := le_max_left _ _

theorem timeout_le_mul_deadline (hstep : 0 < step) :
    timeout.toNat ≤ step.toNat * deadline step timeout := by
  have hpos : 0 < step.toNat := UInt64.lt_iff_toNat_lt.1 hstep
  exact (le_smul_ceilDiv hpos).trans (Nat.mul_le_mul_left _ (le_max_right _ _))

/-- Before the deadline the timeout has not been reached. -/
theorem mul_lt_timeout (hstep : 0 < step) (hi : 1 ≤ i) (hlt : i < deadline step timeout) :
    step.toNat * i < timeout.toNat := by
  have hpos : 0 < step.toNat := UInt64.lt_iff_toNat_lt.1 hstep
  have hceil : i < timeout.toNat ⌈/⌉ step.toNat := (lt_max_iff.1 hlt).resolve_left (by omega)
  exact Nat.not_le.1 fun hle => Nat.not_le.2 hceil ((ceilDiv_le_iff_le_smul hpos).2 hle)

/-- **Up to the deadline nothing wraps.** -/
theorem mul_lt_of_le_deadline (hstep : 0 < step) (htimeout : timeout.toNat ≤ 2 ^ 64 - step.toNat)
    (hle : i ≤ deadline step timeout) : step.toNat * i < 2 ^ 64 := by
  have hword := step.toNat_lt
  rcases Nat.lt_or_ge 1 i with hi | hi
  · -- One reading earlier the timeout had not been reached.
    obtain ⟨j, rfl⟩ := Nat.exists_eq_add_of_le' hi.le
    have hbefore : step.toNat * j < timeout.toNat := mul_lt_timeout hstep (by omega) (by omega)
    rw [Nat.mul_add]
    omega
  · calc
      step.toNat * i ≤ step.toNat * 1 := Nat.mul_le_mul_left _ hi
      _ < 2 ^ 64 := by rwa [Nat.mul_one]

/-- What a reading shows to have passed, as long as it has not wrapped.  Where the clock
started does not matter. -/
theorem toNat_elapsed (h : step.toNat * i < 2 ^ 64) :
    (ticking start step i - ticking start step 0).toNat = step.toNat * i := by
  have hpassed : ticking start step i - ticking start step 0 = step * UInt64.ofNat i := by
    unfold ticking
    grind
  rw [hpassed, UInt64.toNat_mul, UInt64.toNat_ofNat', Nat.mul_mod_mod, Nat.mod_eq_of_lt h]

/-- **The timeout is reached at the deadline,** and not before. -/
theorem timeout_le_elapsed_iff (start : UInt64) (hstep : 0 < step)
    (htimeout : timeout.toNat ≤ 2 ^ 64 - step.toNat) (hi : 1 ≤ i)
    (hle : i ≤ deadline step timeout) :
    timeout ≤ ticking start step i - ticking start step 0 ↔ i = deadline step timeout := by
  rw [UInt64.le_iff_toNat_le, toNat_elapsed (mul_lt_of_le_deadline hstep htimeout hle)]
  constructor
  · intro hreached
    refine hle.antisymm (Nat.not_lt.1 fun hlt => ?_)
    exact Nat.not_le.2 (mul_lt_timeout hstep hi hlt) hreached
  · rintro rfl
    exact timeout_le_mul_deadline hstep

/-- The first round that can be the last one is the deadline at the latest, and finds the
condition if it is an earlier one. -/
theorem exists_isLeast_le_deadline (start : UInt64) (d : Nat → Bool) (hstep : 0 < step)
    (htimeout : timeout.toNat ≤ 2 ^ 64 - step.toNat) :
    ∃ n ≤ deadline step timeout, (d n = true ∨ n = deadline step timeout) ∧
      IsLeast {i | 1 ≤ i ∧ Last (ticking start step) d timeout i} n := by
  have hreached := timeout_le_elapsed_iff start hstep htimeout one_le_deadline le_rfl
  obtain ⟨n, hn⟩ := exists_isLeast (d := d) one_le_deadline (.inr (hreached.2 rfl))
  have hle : n ≤ deadline step timeout := hn.2 ⟨one_le_deadline, .inr (hreached.2 rfl)⟩
  refine ⟨n, hle, hn.1.2.imp_right fun htime => ?_, hn⟩
  exact (timeout_le_elapsed_iff start hstep htimeout hn.1.1 hle).1 htime

/-- **A wait on a clock that moves on is over** once there were rounds up to the deadline, and
has looked once more than that at most.  If nothing was found by then, it looked so often and
ran out of time. -/
theorem exists_run_waitUntil (start : UInt64) (d : Nat → Bool) (hstep : 0 < step)
    (htimeout : timeout.toNat ≤ 2 ^ 64 - step.toNat) :
    ∃ result looks, 1 ≤ looks ∧ looks ≤ deadline step timeout + 1 ∧
      (∀ rounds, deadline step timeout ≤ rounds →
        (waitUntil rounds (reading (ticking start step)) timeout (looking d)).run ⟨0, 0⟩ =
          (some result, ⟨looks, looks⟩)) ∧
      ((∀ i, 1 ≤ i → i ≤ looks → d i = false) →
        result = .error ⟨timeout⟩ ∧ looks = deadline step timeout + 1) := by
  obtain ⟨n, hle, hearly, hn⟩ := exists_isLeast_le_deadline start d hstep htimeout
  have hrun := fun rounds (hrounds : deadline step timeout ≤ rounds) =>
    run_waitUntil_of_isLeast hn (hle.trans hrounds)
  cases hfound : d n with
  | true =>
    simp only [hfound, if_true] at hrun
    refine ⟨_, n, hn.1.1, by omega, hrun, fun hnever => ?_⟩
    rw [hnever n hn.1.1 le_rfl] at hfound
    cases hfound
  | false =>
    simp only [hfound, Bool.false_eq_true, if_false] at hrun
    refine ⟨_, n + 1, by omega, by omega, hrun, fun hnever => ?_⟩
    obtain rfl := hearly.resolve_left (Bool.eq_false_iff.1 hfound)
    rw [hnever _ (by omega) le_rfl]
    exact ⟨rfl, rfl⟩

/-- Any values are the terms of a sequence. -/
theorem exists_terms {α : Type} [Inhabited α] (k : Nat) (xs : List α) : ∃ f, Terms f k xs := by
  induction xs generalizing k with
  | nil => exact ⟨fun _ => default, rfl⟩
  | cons x xs ih =>
    obtain ⟨f, hf⟩ := ih (k + 1)
    refine ⟨Function.update f k x, terms_cons_iff.2 ⟨by rw [Function.update_self], ?_⟩⟩
    refine hf.trans (List.map_congr_left fun i hi => ?_)
    have hne : i ≠ k := by
      have := List.mem_range'_1.1 hi
      omega
    rw [Function.update_of_ne hne]

theorem Terms.mem {α : Type} {f : Nat → α} {k : Nat} {xs : List α} (h : Terms f k xs)
    (hle : k ≤ i) (hlt : i < k + xs.length) : f i ∈ xs := by
  rw [h]
  exact List.mem_map.2 ⟨i, List.mem_range'_1.2 ⟨hle, hlt⟩, rfl⟩

/-- **How long a bounded wait can take.**  On a clock that starts anywhere and moves by a step
with each reading, round the 64-bit words, a wait is over after `max 1 ⌈timeout / step⌉`
rounds at most, if the timeout and a step together are not more than `2 ^ 64`.  It looks once
more than that at most, whatever it waits for, and exactly so often if it never finds that, and
then runs out of time.  The same holds of waiting for bits on any platform with such a
clock. -/
theorem waitUntil_in_time (start : UInt64) (hstep : 0 < step)
    (htimeout : timeout.toNat ≤ 2 ^ 64 - step.toNat) :
    let most := max 1 (timeout.toNat ⌈/⌉ step.toNat)
    let wait rounds d :=
      (waitUntil rounds (reading (ticking start step)) timeout (looking d)).run ⟨0, 0⟩
    (∀ d, ∃ result looks, looks ≤ most + 1 ∧
      ∀ rounds, most ≤ rounds → wait rounds d = (some result, ⟨looks, looks⟩)) ∧
    (∀ d, (∀ i, d i = false) → ∀ rounds, most ≤ rounds →
      wait rounds d = (some (.error ⟨timeout⟩), ⟨most + 1, most + 1⟩)) ∧
    ∀ rounds address mask {σ : Type} (m : Machine σ) (s : σ), most ≤ rounds →
      let r := (waitForBits rounds address mask timeout).run m s
      Terms (ticking start step) 0 (times r.steps) →
        ∃ result, r.value = some result ∧ (values r.steps).length ≤ most + 1 ∧
          ((∀ value ∈ values r.steps, value &&& mask ≠ mask) →
            result = .error ⟨timeout⟩ ∧ (values r.steps).length = most + 1) := by
  intro most wait
  refine ⟨fun d => ?_, fun d hnever rounds hrounds => ?_, ?_⟩
  · obtain ⟨result, looks, -, hlooks, hwait, -⟩ := exists_run_waitUntil start d hstep htimeout
    exact ⟨result, looks, hlooks, hwait⟩
  · obtain ⟨result, looks, -, -, hwait, hend⟩ := exists_run_waitUntil start d hstep htimeout
    obtain ⟨rfl, rfl⟩ := hend fun i _ _ => hnever i
    exact hwait rounds hrounds
  · intro rounds address mask σ m s hrounds r htimes
    obtain ⟨v, hvalues⟩ := exists_terms 1 (values r.steps)
    have hrun := run_waitUntil_of_path
      (Firmware.path_run m (waitForBits rounds address mask timeout) s) htimes hvalues
    obtain ⟨result, looks, hpos, hlooks, hwait, hend⟩ :=
      exists_run_waitUntil start (fun i => v i &&& mask == mask) hstep htimeout
    obtain ⟨hvalue, hcounts⟩ := Prod.mk.inj (hrun.symm.trans (hwait rounds hrounds))
    obtain rfl : (values r.steps).length = looks := congrArg Counts.looks hcounts
    refine ⟨result, hvalue, hlooks, fun hnever => hend fun i hi hle => ?_⟩
    exact beq_false_of_ne (hnever _ (hvalues.mem hi (by omega)))

/-- The hypotheses are satisfiable, with a clock that wraps round after its first reading: a
register that never has both bits is looked at for a fourth time after three rounds. -/
theorem waitUntil_in_time_on_bench :
    let r := (waitForBits 7 0x4000 0b11 25).run Bench.statusRegister
      ⟨0x4000, ⟨[0b01], 0⟩, .new [0xfffffffffffffff8] 10⟩
    (0 : UInt64) < 10 ∧ (25 : UInt64).toNat ≤ 2 ^ 64 - (10 : UInt64).toNat ∧
      Terms (ticking 0xfffffffffffffff8 10) 0 (times r.steps) ∧
      times r.steps = [0xfffffffffffffff8, 0x2, 0xc, 0x16] ∧
      r.value = some (.error ⟨25⟩) ∧ (values r.steps).length = 4 := by
  intro r
  have hstep : (0 : UInt64) < 10 := by decide
  have htimeout : (25 : UInt64).toNat ≤ 2 ^ 64 - (10 : UInt64).toNat := by decide
  have htimes : Terms (ticking 0xfffffffffffffff8 10) 0 (times r.steps) := rfl
  have hmost : max 1 ((25 : UInt64).toNat ⌈/⌉ (10 : UInt64).toNat) = 3 := rfl
  obtain ⟨-, -, hbits⟩ := waitUntil_in_time 0xfffffffffffffff8 hstep htimeout
  rw [hmost] at hbits
  obtain ⟨result, hvalue, -, hnever⟩ := hbits 7 0x4000 0b11 Bench.statusRegister
    ⟨0x4000, ⟨[0b01], 0⟩, .new [0xfffffffffffffff8] 10⟩ (by decide) htimes
  have hvalues : values r.steps = List.replicate 4 0b01 := rfl
  obtain ⟨rfl, hlooks⟩ := hnever fun value hvalue => by
    rw [hvalues] at hvalue
    obtain rfl := List.eq_of_mem_replicate hvalue
    decide
  exact ⟨hstep, htimeout, htimes, rfl, hvalue, hlooks⟩

end Wait
end BootHandoff
