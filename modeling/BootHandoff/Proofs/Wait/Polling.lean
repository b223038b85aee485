/-
# How a bounded wait ends

A wait sees nothing but two sequences: the times that its clock shows, from `t 0` on, which is
when it begins, and what it finds when it looks, from `d 1` on.  `reading` and `looking` are a
clock and a condition with given sequences, and `Counts` keeps how often each was used.

The wait goes round by round.  Round `i` looks, which gives `d i`, and then reads the clock,
which gives `t i`; it is the last one if the condition was found or the timeout has passed
(`Last`).  So the first such round decides everything (`waitUntil_ends`):

| round `n`, the first last one | readings | looks | ends with |
| --- | --- | --- | --- |
| finds the condition | `n` | `n` | success |
| has run out of time, and the condition is found then | `n + 1` | `n + 1` | success |
| has run out of time, and it is not | `n + 1` | `n + 1` | the timeout |

Times are only ever subtracted from one another, modulo `2 ^ 64`, so it does not matter where
the clock starts or whether it wraps round.
-/

import BootHandoff.Bench.Device
import BootHandoff.Proofs.Platform.Asks
import BootHandoff.Wait.Poll
import Mathlib.Order.Lattice.Nat

namespace BootHandoff
namespace Wait

open Platform

/-- How often a wait has read the clock, and how often it has looked. -/
structure Counts where
  readings : Nat
  looks : Nat
  deriving DecidableEq, Repr

/-- A clock that shows the times `t 0`, `t 1` and so on. -/
def reading (t : Nat → UInt64) : StateM Counts UInt64 :=
  modifyGet fun c => (t c.readings, { c with readings := c.readings + 1 })

/-- A condition that is found as `d 1`, `d 2` and so on says. -/
def looking (d : Nat → Bool) : StateM Counts Bool :=
  modifyGet fun c => (d (c.looks + 1), { c with looks := c.looks + 1 })

/-- A round can be the last one if it finds the condition, or if the clock then shows that the
timeout has passed. -/
def Last (t : Nat → UInt64) (d : Nat → Bool) (timeout : UInt64) (i : Nat) : Prop :=
  d i = true ∨ timeout ≤ t i - t 0

variable {t : Nat → UInt64} {d : Nat → Bool} {timeout : UInt64} {w : Stopwatch}
  {n rounds : Nat} {c : Counts}

/-- **One round of a wait.** -/
theorem run_poll_succ :
    (poll (reading t) (looking d) w (rounds + 1)).run c =
      if d (c.looks + 1) then (some (.ok ()), ⟨c.readings, c.looks + 1⟩)
      else if w.timeout ≤ t c.readings - w.start then
        (some (if d (c.looks + 2) then .ok () else .error ⟨w.timeout⟩),
          ⟨c.readings + 1, c.looks + 2⟩)
      else (poll (reading t) (looking d) w rounds).run ⟨c.readings + 1, c.looks + 1⟩ := by
  show (if d (c.looks + 1) then _ else _ : StateM Counts _).run _ = _
  cases d (c.looks + 1) with
  | true => rfl
  | false =>
    show (if decide (w.timeout ≤ t c.readings - w.start) then _ else _ : StateM Counts _).run _ = _
    by_cases hexpired : w.timeout ≤ t c.readings - w.start
    · simp only [hexpired]
      show (if d (c.looks + 2) then _ else _ : StateM Counts _).run _ = _
      cases d (c.looks + 2) <;> rfl
    · simp only [hexpired]
      rfl

/-- Rounds of which none can be the last one leave a wait going on. -/
theorem run_poll_of_forall_not {i k : Nat}
    (h : ∀ j, i < j → j ≤ i + k → ¬Last t d timeout j) :
    (poll (reading t) (looking d) ⟨t 0, timeout⟩ k).run ⟨i + 1, i⟩ =
      (none, ⟨i + k + 1, i + k⟩) := by
  induction k generalizing i with
  | zero => rfl
  | succ k ih =>
    obtain ⟨hlook, htime⟩ := not_or.1 (h (i + 1) (by omega) (by omega))
    have hrest := ih (i := i + 1) fun j hj hle => h j (by omega) (by omega)
    rw [run_poll_succ, if_neg hlook, if_neg htime, hrest, show i + 1 + k = i + (k + 1) by omega]

/-- **The first round that can be the last one is the last one,** however many more there
might be. -/
theorem run_poll_of_last {i k : Nat} (hi : i < n) (hn : n ≤ i + k) (hlast : Last t d timeout n)
    (hbefore : ∀ j, i < j → j < n → ¬Last t d timeout j) :
    (poll (reading t) (looking d) ⟨t 0, timeout⟩ k).run ⟨i + 1, i⟩ =
      if d n then (some (.ok ()), ⟨n, n⟩)
      else (some (if d (n + 1) then .ok () else .error ⟨timeout⟩), ⟨n + 1, n + 1⟩) := by
  induction k generalizing i with
  | zero => omega
  | succ k ih =>
    rw [run_poll_succ]
    obtain rfl | hne := eq_or_ne n (i + 1)
    · by_cases hlook : d (i + 1) = true
      · rw [if_pos hlook, if_pos hlook]
      · rw [if_neg hlook, if_neg hlook, if_pos (hlast.resolve_left hlook)]
    · obtain ⟨hlook, htime⟩ := not_or.1 (hbefore (i + 1) (by omega) (by omega))
      rw [if_neg hlook, if_neg htime]
      exact ih (i := i + 1) (by omega) (by omega) fun j hj hlt => hbefore j (by omega) hlt

/-- A wait begins with a reading of the clock. -/
theorem run_waitUntil :
    (waitUntil rounds (reading t) timeout (looking d)).run ⟨0, 0⟩ =
      (poll (reading t) (looking d) ⟨t 0, timeout⟩ rounds).run ⟨1, 0⟩ :=
  rfl

theorem run_waitUntil_of_lt (h : ∀ i, 1 ≤ i → i ≤ rounds → ¬Last t d timeout i) :
    (waitUntil rounds (reading t) timeout (looking d)).run ⟨0, 0⟩ =
      (none, ⟨rounds + 1, rounds⟩) := by
  rw [run_waitUntil, run_poll_of_forall_not fun j hj hle => h j hj (by omega), Nat.zero_add]

theorem run_waitUntil_of_isLeast (h : IsLeast {i | 1 ≤ i ∧ Last t d timeout i} n)
    (hn : n ≤ rounds) :
    (waitUntil rounds (reading t) timeout (looking d)).run ⟨0, 0⟩ =
      if d n then (some (.ok ()), ⟨n, n⟩)
      else (some (if d (n + 1) then .ok () else .error ⟨timeout⟩), ⟨n + 1, n + 1⟩) := by
  obtain ⟨⟨hpos, hlast⟩, hleast⟩ := h
  refine run_poll_of_last hpos (by omega) hlast fun j hj hlt hj' => ?_
  have := hleast ⟨hj, hj'⟩
  omega

/-- If there is a round that can be the last one, there is a first one. -/
theorem exists_isLeast {i : Nat} (hpos : 1 ≤ i) (hlast : Last t d timeout i) :
    ∃ n, IsLeast {i | 1 ≤ i ∧ Last t d timeout i} n :=
  ⟨_, Nat.sInf_mem ⟨i, hpos, hlast⟩, fun _ hj => Nat.sInf_le hj⟩

/-- A wait that is over after some rounds had a first round that could be the last one. -/
theorem exists_isLeast_of_eq_some {result : Except Timeout Unit}
    (h : (waitUntil rounds (reading t) timeout (looking d)).run ⟨0, 0⟩ = (some result, c)) :
    ∃ n ≤ rounds, IsLeast {i | 1 ≤ i ∧ Last t d timeout i} n := by
  by_contra hnone
  have hnot : ∀ i, 1 ≤ i → i ≤ rounds → ¬Last t d timeout i := by
    intro i hpos hle hlast
    obtain ⟨n, hn⟩ := exists_isLeast hpos hlast
    exact hnone ⟨n, (hn.2 ⟨hpos, hlast⟩).trans hle, hn⟩
  rw [run_waitUntil_of_lt hnot] at h
  cases h

/-- A wait does not see by how much its clock is ahead. -/
theorem poll_shift (shift start : UInt64) :
    poll (reading fun i => t i + shift) (looking d) ⟨start + shift, timeout⟩ rounds =
      poll (reading t) (looking d) ⟨start, timeout⟩ rounds := by
  induction rounds with
  | zero => rfl
  | succ rounds ih =>
    refine StateT.ext fun c => ?_
    have hsince : t c.readings + shift - (start + shift) = t c.readings - start := by grind
    rw [run_poll_succ, run_poll_succ, ih, hsince]

theorem waitUntil_shift (shift : UInt64) :
    waitUntil rounds (reading fun i => t i + shift) timeout (looking d) =
      waitUntil rounds (reading t) timeout (looking d) := by
  refine StateT.ext fun c => ?_
  exact congrArg (StateT.run · ⟨c.readings + 1, c.looks⟩) (poll_shift shift (t c.readings))

section Platform

variable {ready : Firmware Bool} {steps : List Step} {result : Option (Except Timeout Unit)}

/-- **One round of a wait on a platform,** whatever its condition asks. -/
theorem path_poll_succ (h : (poll Firmware.now ready w (rounds + 1)).Path steps result) :
    (ready.Path steps true ∧ result = some (.ok ())) ∨
    ∃ look time rest, steps = look ++ ⟨.now, time⟩ :: rest ∧ ready.Path look false ∧
      if w.timeout ≤ time - w.start then
        ∃ found, ready.Path rest found ∧
          result = some (if found then .ok () else .error ⟨w.timeout⟩)
      else (poll Firmware.now ready w rounds).Path rest result := by
  obtain ⟨look, rest, found, rfl, hlook, hrest⟩ := Firmware.path_bind_iff.1 h
  cases found with
  | true =>
    obtain ⟨rfl, rfl⟩ := Firmware.path_pure_iff.1 hrest
    exact .inl ⟨by rwa [List.append_nil], rfl⟩
  | false =>
    obtain ⟨time, last, rfl, hexpired⟩ := (Firmware.path_ask_iff (q := .now)).1 hrest
    refine .inr ⟨look, time, last, rfl, hlook, ?_⟩
    replace hexpired : (if decide (w.timeout ≤ time - w.start) = true then _ else _ :
      Firmware _).Path last result := hexpired
    split
    · rename_i hle
      rw [if_pos (decide_eq_true hle)] at hexpired
      obtain ⟨again, none, found, rfl, hagain, hend⟩ := Firmware.path_bind_iff.1 hexpired
      cases found <;> obtain ⟨rfl, rfl⟩ := Firmware.path_pure_iff.1 hend <;>
        exact ⟨_, by rwa [List.append_nil], rfl⟩
    · rename_i hnle
      rwa [if_neg (mt of_decide_eq_true hnle)] at hexpired

end Platform

section Bits

variable {address : UInt64} {mask : UInt32} {v : Nat → UInt32} {steps : List Step}
  {result : Option (Except Timeout Unit)}

/-- The times that the clock has shown, in order. -/
def times (steps : List Step) : List UInt64 := steps.filterMap fun
  | ⟨.now, time⟩ => some time
  | _ => none

/-- The values that registers were read to have, in order. -/
def values (steps : List Step) : List UInt32 := steps.filterMap fun
  | ⟨.readRegister _, value⟩ => some value
  | _ => none

/-- These are the terms of a sequence from the `k`-th on. -/
def Terms {α : Type} (f : Nat → α) (k : Nat) (xs : List α) : Prop :=
  xs = (List.range' k xs.length).map f

theorem terms_cons_iff {α : Type} {f : Nat → α} {k : Nat} {x : α} {xs : List α} :
    Terms f k (x :: xs) ↔ x = f k ∧ Terms f (k + 1) xs := by
  unfold Terms
  rw [List.length_cons, List.range'_succ, List.map_cons, List.cons.injEq]

/-- Looks whether every bit of `mask` is set in the register at `address`. -/
def bitsSet (address : UInt64) (mask : UInt32) : Firmware Bool := do
  return (← Firmware.readRegister address) &&& mask == mask

theorem path_bitsSet {found : Bool} (h : (bitsSet address mask).Path steps found) :
    ∃ value, steps = [⟨.readRegister address, value⟩] ∧ found = (value &&& mask == mask) := by
  obtain ⟨value, rest, rfl, hrest⟩ := Firmware.path_ask_iff.1 h
  obtain ⟨rfl, rfl⟩ := Firmware.path_pure_iff.1 hrest
  exact ⟨value, rfl, rfl⟩

/-- **A wait for bits is a wait** on the times that the clock shows and the values that the
register is read to have. -/
theorem run_poll_of_path (h : (poll Firmware.now (bitsSet address mask) w rounds).Path steps result)
    (htimes : Terms t c.readings (times steps)) (hvalues : Terms v (c.looks + 1) (values steps)) :
    (poll (reading t) (looking fun i => v i &&& mask == mask) w rounds).run c =
      (result, ⟨c.readings + (times steps).length, c.looks + (values steps).length⟩) := by
  induction rounds generalizing steps c with
  | zero =>
    obtain ⟨rfl, rfl⟩ := Firmware.path_pure_iff.1 h
    rfl
  | succ rounds ih =>
    rw [run_poll_succ]
    rcases path_poll_succ h with ⟨hlook, rfl⟩ | ⟨look, time, rest, rfl, hlook, hrest⟩
    · obtain ⟨value, rfl, hfound⟩ := path_bitsSet hlook
      obtain ⟨rfl, -⟩ := terms_cons_iff.1 hvalues
      rw [if_pos hfound.symm]
      rfl
    · obtain ⟨value, rfl, hfound⟩ := path_bitsSet hlook
      obtain ⟨rfl, hvalues'⟩ := terms_cons_iff.1 hvalues
      obtain ⟨rfl, htimes'⟩ := terms_cons_iff.1 htimes
      rw [if_neg (by rw [← hfound]; exact Bool.false_ne_true)]
      split at hrest
      · rename_i hle
        obtain ⟨found, hagain, rfl⟩ := hrest
        obtain ⟨second, rfl, rfl⟩ := path_bitsSet hagain
        obtain ⟨rfl, -⟩ := terms_cons_iff.1 hvalues'
        rw [if_pos hle]
        rfl
      · rename_i hnle
        rw [if_neg hnle, ih hrest htimes' hvalues']
        exact congrArg (Prod.mk result) (congrArg₂ Counts.mk (Nat.succ_add_eq_add_succ ..)
          (Nat.succ_add_eq_add_succ ..))

/-- A wait for bits reads the clock and the register, and asks nothing else. -/
theorem asks_waitForBits (rounds : Nat) (address : UInt64) (mask : UInt32) (timeout : UInt64) :
    (waitForBits rounds address mask timeout).Asks fun q =>
      q = .now ∨ q = .readRegister address := by
  have hnow : Firmware.now.Asks fun q => q = .now ∨ q = .readRegister address :=
    Firmware.asks_query (.inl rfl)
  have hlook : (bitsSet address mask).Asks fun q => q = .now ∨ q = .readRegister address :=
    Firmware.asks_bind (Firmware.asks_query (.inr rfl)) fun _ => Firmware.asks_pure _
  refine Firmware.asks_bind (Firmware.asks_bind hnow fun _ => Firmware.asks_pure _) fun w => ?_
  induction rounds with
  | zero => exact Firmware.asks_pure _
  | succ rounds ih =>
    refine Firmware.asks_bind hlook fun found => ?_
    split
    · exact Firmware.asks_pure _
    refine Firmware.asks_bind (Firmware.asks_bind (Firmware.asks_bind hnow fun _ =>
      Firmware.asks_pure _) fun _ => Firmware.asks_pure _) fun expired => ?_
    split
    · refine Firmware.asks_bind hlook fun found => ?_
      split <;> exact Firmware.asks_pure _
    · exact ih

theorem run_waitUntil_of_path
    (h : (waitForBits rounds address mask timeout).Path steps result)
    (htimes : Terms t 0 (times steps)) (hvalues : Terms v 1 (values steps)) :
    (waitUntil rounds (reading t) timeout (looking fun i => v i &&& mask == mask)).run ⟨0, 0⟩ =
      (result, ⟨(times steps).length, (values steps).length⟩) := by
  obtain ⟨start, rest, rfl, hrest⟩ := (Firmware.path_ask_iff (q := .now)).1 h
  obtain ⟨rfl, htimes'⟩ := terms_cons_iff.1 htimes
  have hpoll := run_poll_of_path (w := ⟨t 0, timeout⟩) (c := ⟨1, 0⟩) hrest htimes' hvalues
  rw [run_waitUntil, hpoll]
  exact congrArg (Prod.mk result) (congrArg₂ Counts.mk (Nat.add_comm ..) (Nat.zero_add _))

end Bits

/-- **How a bounded wait ends.**  A wait is over, after however many rounds, exactly if some
round can be the last one.  The first such round `n` is the last one: if it finds the
condition, the wait succeeds after `n` looks and `n` readings; otherwise it looks once more,
reads the clock once more, and what it finds then decides between success and the timeout.  So
there are as many looks as readings, and the timeout is only ever reported after a look behind
it that was in vain.  A clock that is ahead by some time, modulo `2 ^ 64`, makes no difference.

Waiting for bits is such a wait on any platform: what its clock shows are the times, and the
values that are read from the register say what is found.  It reads the one register and the
clock, and does nothing else. -/
theorem waitUntil_ends (t : Nat → UInt64) (d : Nat → Bool) (timeout : UInt64) :
    let wait rounds := (waitUntil rounds (reading t) timeout (looking d)).run ⟨0, 0⟩
    let last := {i | 1 ≤ i ∧ Last t d timeout i}
    ((∃ rounds result c, wait rounds = (some result, c)) ↔ ∃ i, i ∈ last) ∧
    (∀ n, IsLeast last n → ∀ rounds, (rounds < n → (wait rounds).1 = none) ∧
      (n ≤ rounds → wait rounds =
        if d n then (some (.ok ()), ⟨n, n⟩)
        else (some (if d (n + 1) then .ok () else .error ⟨timeout⟩), ⟨n + 1, n + 1⟩))) ∧
    (∀ rounds result c, wait rounds = (some result, c) → c.looks = c.readings ∧
      ∀ e, result = .error e → e = ⟨timeout⟩ ∧ d c.looks = false ∧
        timeout ≤ t (c.readings - 1) - t 0) ∧
    (∀ shift rounds, waitUntil rounds (reading fun i => t i + shift) timeout (looking d) =
      waitUntil rounds (reading t) timeout (looking d)) ∧
    ∀ rounds address mask {σ : Type} (m : Machine σ) (s : σ),
      let r := (waitForBits rounds address mask timeout).run m s
      (∀ step ∈ r.steps, step.query = .now ∨ step.query = .readRegister address) ∧
      ∀ v : Nat → UInt32, Terms t 0 (times r.steps) → Terms v 1 (values r.steps) →
        (waitUntil rounds (reading t) timeout (looking fun i => v i &&& mask == mask)).run ⟨0, 0⟩ =
          (r.value, ⟨(times r.steps).length, (values r.steps).length⟩) := by
  intro wait last
  refine ⟨⟨?_, ?_⟩, ?_, ?_, fun shift rounds => waitUntil_shift shift, ?_⟩
  · rintro ⟨rounds, result, c, hwait⟩
    obtain ⟨n, -, hn⟩ := exists_isLeast_of_eq_some hwait
    exact ⟨n, hn.1⟩
  · rintro ⟨i, hpos, hlast⟩
    obtain ⟨n, hn⟩ := exists_isLeast hpos hlast
    have hwait := run_waitUntil_of_isLeast hn le_rfl
    split at hwait <;> exact ⟨n, _, _, hwait⟩
  · refine fun n hn rounds => ⟨fun hlt => ?_, run_waitUntil_of_isLeast hn⟩
    refine congrArg Prod.fst (run_waitUntil_of_lt fun i hpos hle hlast => ?_)
    have := hn.2 ⟨hpos, hlast⟩
    omega
  · intro rounds result c hwait
    obtain ⟨n, hle, hn⟩ := exists_isLeast_of_eq_some hwait
    have hend := hwait.symm.trans (run_waitUntil_of_isLeast hn hle)
    split at hend
    · obtain ⟨hresult, rfl⟩ := Prod.mk.inj hend
      obtain rfl := Option.some.inj hresult
      exact ⟨rfl, nofun⟩
    · rename_i hlook
      obtain ⟨hresult, rfl⟩ := Prod.mk.inj hend
      obtain rfl := Option.some.inj hresult
      refine ⟨rfl, fun e he => ?_⟩
      split at he
      · cases he
      · rename_i hagain
        obtain rfl := Except.error.inj he
        exact ⟨rfl, Bool.eq_false_iff.2 hagain, hn.1.2.resolve_left hlook⟩
  · intro rounds address mask σ m s r
    have hpath := Firmware.path_run m (waitForBits rounds address mask timeout) s
    exact ⟨asks_waitForBits rounds address mask timeout _ _ hpath,
      fun v => run_waitUntil_of_path hpath⟩

/-- A platform with such times and values: the clock wraps round between its first two readings,
and the register has both bits when it is read for the third time. -/
theorem waitUntil_ends_on_bench :
    let t : Nat → UInt64 := fun i => 0xfffffffffffffff8 + 10 * UInt64.ofNat i
    let v : Nat → UInt32 := fun i => if i < 3 then 0b01 else 0b11
    let r := (waitForBits 5 0x4000 0b11 25).run Bench.statusRegister
      ⟨0x4000, ⟨[0b01, 0b01, 0b11], 0⟩, .new [0xfffffffffffffff8] 10⟩
    Terms t 0 (times r.steps) ∧ Terms v 1 (values r.steps) ∧
      times r.steps = [0xfffffffffffffff8, 0x2, 0xc] ∧ r.value = some (.ok ()) ∧
      (waitUntil 5 (reading t) 25 (looking fun i => v i &&& 0b11 == 0b11)).run ⟨0, 0⟩ =
        (some (.ok ()), ⟨3, 3⟩) := by
  intro t v r
  have htimes : Terms t 0 (times r.steps) := rfl
  have hvalues : Terms v 1 (values r.steps) := rfl
  obtain ⟨-, -, -, -, hbits⟩ := waitUntil_ends t (fun i => v i &&& 0b11 == 0b11) 25
  obtain ⟨-, hwait⟩ := hbits 5 0x4000 0b11 Bench.statusRegister
    ⟨0x4000, ⟨[0b01, 0b01, 0b11], 0⟩, .new [0xfffffffffffffff8] 10⟩
  exact ⟨htimes, hvalues, rfl, rfl, hwait v htimes hvalues⟩

end Wait
end BootHandoff
