/-
# The key that is checked is the key that is handed over

Reading the root key and checking it are two runs, each of which opens the flash, looks
for the key and maps it.  Nothing is passed from one to the other.  So that they are about
the same key rests on their looking for it in the same way, and on a flash that answers
both alike.

Both runs are a `Search`, which differ in what is done where the key lies.  Two searches
that are answered alike miss the key with the same error or find it at the same region
(`Search.agree`), and what is mapped there is what is copied and what is hashed
(`verify_of_read`).  What the hash makes of it is left to the hash: this is about
which bytes it is given.
-/

import BootHandoff.Proofs.Bench.Exact
import BootHandoff.Proofs.Platform.Alike
import BootHandoff.Proofs.RootKey.Area

namespace BootHandoff
namespace RootKey

open Bench Flash Platform

variable {n : Nat} {steps : List Step} {ρ ρ' : Type}

/-- The steps of a run that looks for the key on the flash, and what comes of it: `use`
says what may come of a key that lies at a region, `early` what comes of an error before. -/
inductive Search (use : Region → List Step → ρ → Prop) (early : Error → ρ) :
    List Step → ρ → Prop
  | unopened (e : FlashError) : Search use early [⟨.openFlash, .error e⟩] (early (.flash e))
  | missed {first : List Step} {e : Error} (rest : List Step)
      (hlocate : locate.Path first (.error (.error e))) :
      Search use early (⟨.openFlash, .ok ()⟩ :: (first ++ rest)) (early e)
  | found {first rest : List Step} {region : Region} {r : ρ}
      (hlocate : locate.Path first (.ok region)) (huse : use region rest r) :
      Search use early (⟨.openFlash, .ok ()⟩ :: (first ++ rest)) r

/-- **Two searches that are answered alike agree:** both miss the key with the same error,
or both find it at the same region and go on from there. -/
theorem Search.agree {use : Region → List Step → ρ → Prop} {early : Error → ρ}
    {use' : Region → List Step → ρ' → Prop} {early' : Error → ρ'} {steps' : List Step}
    {r : ρ} {r' : ρ'} (h : Search use early steps r) (h' : Search use' early' steps' r')
    (halike : AnsweredAlike steps steps') :
    (∃ e, r = early e ∧ r' = early' e) ∨
      ∃ first region rest rest', steps = ⟨.openFlash, .ok ()⟩ :: (first ++ rest) ∧
        locate.Path first (.ok region) ∧ AnsweredAlike rest rest' ∧ use region rest r ∧
        use' region rest' r' := by
  -- The flash opens in both or in neither; then locating the key is a common part.
  cases h with
  | unopened e =>
    cases h' with
    | unopened e' =>
      obtain rfl := Except.error.inj halike.answer_eq
      exact .inl ⟨_, rfl, rfl⟩
    | missed | found => cases halike.answer_eq
  | missed _ hlocate =>
    cases h' with
    | unopened => cases halike.answer_eq
    | missed _ hlocate' =>
      obtain ⟨rfl, ⟨⟩⟩ := halike.tail.eq_of_path hlocate hlocate'
      exact .inl ⟨_, rfl, rfl⟩
    | found hlocate' => obtain ⟨-, ⟨⟩⟩ := halike.tail.eq_of_path hlocate hlocate'
  | found hlocate huse =>
    cases h' with
    | unopened => cases halike.answer_eq
    | missed _ hlocate' => obtain ⟨-, ⟨⟩⟩ := halike.tail.eq_of_path hlocate hlocate'
    | found hlocate' huse' =>
      obtain ⟨rfl, ⟨⟩⟩ := halike.tail.eq_of_path hlocate hlocate'
      exact .inr ⟨_, _, _, _, rfl, hlocate, halike.tail.of_append, huse, huse'⟩

/-- The key at a region is mapped, and `use` says what comes of the mapping. -/
def Mapped (use : Except FlashError Bytes → ρ) (region : Region) (rest : List Step) (r : ρ) :
    Prop :=
  ∃ mapped last, rest = ⟨.mapFlash region.offset region.len, mapped⟩ :: last ∧ r = use mapped

/-- Reading is a search for a key that is copied if there is room for it. -/
theorem Reads.search {buf t : Buffer n} {result : Except (Stop Error) Nat}
    (h : Reads buf steps result t) :
    Search (fun region rest r => region.len.toNat ≤ n → Mapped (copied buf) region rest r)
      (fun e => (.error (.error e), buf)) steps (result, t) := by
  cases h with
  | unopened e => exact .unopened e
  | missed hlocate => exact .missed _ hlocate
  | refused hlocate hlen => exact .found hlocate fun hroom => absurd hroom hlen
  | mapped hlocate hlen hcopied => exact .found hlocate fun _ => ⟨_, _, rfl, hcopied⟩

/-- Checking against a digest that was provisioned is a search for a key that is
compared. -/
theorem Checks.search {hash : Bytes → Buffer 32} {expected : Buffer 32}
    {result : Except (Stop Error) Unit} (h : Checks hash expected steps result) :
    Search (Mapped fun mapped => (compared hash expected mapped).mapError .error)
      (fun e => .error (.error e)) steps result := by
  cases h with
  | unopened e => exact .unopened e
  | missed hlocate => exact .missed _ hlocate
  | mapped hlocate hlines =>
    rw [List.append_assoc]
    exact .found hlocate ⟨_, _, rfl, rfl⟩

/-- The size of the key that a header in these steps names, if they show one: the header
is at the front of what an open flash maps first. -/
def namedSize? : List Step → Option Nat
  | ⟨.openFlash, .ok ()⟩ :: ⟨.findArea _, some _⟩ :: ⟨.mapFlash _ _, .ok shown⟩ :: _ =>
    (Header.layout.readFront? shown).map fun header => header.rootKey.size.toNat
  | _ => none

/-- A key that is found has the size that the header names. -/
theorem namedSize?_of_path_locate {first : List Step} {region : Region} (rest : List Step)
    (hlocate : locate.Path first (.ok region)) :
    namedSize? (⟨.openFlash, .ok ()⟩ :: (first ++ rest)) = some region.len.toNat := by
  obtain ⟨area, shown, header, rfl, hheader, -, hregion⟩ := path_locate_ok hlocate
  rw [(Region.subrange?_eq_some_iff.1 hregion).2.2]
  exact congrArg (Option.map fun header => header.rootKey.size.toNat) hheader

/-- What is copied to the front of a buffer is what stands there then. -/
theorem take_overwrite {buf : Buffer n} {key : Bytes} (h : key.length ≤ n) :
    (buf.overwrite key).bytes.take key.length = key := by
  rw [Buffer.bytes_overwrite_of_le buf h, List.take_left]

/-- **The key that is checked is the key that is handed over,** whatever the hash.  Without a
provisioned digest nothing is checked and nothing is asked.  With one, let reading the key
and checking it be answered alike, wherever and whenever the two run, with mappings of the
lengths that reading asks for, and let there be room for the key that the header names.
Then reading does not halt; if it hands over a key, checking accepts it if it hashes to the
digest and reports a mismatch if not; and if it fails, checking fails with the same error. -/
theorem verify_of_read {σ σ' : Type} {m : Machine σ} {m' : Machine σ'} {u : σ} {u' : σ'}
    {buf : Buffer n} {hash : Bytes → Buffer 32} {expected : Buffer 32}
    (halike : AnsweredAlike ((read.on buf).run m u).steps
      ((verifyWith hash expected).run.run m' u').steps)
    (hexact : ∀ step ∈ ((read.on buf).run m u).steps, step.MapsExactly)
    (hroom : ∀ size, namedSize? ((read.on buf).run m u).steps = some size → size ≤ n) :
    let reading := ((read.on buf).run m u).value
    let checking := (verifyWith hash expected).run.run m' u'
    if expected = Buffer.zero 32 then
      checking.value = .error (.error .noExpectedDigest) ∧ checking.steps = []
    else
      (∃ size, reading.1 = .ok size ∧ checking.value =
        if hash (reading.2.bytes.take size) = expected then .ok ()
        else .error (.error .hashMismatch)) ∨
      ∃ e, reading.1 = .error (.error e) ∧ checking.value = .error (.error e) := by
  intro reading checking
  have hread := Action.path_run m read buf u
  have hverify := Firmware.path_run m' (verifyWith hash expected).run u'
  split
  · rename_i hzero
    subst hzero
    exact (path_verifyWith_zero.1 hverify).symm
  rename_i hprovisioned
  have hreading := (reads_of_path hread).search
  have hchecking := (checks_of_path hprovisioned hverify).search
  rcases hreading.agree hchecking halike with
    ⟨e, hmissed, hmissed'⟩ | ⟨first, region, rest, rest', hsteps, hlocate, hrest, hcopy, hcheck⟩
  · exact .inr ⟨e, congrArg Prod.fst hmissed, hmissed'⟩
  rw [hsteps] at hroom hexact
  have hlen : region.len.toNat ≤ n := hroom _ (namedSize?_of_path_locate rest hlocate)
  obtain ⟨mapped, last, rfl, hcopied⟩ := hcopy hlen
  obtain ⟨mapped', last', rfl, hcompared⟩ := hcheck
  obtain rfl := hrest.answer_eq
  cases mapped with
  | error e => exact .inr ⟨.flash e, congrArg Prod.fst hcopied, hcompared⟩
  | ok key =>
    have hkey : key.length = region.len.toNat :=
      hexact ⟨.mapFlash region.offset region.len, .ok key⟩ (by simp)
    have hfits : key.length ≤ n := by omega
    have hvalue : reading = (.ok key.length, buf.overwrite key) := hcopied.trans (if_pos hfits)
    have hchecked : checking.value = (compared hash expected (.ok key)).mapError .error := hcompared
    refine .inl ⟨key.length, congrArg Prod.fst hvalue, ?_⟩
    rw [hvalue, take_overwrite hfits, hchecked, compared_ok]
    split <;> rfl

/-- The hypotheses are satisfiable: a key of sixteen bytes is handed over, and passes
against its own digest by SHA-256 on the same bench. -/
theorem verify_of_read_on_bench :
    let r := Rig.withBlock 32 0
    let buf : Buffer 20 := Buffer.fill 20 0xaa
    let key : Bytes := signature.bytes ++ List.replicate 12 0
    let reading := (read.on buf).run Rig.machine r
    let checking := (verifyWith Digest.sha256 (Digest.sha256 key)).run.run Rig.machine r
    AnsweredAlike reading.steps checking.steps ∧ (∀ step ∈ reading.steps, step.MapsExactly) ∧
      (∀ size, namedSize? reading.steps = some size → size ≤ 20) ∧ reading.value.1 = .ok 16 ∧
      reading.value.2.bytes.take 16 = key ∧ checking.value = .ok () := by
  intro r buf key reading checking
  have halike : AnsweredAlike reading.steps checking.steps := answeredAlike_run _ _ _ _
  have hexact : ∀ step ∈ reading.steps, step.MapsExactly := fun step hstep =>
    (Rig.exact_of_mem_steps rfl (by rintro _ ⟨⟩; decide) hstep).mapsExactly
  have hroom : ∀ size, namedSize? reading.steps = some size → size ≤ 20 := by
    decide +kernel
  have hread : reading.value.1 = .ok 16 := by decide +kernel
  have hkey : reading.value.2.bytes.take 16 = key := by decide +kernel
  have hprovisioned : Digest.sha256 key ≠ Buffer.zero 32 := by decide +kernel
  have hchecked := (if_neg hprovisioned).mp (verify_of_read halike hexact hroom)
  -- From here on, what the runs come to stands in `hread` and `hkey`.
  generalize reading.value = handed at hread hkey hchecked ⊢
  rcases hchecked with ⟨size, hsize, hvalue⟩ | ⟨e, hfail, -⟩
  · obtain rfl : 16 = size := Except.ok.inj (hread.symm.trans hsize)
    rw [hkey, if_pos rfl] at hvalue
    exact ⟨halike, hexact, hroom, hread, hkey, hvalue⟩
  · cases hread.symm.trans hfail

end RootKey
end BootHandoff
