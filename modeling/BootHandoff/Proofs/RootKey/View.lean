/-
# The root key as a function of the flash

Checking the root key takes one of a few courses, as reading it does: `Checks` has
them, and `checks_of_path` says that there are no others.

What the code for the root key sees of a flash is whether it opens, the area that
its map has for the block, and what its mappings show.  A `View` is these three,
for a flash that gives the same answers for as long as it is looked at.

On such a flash nothing else decides what the code does.  Where the key lies, what
reading it leaves in the buffer and whether it is the expected one are functions of
the view, and every path whose steps the view answers ends as they say
(`path_read`, `path_verifyWith`).
-/

import BootHandoff.Proofs.RootKey.Reading

namespace BootHandoff
namespace RootKey

open Flash Platform

variable {hash : Bytes → Buffer 32} {n : Nat} {steps : List Step}

/-- What comparing a mapping with a digest says. -/
def compared (hash : Bytes → Buffer 32) (expected : Buffer 32)
    (mapped : Except FlashError Bytes) : Except Error Unit := do
  let key ← mapped.mapError .flash
  if hash key = expected then .ok () else .error .hashMismatch

theorem compared_ok (hash : Bytes → Buffer 32) (expected : Buffer 32) (key : Bytes) :
    compared hash expected (.ok key) =
      if hash key = expected then .ok () else .error .hashMismatch := rfl

/-- Comparing maps the key once, and what it shows decides; the rest is for the log. -/
theorem path_compared {region : Region} {expected : Buffer 32} {result : Except (Stop Error) Unit}
    (h : Task.Path (do
      let key ← accept Error.flash (← Firmware.mapFlash region.offset region.len)
      if hash key = expected then
        Firmware.log .info "root key hash compare successful"
      else
        Firmware.log .error "root key hash compare failed"
        fail Error.hashMismatch : Task Error Unit) steps result) :
    ∃ mapped lines, steps = ⟨.mapFlash region.offset region.len, mapped⟩ :: lines ∧
      (∀ step ∈ lines, ∃ level text, step.query = .log level text) ∧
      result = (compared hash expected mapped).mapError .error := by
  obtain ⟨mapped, rest, rfl, hmapped⟩ :=
    (Task.path_query_bind_iff (q := .mapFlash region.offset region.len)).1 h
  refine ⟨mapped, rest, rfl, ?_⟩
  rcases Task.path_accept_bind_iff.1 hmapped with ⟨key, rfl, hkey⟩ | ⟨e, rfl, rfl, rfl⟩
  · rw [compared_ok]
    split at hkey
    · rename_i hequal
      obtain ⟨⟨⟩, rfl, rfl⟩ := (Task.path_query_iff (q := .log _ _)).1 hkey
      rw [if_pos hequal]
      exact ⟨List.forall_mem_singleton.2 ⟨_, _, rfl⟩, rfl⟩
    · rename_i hother
      obtain ⟨-, last, rfl, hfail⟩ := (Task.path_query_bind_iff (q := .log _ _)).1 hkey
      obtain ⟨rfl, rfl⟩ := Task.path_fail_iff.1 hfail
      rw [if_neg hother]
      exact ⟨List.forall_mem_singleton.2 ⟨_, _, rfl⟩, rfl⟩
  · exact ⟨List.forall_mem_nil _, rfl⟩

/-- The courses that checking the root key against a provisioned digest can take: the
steps of each, and how it ends. -/
inductive Checks (hash : Bytes → Buffer 32) (expected : Buffer 32) :
    List Step → Except (Stop Error) Unit → Prop where
  | unopened (e : FlashError) :
      Checks hash expected [⟨.openFlash, .error e⟩] (.error (.error (.flash e)))
  | missed {first : List Step} {e : Error} (hlocate : locate.Path first (.error (.error e))) :
      Checks hash expected (⟨.openFlash, .ok ()⟩ :: (first ++ [⟨.closeFlash, ()⟩]))
        (.error (.error e))
  | mapped {first lines : List Step} {region : Region} {mapped : Except FlashError Bytes}
      (hlocate : locate.Path first (.ok region))
      (hlines : ∀ step ∈ lines, ∃ level text, step.query = .log level text) :
      Checks hash expected (⟨.openFlash, .ok ()⟩ ::
        (first ++ ⟨.mapFlash region.offset region.len, mapped⟩ :: lines ++ [⟨.closeFlash, ()⟩]))
        ((compared hash expected mapped).mapError .error)

/-- Without a provisioned digest checking asks nothing. -/
theorem path_verifyWith_zero {result : Except (Stop Error) Unit} :
    (verifyWith hash (Buffer.zero 32)).Path steps result ↔
      steps = [] ∧ result = .error (.error .noExpectedDigest) := by
  have hrefused : verifyWith hash (Buffer.zero 32) = fail Error.noExpectedDigest := if_pos rfl
  rw [hrefused]
  exact Task.path_fail_iff

/-- **Checking against a provisioned digest takes one of these courses.** -/
theorem checks_of_path {expected : Buffer 32} {result : Except (Stop Error) Unit}
    (hprovisioned : expected ≠ Buffer.zero 32) (h : (verifyWith hash expected).Path steps result) :
    Checks hash expected steps result := by
  unfold verifyWith at h
  rw [if_neg hprovisioned] at h
  rcases path_task_session h with ⟨e, rfl, rfl⟩ | ⟨inner, rfl, hinner⟩
  · exact .unopened e
  rcases Task.path_bind_iff.1 hinner with
    ⟨first, rest, region, rfl, hlocate, hkey⟩ | ⟨stop, hlocate, rfl⟩
  · obtain ⟨mapped, lines, rfl, hlines, rfl⟩ := path_compared hkey
    exact .mapped hlocate hlines
  · obtain ⟨_, ⟨⟩⟩ | ⟨e, ⟨⟩⟩ := locate_cases hlocate
    exact .missed hlocate

/-- A flash as the code for the root key sees it, with the same answers for as long
as it is looked at. -/
structure View where
  opening : Except FlashError Unit
  /-- The area of the block in the flash map. -/
  area? : Option Region
  /-- What a mapping of a range shows. -/
  map : UInt32 → UInt32 → Except FlashError Bytes

namespace View

variable {v : View}

/-- The answer in a step is that of the flash, as far as the flash is asked. -/
def Answers (v : View) : Step → Prop
  | ⟨.openFlash, answer⟩ => answer = v.opening
  | ⟨.findArea name, answer⟩ => name = areaName → answer = v.area?
  | ⟨.mapFlash offset len, answer⟩ => answer = v.map offset len
  | _ => True

/-- Where the key lies on the open flash. -/
def locate (v : View) : Except Error Region :=
  match v.area? with
  | none => .error .noArea
  | some area => placed area (v.map area.offset headerLen)

/-- Where the key lies on the flash. -/
def region (v : View) : Except Error Region := do
  v.opening.mapError .flash
  v.locate

/-- What reading the key leaves. -/
def read (v : View) (buf : Buffer n) : Except (Stop Error) Nat × Buffer n :=
  match v.region with
  | .error e => (.error (.error e), buf)
  | .ok region =>
    if region.len.toNat ≤ n then copied buf (v.map region.offset region.len)
    else (.error (.error (.tooLarge region.len n)), buf)

/-- What checking the key says. -/
def verify (v : View) (hash : Bytes → Buffer 32) (expected : Buffer 32) : Except Error Unit :=
  if expected = Buffer.zero 32 then .error .noExpectedDigest
  else do
    let region ← v.region
    compared hash expected (v.map region.offset region.len)

/-- The front of the block's area was mapped, if the flash opened and has one. -/
def HeaderAsked (v : View) (steps : List Step) : Prop :=
  v.opening = .ok () → ∀ area, v.area? = some area →
    ∃ mapped, (⟨.mapFlash area.offset headerLen, mapped⟩ : Step) ∈ steps

theorem locate_of_none (h : v.area? = none) : v.locate = .error .noArea := by rw [locate, h]

theorem locate_of_some {area : Region} (h : v.area? = some area) :
    v.locate = placed area (v.map area.offset headerLen) := by rw [locate, h]

theorem region_of_opening_error {e : FlashError} (h : v.opening = .error e) :
    v.region = .error (.flash e) := by
  rw [region, h]
  rfl

theorem region_of_opening_ok (h : v.opening = .ok ()) : v.region = v.locate := by
  rw [region, h]
  rfl

theorem headerAsked_of_opening_error {e : FlashError} (h : v.opening = .error e) :
    v.HeaderAsked steps := fun hok => by
  rw [h] at hok
  cases hok

theorem HeaderAsked.mono {inner : List Step} (h : v.HeaderAsked inner)
    (hsub : ∀ step ∈ inner, step ∈ steps) : v.HeaderAsked steps := fun hok area harea => by
  obtain ⟨mapped, hmem⟩ := h hok area harea
  exact ⟨mapped, hsub _ hmem⟩

theorem path_locate {result : Except (Stop Error) Region} (hv : ∀ step ∈ steps, v.Answers step)
    (h : RootKey.locate.Path steps result) :
    result = v.locate.mapError .error ∧ v.HeaderAsked steps := by
  rcases RootKey.path_locate h with ⟨rfl, rfl⟩ | ⟨area, mapped, rfl, rfl⟩
  · have harea : v.area? = none := (hv _ List.mem_cons_self rfl).symm
    refine ⟨by rw [locate_of_none harea]; rfl, fun _ area hsome => ?_⟩
    rw [harea] at hsome
    cases hsome
  · have harea : v.area? = some area := (hv _ List.mem_cons_self rfl).symm
    have hmem := List.mem_cons_of_mem (⟨.findArea areaName, some area⟩ : Step)
      (List.mem_singleton_self (⟨.mapFlash area.offset headerLen, mapped⟩ : Step))
    have hmapped : mapped = v.map area.offset headerLen := hv _ hmem
    refine ⟨by rw [locate_of_some harea, hmapped], fun _ area' hsome => ?_⟩
    obtain rfl := Option.some.inj (harea.symm.trans hsome)
    exact ⟨mapped, hmem⟩

/-- Once the flash is open, where the key lies is decided by what locating it asks. -/
theorem region_of_path_locate {first rest : List Step} (located : Except Error Region)
    (hv : ∀ step ∈ ⟨.openFlash, .ok ()⟩ :: (first ++ rest), v.Answers step)
    (h : RootKey.locate.Path first (located.mapError .error)) :
    v.region = located ∧ v.HeaderAsked (⟨.openFlash, .ok ()⟩ :: (first ++ rest)) := by
  obtain ⟨hopening, hrest⟩ := List.forall_mem_cons.1 hv
  obtain ⟨hplace, hasked⟩ := path_locate (List.forall_mem_append.1 hrest).1 h
  rw [region_of_opening_ok hopening.symm]
  refine ⟨mapError_error_injective hplace.symm, hasked.mono fun step hstep => ?_⟩
  exact List.mem_cons_of_mem _ (List.mem_append_left _ hstep)

/-- **What reading the key does is a function of the view.** -/
theorem path_read {buf t : Buffer n} {result : Except (Stop Error) Nat}
    (hv : ∀ step ∈ steps, v.Answers step)
    (h : (RootKey.read : Action (Buffer n) Error Nat).Path buf steps result t) :
    (result, t) = v.read buf ∧ v.HeaderAsked steps := by
  unfold read
  cases reads_of_path h with
  | unopened e =>
    have hopening : v.opening = .error e := (hv _ List.mem_cons_self).symm
    rw [region_of_opening_error hopening]
    exact ⟨rfl, headerAsked_of_opening_error hopening⟩
  | @missed first e hlocate =>
    obtain ⟨hregion, hasked⟩ := region_of_path_locate (.error e) hv hlocate
    rw [hregion]
    exact ⟨rfl, hasked⟩
  | @refused first region hlocate hlen =>
    obtain ⟨hregion, hasked⟩ := region_of_path_locate (.ok region) hv hlocate
    rw [hregion]
    exact ⟨(if_neg hlen).symm, hasked⟩
  | @mapped first region mapped _ _ hlocate hlen hcopied =>
    obtain ⟨hregion, hasked⟩ := region_of_path_locate (.ok region) hv hlocate
    have hmapped : mapped = v.map region.offset region.len :=
      hv ⟨.mapFlash region.offset region.len, mapped⟩ (by simp)
    rw [hregion]
    refine ⟨?_, hasked⟩
    simp only
    rw [if_pos hlen, ← hmapped, hcopied]

/-- **What checking the key says is a function of the view.** -/
theorem path_verifyWith {expected : Buffer 32} {result : Except (Stop Error) Unit}
    (hv : ∀ step ∈ steps, v.Answers step)
    (h : (RootKey.verifyWith hash expected).Path steps result) :
    result = (v.verify hash expected).mapError .error := by
  unfold verify
  split
  · rename_i hzero
    subst hzero
    obtain ⟨-, rfl⟩ := path_verifyWith_zero.1 h
    rfl
  rename_i hprovisioned
  cases checks_of_path hprovisioned h with
  | unopened e =>
    have hopening : v.opening = .error e := (hv _ List.mem_cons_self).symm
    rw [region_of_opening_error hopening]
    rfl
  | @missed first e hlocate =>
    rw [(region_of_path_locate (.error e) hv hlocate).1]
    rfl
  | @mapped first lines region mapped hlocate hlines =>
    have hmapped : mapped = v.map region.offset region.len :=
      hv ⟨.mapFlash region.offset region.len, mapped⟩ (by simp)
    rw [List.append_assoc] at hv
    rw [(region_of_path_locate (.ok region) hv hlocate).1, hmapped]
    rfl

/-- Views that place the key alike, and show the same there, say the same. -/
theorem congr {v v' : View} (hregion : v.region = v'.region)
    (hmap : ∀ region, v.region = .ok region →
      v.map region.offset region.len = v'.map region.offset region.len)
    (buf : Buffer n) (hash : Bytes → Buffer 32) (expected : Buffer 32) :
    v.read buf = v'.read buf ∧ v.verify hash expected = v'.verify hash expected := by
  unfold read verify
  rw [← hregion]
  cases hplace : v.region with
  | error e => exact ⟨rfl, rfl⟩
  | ok region =>
    have hkey := hmap region hplace
    constructor
    · simp only [hkey]
    · show (if _ then _ else compared _ _ _) = if _ then _ else compared _ _ _
      rw [hkey]

end View
end RootKey
end BootHandoff
