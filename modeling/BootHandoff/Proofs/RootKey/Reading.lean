/-
# What reading the root key finds

Looking for the key maps the front of the block's area, and what that mapping shows
decides where the key lies (`placed`).  Reading it maps the key, and what that shows
decides what is left in the buffer (`copied`).  `Reads` has the courses that this can
take, and `reads_of_path` says that there are no others.

`Shows` says of the steps in which a flash was asked for the root key that they
show one: the flash opens, its map has the block's area, a header with the right
signature stands at the front of the area, the region that the header names lies
inside the area, and a mapping of that region shows the key.  Reading succeeds
on no other steps, and then the key is at the front of the buffer; if it fails,
the buffer is as it was.
-/

import BootHandoff.Proofs.Platform.Faults
import BootHandoff.RootKey.Read

namespace BootHandoff
namespace RootKey

open Flash Platform

variable {n : Nat} {steps : List Step}

/-- Where a header puts the root key in its area. -/
def placedBy (area : Region) (header : Header) : Except Error Region :=
  if header.signature = signature then
    match area.subrange? header.rootKey.offset header.rootKey.size with
    | some region => .ok region
    | none => .error (.outOfBounds header.rootKey.offset header.rootKey.size)
  else .error .badSignature

/-- Where a mapping of the front of an area puts the root key. -/
def placed (area : Region) (mapped : Except FlashError Bytes) : Except Error Region := do
  let shown ← mapped.mapError .flash
  match Header.layout.readFront? shown with
  | some header => placedBy area header
  | none => .error (.flash (.invalidMap area.offset headerLen))

theorem placed_ok (area : Region) (shown : Bytes) :
    placed area (.ok shown) =
      if Header.layout.size ≤ shown.length then placedBy area (Header.layout.read shown)
      else .error (.flash (.invalidMap area.offset headerLen)) := by
  show (match Header.layout.readFront? shown with
    | some header => placedBy area header
    | none => .error (.flash (.invalidMap area.offset headerLen))) = _
  unfold Layout.readFront?
  by_cases h : Header.layout.size ≤ shown.length
  · rw [if_pos h, if_pos h]
  · rw [if_neg h, if_neg h]

/-- A key is placed by a header with the right signature, inside its area. -/
theorem eq_ok_of_placed {area region : Region} {mapped : Except FlashError Bytes}
    (h : placed area mapped = .ok region) :
    ∃ shown header, mapped = .ok shown ∧ Header.layout.readFront? shown = some header ∧
      header.signature = signature ∧
      area.subrange? header.rootKey.offset header.rootKey.size = some region := by
  cases mapped with
  | error e => cases h
  | ok shown =>
    change (match Header.layout.readFront? shown with
      | some header => placedBy area header
      | none => _) = _ at h
    split at h
    · rename_i header hheader
      unfold placedBy at h
      split at h
      · rename_i hsignature
        split at h
        · rename_i hregion
          obtain rfl := Except.ok.inj h
          exact ⟨shown, header, rfl, hheader, hsignature, hregion⟩
        · cases h
      · cases h
    · cases h

/-- What copying a mapping to the front of a buffer leaves. -/
def copied (buf : Buffer n) : Except FlashError Bytes → Except (Stop Error) Nat × Buffer n
  | .error e => (.error (.error (.flash e)), buf)
  | .ok key =>
    if key.length ≤ n then (.ok key.length, buf.overwrite key)
    else (.error (.halt .indexOutOfBounds), buf)

theorem copied_ok (buf : Buffer n) (key : Bytes) :
    copied buf (.ok key) =
      if key.length ≤ n then (.ok key.length, buf.overwrite key)
      else (.error (.halt .indexOutOfBounds), buf) := rfl

theorem copied_cases (buf : Buffer n) (mapped : Except FlashError Bytes) :
    (∃ key, mapped = .ok key ∧ key.length ≤ n ∧
      copied buf mapped = (.ok key.length, buf.overwrite key)) ∨
    ∃ stop, copied buf mapped = (.error stop, buf) := by
  cases mapped with
  | error e => exact .inr ⟨_, rfl⟩
  | ok key =>
    by_cases h : key.length ≤ n
    · exact .inl ⟨key, rfl, h, if_pos h⟩
    · exact .inr ⟨_, if_neg h⟩

/-- Looking for the key maps the front of the area once, and what it shows decides. -/
theorem locate_eq :
    locate = (do
      match ← Firmware.findArea areaName with
      | none => fail Error.noArea
      | some area =>
        settle ((placed area (← Firmware.mapFlash area.offset headerLen)).mapError .error)) := by
  refine congrArg (Firmware.ask (.findArea areaName)) (funext fun area? => ?_)
  cases area? with
  | none => rfl
  | some area =>
    refine congrArg (Firmware.ask (.mapFlash area.offset headerLen)) (funext fun mapped => ?_)
    cases mapped with
    | error e => rfl
    | ok shown =>
      show ((match Header.layout.readFront? shown with
          | some header => pure header
          | none => fail _ : Task Error Header) >>= _) =
        settle ((match Header.layout.readFront? shown with
          | some header => placedBy area header
          | none => .error _ : Except Error Region).mapError .error)
      cases Header.layout.readFront? shown with
      | none => rfl
      | some header =>
        show (if header.signature = signature then _ else _ : Task Error Region) =
          settle ((if header.signature = signature then _ else _ : Except Error Region).mapError _)
        split
        · cases area.subrange? header.rootKey.offset header.rootKey.size <;> rfl
        · rfl

theorem path_locate {result : Except (Stop Error) Region} (h : locate.Path steps result) :
    (steps = [⟨.findArea areaName, none⟩] ∧ result = .error (.error .noArea)) ∨
      ∃ area mapped, steps = [⟨.findArea areaName, some area⟩,
          ⟨.mapFlash area.offset headerLen, mapped⟩] ∧
        result = (placed area mapped).mapError .error := by
  rw [locate_eq] at h
  obtain ⟨area?, rest, rfl, harea⟩ := (Task.path_query_bind_iff (q := .findArea areaName)).1 h
  split at harea
  · obtain ⟨rfl, rfl⟩ := Task.path_fail_iff.1 harea
    exact .inl ⟨rfl, rfl⟩
  · rename_i area
    obtain ⟨mapped, last, rfl, hmapped⟩ :=
      (Task.path_query_bind_iff (q := .mapFlash area.offset headerLen)).1 harea
    obtain ⟨rfl, rfl⟩ := Task.path_settle_iff.1 hmapped
    exact .inr ⟨area, mapped, rfl, rfl⟩

/-- Looking for the key asks for the area, and maps the front of it. -/
theorem asks_locate {P : Query → Prop} (hfind : P (.findArea areaName))
    (hmap : ∀ offset len, P (.mapFlash offset len)) : locate.Asks P := by
  intro steps located h
  rcases path_locate h with ⟨rfl, -⟩ | ⟨area, mapped, rfl, -⟩
  · exact List.forall_mem_singleton.2 hfind
  · exact List.forall_mem_cons.2 ⟨hfind, List.forall_mem_singleton.2 (hmap _ _)⟩

/-- Looking for the key finds a region or ends with an error. -/
theorem locate_cases {located : Except (Stop Error) Region} (h : locate.Path steps located) :
    (∃ region, located = .ok region) ∨ ∃ e, located = .error (.error e) := by
  rcases path_locate h with ⟨-, rfl⟩ | ⟨area, mapped, -, rfl⟩
  · exact .inr ⟨_, rfl⟩
  · cases placed area mapped with
    | ok region => exact .inl ⟨region, rfl⟩
    | error e => exact .inr ⟨e, rfl⟩

/-- Copying maps the key once, and what it shows decides. -/
theorem path_copied {region : Region} {buf t : Buffer n} {result : Except (Stop Error) Nat}
    (h : Action.Path (do
      let key ← accept Error.flash (← Firmware.mapFlash region.offset region.len)
      if key.length ≤ n then
        modify fun buf : Buffer n => buf.overwrite key
        return key.length
      else halt .indexOutOfBounds) buf steps result t) :
    ∃ mapped, steps = [⟨.mapFlash region.offset region.len, mapped⟩] ∧
      (result, t) = copied buf mapped := by
  obtain ⟨mapped, rest, rfl, hmapped⟩ :=
    (Action.path_query_bind_iff (q := .mapFlash region.offset region.len)).1 h
  rcases Action.path_accept_bind_iff.1 hmapped with ⟨key, rfl, hkey⟩ | ⟨e, rfl, rfl, rfl, rfl⟩
  · unfold copied
    split at hkey
    · rename_i hroom
      replace hkey := Action.path_modify_bind_iff.1 hkey
      obtain ⟨rfl, rfl, rfl⟩ := Action.path_pure_iff.1 hkey
      exact ⟨_, rfl, (if_pos hroom).symm⟩
    · rename_i hroom
      obtain ⟨rfl, rfl, rfl⟩ := Action.path_halt_iff.1 hkey
      exact ⟨_, rfl, (if_neg hroom).symm⟩
  · exact ⟨_, rfl, rfl⟩

/-- The courses that reading the root key can take: the steps of each, how it ends, and the
buffer then. -/
inductive Reads (buf : Buffer n) : List Step → Except (Stop Error) Nat → Buffer n → Prop where
  | unopened (e : FlashError) :
      Reads buf [⟨.openFlash, .error e⟩] (.error (.error (.flash e))) buf
  | missed {first : List Step} {e : Error} (hlocate : locate.Path first (.error (.error e))) :
      Reads buf (⟨.openFlash, .ok ()⟩ :: (first ++ [⟨.closeFlash, ()⟩])) (.error (.error e)) buf
  | refused {first : List Step} {region : Region} (hlocate : locate.Path first (.ok region))
      (hlen : ¬region.len.toNat ≤ n) :
      Reads buf (⟨.openFlash, .ok ()⟩ :: (first ++ [⟨.closeFlash, ()⟩]))
        (.error (.error (.tooLarge region.len n))) buf
  | mapped {first : List Step} {region : Region} {mapped : Except FlashError Bytes}
      {result : Except (Stop Error) Nat} {t : Buffer n} (hlocate : locate.Path first (.ok region))
      (hlen : region.len.toNat ≤ n) (hcopied : (result, t) = copied buf mapped) :
      Reads buf (⟨.openFlash, .ok ()⟩ ::
        (first ++ [⟨.mapFlash region.offset region.len, mapped⟩, ⟨.closeFlash, ()⟩])) result t

/-- **Reading takes one of these courses.** -/
theorem reads_of_path {buf t : Buffer n} {result : Except (Stop Error) Nat}
    (h : (read : Action (Buffer n) Error Nat).Path buf steps result t) :
    Reads buf steps result t := by
  rcases path_session_iff.1 h with ⟨e, rfl, rfl, rfl⟩ | ⟨inner, rfl, hinner⟩
  · exact .unopened e
  rcases Action.path_task_bind_iff.1 hinner with
    ⟨first, rest, region, rfl, hlocate, hroom⟩ | ⟨stop, hlocate, rfl, rfl⟩
  · split at hroom
    · rename_i hlen
      obtain ⟨mapped, rfl, hcopied⟩ := path_copied hroom
      rw [List.append_assoc]
      exact .mapped hlocate hlen hcopied
    · rename_i hlen
      obtain ⟨rfl, rfl, rfl⟩ := Action.path_fail_iff.1 hroom
      rw [List.append_nil]
      exact .refused hlocate hlen
  · obtain ⟨_, ⟨⟩⟩ | ⟨e, ⟨⟩⟩ := locate_cases hlocate
    exact .missed hlocate

/-- In these steps a flash shows `key`, which lies at `region`, as the root key. -/
def Shows (steps : List Step) (region : Region) (key : Bytes) : Prop :=
  ∃ area shown header,
    steps = [⟨.openFlash, .ok ()⟩, ⟨.findArea "GBB", some area⟩,
      ⟨.mapFlash area.offset 128, .ok shown⟩, ⟨.mapFlash region.offset region.len, .ok key⟩,
      ⟨.closeFlash, ()⟩] ∧
    Header.layout.readFront? shown = some header ∧ header.signature = signature ∧
    area.subrange? header.rootKey.offset header.rootKey.size = some region

theorem path_locate_ok {region : Region} (h : locate.Path steps (.ok region)) :
    ∃ area shown header,
      steps = [⟨.findArea areaName, some area⟩, ⟨.mapFlash area.offset headerLen, .ok shown⟩] ∧
      Header.layout.readFront? shown = some header ∧ header.signature = signature ∧
      area.subrange? header.rootKey.offset header.rootKey.size = some region := by
  rcases path_locate h with ⟨-, ⟨⟩⟩ | ⟨area, mapped, rfl, hend⟩
  obtain ⟨shown, header, rfl, hheader, hsignature, hregion⟩ :=
    eq_ok_of_placed (mapError_eq_ok_iff.1 hend.symm)
  exact ⟨area, shown, header, rfl, hheader, hsignature, hregion⟩

/-- **What reading the root key finds.** -/
theorem path_read {buf t : Buffer n} {result : Except (Stop Error) Nat}
    (h : (read : Action (Buffer n) Error Nat).Path buf steps result t) :
    (∃ region key, Shows steps region key ∧ key.length ≤ n ∧ result = .ok key.length ∧
      t = buf.overwrite key) ∨
    ∃ stop, result = .error stop ∧ t = buf := by
  cases reads_of_path h with
  | unopened | missed | refused => exact .inr ⟨_, rfl, rfl⟩
  | @mapped first region mapped _ _ hlocate hlen hcopied =>
    obtain ⟨area, shown, header, rfl, hheader, hsignature, hregion⟩ := path_locate_ok hlocate
    rcases copied_cases buf mapped with ⟨key, rfl, hle, hend⟩ | ⟨stop, hend⟩
    · obtain ⟨rfl, rfl⟩ := Prod.mk.inj (hcopied.trans hend)
      exact .inl ⟨region, key, ⟨area, shown, header, rfl, hheader, hsignature, hregion⟩, hle, rfl,
        rfl⟩
    · obtain ⟨rfl, rfl⟩ := Prod.mk.inj (hcopied.trans hend)
      exact .inr ⟨stop, rfl, rfl⟩

/-- A flash whose mappings are exact shows the whole region of the key, and
nothing else. -/
theorem Shows.length_eq {region : Region} {key : Bytes} (h : Shows steps region key)
    (hexact : ∀ step ∈ steps, step.MapsExactly) : key.length = region.len.toNat := by
  obtain ⟨area, shown, header, rfl, -⟩ := h
  exact hexact ⟨.mapFlash region.offset region.len, .ok key⟩ (by simp)

end RootKey
end BootHandoff
