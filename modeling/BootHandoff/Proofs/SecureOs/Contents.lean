/-
# What a filled boot block holds

A block that was filled has nothing in it but what the platform answered to this
filling: `Contents` says of every field where it comes from.  A secret that is
to be had stands at the front of its area with zeros behind it, and its size
says how many bytes it has; in the place of one that is not there are zeros, and
its size is zero (`Holds`).

Whether a secret is to be had is said in terms of the platform and not of
filling: the root key is if reading it into an area of its own succeeds at that
moment, the key store if the value that the product data has for it is `Valid`.
-/

import BootHandoff.Proofs.Bench.Exact
import BootHandoff.Proofs.SecureOs.Course

namespace BootHandoff
namespace SecureOs

open Bench Board Memory Platform

/-- A secret at the front of its area, with zeros behind it, and its size. -/
structure Holds {n : Nat} (area : Buffer n) (size : UInt32) (secret : Bytes) : Prop where
  fits : secret.length ≤ n
  size_eq : size.toNat = secret.length
  bytes_eq : area.bytes = secret ++ List.replicate (n - secret.length) 0

theorem Holds.size_le {n : Nat} {area : Buffer n} {size : UInt32} {secret : Bytes}
    (h : Holds area size secret) : size.toNat ≤ n :=
  h.size_eq ▸ h.fits

theorem holds_ofFront {n : Nat} {secret : Bytes} (hn : n < 2 ^ 32) (hfits : secret.length ≤ n) :
    Holds (Buffer.ofFront n secret) (UInt32.ofNat secret.length) secret where
  fits := hfits
  size_eq := by
    have hlt : secret.length < 2 ^ 32 := Nat.lt_of_le_of_lt hfits hn
    rw [UInt32.toNat_ofNat', Nat.mod_eq_of_lt hlt]
  bytes_eq := Buffer.bytes_ofFront_of_le hfits

theorem holds_zero (n : Nat) : Holds (Buffer.zero n) 0 [] :=
  ⟨Nat.zero_le n, rfl, rfl⟩

section

variable {σ : Type} {m : Machine σ} {u : σ}

/-- What a block holds that was filled in these steps, on a platform that was in
the state `u` before them. -/
structure Contents (m : Machine σ) (u : σ) (config : BootConfig) (steps : List Step)
    (b : BootBlock) : Prop where
  fixed : b.version = 1 ∧ b.uart = config.uart.number ∧ b.deviceTree = 0 ∧
    b.padding₀ = Buffer.zero 3 ∧ b.padding₁ = Buffer.zero 4
  /-- The id is what reading it gives once the trusted carveout is known. -/
  chipId : ((ChipId.readUid : Task BootError _).run.run m (m.respond (.carveout .tz) u).2).value =
    .ok b.chipId
  /-- The rest of what the drivers were asked in these steps is in the block. -/
  drivers : ∃ tz below above? tsec unlocked,
    Part.drivers.history steps = [⟨.carveout .tz, .ok tz⟩, ⟨.memoryBelow4G, .ok below⟩,
      ⟨.memoryAbove4G, .ok above?⟩, ⟨.carveout .tsec, .ok tsec⟩, ⟨.developerMode, unlocked⟩] ∧
    b.primaryBase = below.base ∧ b.primarySize = below.size ∧
    b.extendedBase = above?.elim 0 MibRange.base ∧ b.extendedSize = above?.elim 0 MibRange.size ∧
    b.tsecBase = tsec.base ∧ b.tsecSize = tsec.size ∧ b.unlocked = if unlocked then 1 else 0
  /-- All that the flash was asked is to read the root key, and the block has what
  reading it into an area of the same size gives there. -/
  rootKey : ∃ before,
    let reading := keyReading m (m.after u before)
    before ++ reading.steps <+: steps ∧ Part.flash.history steps = reading.steps ∧
    (∀ size, reading.value.1 = .ok size → ∃ region key, RootKey.Shows reading.steps region key ∧
      key.length = region.len.toNat ∧ size = key.length ∧ Holds b.rootKey b.rootKeySize key) ∧
    ∀ stop, reading.value.1 = .error stop → Holds b.rootKey b.rootKeySize []
  /-- All that the product data was asked is its value for the key store. -/
  keyStore : ∃ value?,
    Part.productData.history steps = [⟨.productData "eks", value?⟩] ∧
    (∀ text, value? = some text → KeyStore.Valid 2048 text →
      ∃ bytes, KeyStore.Spells text bytes ∧ Holds b.keyStore b.keyStoreSize bytes) ∧
    ((∀ text, value? = some text → ¬KeyStore.Valid 2048 text) → Holds b.keyStore b.keyStoreSize [])

variable {decoder : KeyStore.Decoder} {place : UInt64} {config : BootConfig}
  {args : Abi.ArgRegs} {steps : List Step} {t : Filling}

/-- What is in the place of the root key after reading it. -/
theorem holds_rootKey {b : BootBlock} {key? : Except RootKey.Error Nat} {key : Buffer 4096}
    (h : RootKey.read.Path (Buffer.zero 4096) steps (key?.mapError .error) key)
    (hexact : ∀ step ∈ steps, step.MapsExactly) :
    (∀ size, key? = .ok size → ∃ region bytes, RootKey.Shows steps region bytes ∧
      bytes.length = region.len.toNat ∧ size = bytes.length ∧
      Holds (b.withRootKey key? key).rootKey (b.withRootKey key? key).rootKeySize bytes) ∧
    ∀ e, key? = .error e →
      Holds (b.withRootKey key? key).rootKey (b.withRootKey key? key).rootKeySize [] := by
  constructor
  · rintro size rfl
    rcases RootKey.path_read h with ⟨region, bytes, hshows, hfits, hsize, rfl⟩ | ⟨_, ⟨⟩, -⟩
    obtain rfl : size = bytes.length := Except.ok.inj hsize
    exact ⟨region, bytes, hshows, hshows.length_eq hexact, rfl, holds_ofFront (by decide) hfits⟩
  · rintro e rfl
    exact holds_zero 4096

/-- What is in the place of the key store after reading it. -/
theorem holds_keyStore (hlawful : decoder.Lawful) {b : BootBlock}
    {store? : Except KeyStore.Error Nat} {store : Buffer 2048}
    (h : (KeyStore.read decoder).Path (Buffer.zero 2048) steps
      (store?.mapError .error) store) :
    ∃ value?, Part.productData.history steps = [⟨.productData "eks", value?⟩] ∧
      (∀ text, value? = some text → KeyStore.Valid 2048 text →
        ∃ bytes, KeyStore.Spells text bytes ∧
          Holds (b.withKeyStore store? store).keyStore (b.withKeyStore store? store).keyStoreSize
            bytes) ∧
      ((∀ text, value? = some text → ¬KeyStore.Valid 2048 text) →
        Holds (b.withKeyStore store? store).keyStore (b.withKeyStore store? store).keyStoreSize
          []) := by
  rcases hlawful.path_read h with
    ⟨text, bytes, rfl, hvalid, hspells, hok, rfl⟩ |
    ⟨value?, level, line, e, rfl, hinvalid, herror, rfl⟩
  · obtain rfl : store? = .ok bytes.length := mapError_eq_ok_iff.1 hok
    have hfits : bytes.length ≤ 2048 := by
      have hlength := hspells.length_eq
      have hdigits := hvalid.1
      omega
    refine ⟨some text, rfl, ?_, fun hno => absurd hvalid (hno text rfl)⟩
    rintro _ ⟨⟩ -
    exact ⟨bytes, hspells, holds_ofFront (by decide) hfits⟩
  · cases store? with
    | ok size => cases herror
    | error e' =>
      refine ⟨value?, rfl, ?_, fun _ => holds_zero 2048⟩
      intro text htext hvalid
      exact absurd hvalid (hinvalid text htext)

/-- **A block that was filled in these steps holds what the platform answered in
them.** -/
theorem Fills.contents (hlawful : decoder.Lawful)
    (h : Fills decoder place config args steps (.ok ()) t) (hanswers : m.Answers u steps)
    (hexact : ∀ step ∈ steps, step.MapsExactly) : Contents m u config steps t.block := by
  cases h with
  | @complete tz stop base identifying surveying forKey forStore uid block key? store? key store
      hbounds hid hsurvey hkey hstore =>
    obtain ⟨-, hrest⟩ := hanswers
    obtain ⟨hforId, hrest⟩ := Machine.answers_append.1 hrest
    obtain ⟨-, hrest⟩ := Machine.answers_append.1 hrest
    obtain ⟨hforKey, -⟩ := Machine.answers_append.1 (Machine.answers_append.1 hrest).1
    have hshares := history_completing place tz ((block.withRootKey key? key).withKeyStore store?
      store) hid hsurvey hkey hstore
    refine ⟨?fixed, ?chipId, ?drivers, ?rootKey, ?keyStore⟩
    case fixed =>
      cases hsurvey
      exact ⟨rfl, rfl, rfl, rfl, rfl⟩
    case chipId =>
      rw [Firmware.run_eq_of_path hid hforId]
      cases hsurvey
      rfl
    case drivers =>
      cases hsurvey with
      | complete below above? tsec unlocked =>
        exact ⟨tz, below, above?, tsec, unlocked, hshares .drivers, rfl, rfl, rfl, rfl, rfl, rfl,
          rfl⟩
    case rootKey =>
      obtain ⟨hshown, hhidden⟩ := holds_rootKey (b := block) hkey fun step hstep =>
        hexact step (by simp [completing, hstep])
      have hreading : keyReading m
          (m.after u (⟨.carveout .tz, .ok tz⟩ :: (identifying ++ surveying))) = _ :=
        Machine.after_append ▸ Firmware.run_eq_of_path hkey hforKey
      refine ⟨⟨.carveout .tz, .ok tz⟩ :: (identifying ++ surveying), ?_⟩
      rw [hreading]
      refine ⟨⟨rootKeyLines key? ++ _, by simp [completing]; rfl⟩, hshares .flash, ?_, ?_⟩
      · exact fun size hsize => hshown size (mapError_eq_ok_iff.1 hsize)
      · intro stop hstop
        cases key? with
        | ok size => cases hstop
        | error e => exact hhidden e rfl
    case keyStore =>
      obtain ⟨value?, hvalue, hvalid, hinvalid⟩ :=
        holds_keyStore hlawful (b := block.withRootKey key? key) hstore
      exact ⟨value?, (hshares .productData).trans hvalue, hvalid, hinvalid⟩

theorem Contents.sizes {b : BootBlock} (h : Contents m u config steps b) :
    b.rootKeySize.toNat ≤ 4096 ∧ b.keyStoreSize.toNat ≤ 2048 := by
  obtain ⟨before, -, -, hshown, hhidden⟩ := h.rootKey
  obtain ⟨value?, -, hvalid, hinvalid⟩ := h.keyStore
  constructor
  · cases hread : (keyReading m (m.after u before)).value.1 with
    | ok size =>
      obtain ⟨region, key, -, -, -, hholds⟩ := hshown size hread
      exact hholds.size_le
    | error stop => exact (hhidden stop hread).size_le
  · by_cases hexists : ∃ text, value? = some text ∧ KeyStore.Valid 2048 text
    · obtain ⟨text, htext, htextValid⟩ := hexists
      obtain ⟨bytes, -, hholds⟩ := hvalid text htext htextValid
      exact hholds.size_le
    · exact (hinvalid fun text htext htextValid => hexists ⟨text, htext, htextValid⟩).size_le

/-- **Every field of a filled block is accounted for.**  Whatever the block and
the arguments held before, after a filling that succeeds the block holds what
the platform answered to this filling, its sizes stay within the areas, and the
arguments from the fifth on are as they were; all of this with any decoder of the
key store that can be relied on. -/
theorem contents_of_fill (hlawful : decoder.Lawful) (m : Machine σ) (u : σ) (s : Filling)
    (place : UInt64) (config : BootConfig) :
    let r := ((fill decoder place config).on s).run m u
    (∀ step ∈ r.steps, step.MapsExactly) → r.value.1 = .ok () →
    let b := r.value.2.block
    let args := r.value.2.args
    Contents m u config r.steps b ∧ b.rootKeySize.toNat ≤ 4096 ∧ b.keyStoreSize.toNat ≤ 2048 ∧
      args.x4 = s.args.x4 ∧ args.x5 = s.args.x5 ∧ args.x6 = s.args.x6 ∧ args.x7 = s.args.x7 := by
  intro r hexact hok b args
  have hfills := path_iff_fills.1 (Action.path_run m (fill decoder place config) s u)
  rw [show (((fill decoder place config).on s).run m u).value.1 = .ok () from hok] at hfills
  have hcontents : Contents m u config r.steps b :=
    hfills.contents hlawful (Firmware.answers_run m _ u) hexact
  obtain ⟨room, hargs⟩ := hfills.args_eq
  rw [show args = _ from hargs]
  exact ⟨hcontents, hcontents.sizes.1, hcontents.sizes.2, rfl, rfl, rfl, rfl⟩

/-- The hypotheses are satisfiable: on a bench with both secrets, every mapping
of the flash is exact and filling succeeds, and the sizes are those of the two
secrets. -/
theorem contents_of_fill_on_bench :
    let s : Filling := ⟨.zero, .zero⟩
    let rig := Rig.provisioned (Bytes.ofText "abc") "0a0B"
    let r := ((fill KeyStore.decodeOver 0x4000 (Rig.config false)).on s).run Rig.machine rig
    (∀ step ∈ r.steps, step.MapsExactly) ∧ r.value.1 = .ok () ∧
      Contents Rig.machine rig (Rig.config false) r.steps r.value.2.block ∧
      r.value.2.block.rootKeySize = 3 ∧ r.value.2.block.keyStoreSize = 2 := by
  intro s rig r
  have hexact : ∀ step ∈ r.steps, step.MapsExactly := fun step hstep => by
    refine (Rig.exact_of_mem_steps rfl ?_ hstep).mapsExactly
    rintro _ ⟨⟩
    decide
  have hok : r.value.1 = .ok () := by
    unfold r rig s
    decide +kernel
  obtain ⟨hcontents, -⟩ := contents_of_fill KeyStore.lawful_decodeOver Rig.machine rig s
    0x4000 (Rig.config false) hexact hok
  have hkey : r.value.2.block.rootKeySize = 3 := by
    unfold r rig s
    decide +kernel
  have hstore : r.value.2.block.keyStoreSize = 2 := by
    unfold r rig s
    decide +kernel
  unfold r at *
  exact ⟨hexact, hok, hcontents, hkey, hstore⟩

end

end SecureOs
end BootHandoff
