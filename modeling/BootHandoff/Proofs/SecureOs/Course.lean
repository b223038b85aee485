/-
# The courses that filling can take

Filling stops at the trusted carveout, at the memory layout or over a mapping
that is longer than asked, or it completes.  `Fills` has each of these courses
with its steps, its end and the block it leaves, put together from what the
parts of filling enter into the block.  `path_iff_fills` says that there are no
others and that each of them can be taken.

No course mentions what the block held before, and none looks at the
arguments of the secure OS.  The decoder of the key store may be any here: whether
it can be relied on only matters for what a block then holds of the key store.
-/

import BootHandoff.Proofs.ChipId.Packing
import BootHandoff.Proofs.KeyStore.Reading
import BootHandoff.Proofs.RootKey.Reading
import BootHandoff.Proofs.SecureOs.Filling

namespace BootHandoff

open Board Memory Platform

theorem ChipId.path_readUid {ε : Type} {steps : List Step} {result : Except (Stop ε) Uid}
    (h : (readUid : Task ε Uid).Path steps result) : ∃ uid, result = .ok uid := by
  obtain ⟨first, rest, fuses, rfl, -, hpack⟩ := Task.path_lift_bind_iff.1 h
  obtain ⟨-, hend⟩ := Task.path_check_iff.1 hpack
  obtain ⟨uid, huid⟩ := exists_pack_eq_ok fits_of_mem_pieces fuses
  rw [huid] at hend
  exact ⟨uid, hend⟩

namespace SecureOs

namespace BootBlock

/-- The block with the chip's id and what goes before it. -/
def withIdentity (b : BootBlock) (config : BootConfig) (uid : ChipId.Uid) : BootBlock :=
  { b with version := blockVersion, uart := config.uart.number, chipId := uid }

/-- The block with the memory below 4 GiB. -/
def withBelow (b : BootBlock) (below : MibRange) : BootBlock :=
  { b with primaryBase := below.base, primarySize := below.size }

/-- The block with the memory above 4 GiB, if there is any. -/
def withAbove (b : BootBlock) (above? : Option MibRange) : BootBlock :=
  { b with
    extendedBase := above?.elim b.extendedBase MibRange.base
    extendedSize := above?.elim b.extendedSize MibRange.size }

/-- The block with the carveout of the security controller, and whether the
device is unlocked. -/
def withTsec (b : BootBlock) (tsec : MibRange) (unlocked : Bool) : BootBlock :=
  { b with tsecBase := tsec.base, tsecSize := tsec.size, unlocked := if unlocked then 1 else 0 }

/-- The block with what reading the root key left in its place. -/
def withRootKey (b : BootBlock) (key? : Except RootKey.Error Nat) (key : Buffer 4096) :
    BootBlock :=
  { b with
    rootKey := if key?.isOk then key else Buffer.zero 4096
    rootKeySize := UInt32.ofNat (key?.toOption.getD 0) }

/-- The block with what reading the key store left in its place. -/
def withKeyStore (b : BootBlock) (store? : Except KeyStore.Error Nat) (store : Buffer 2048) :
    BootBlock :=
  { b with
    keyStore := store
    keyStoreSize := UInt32.ofNat (store?.toOption.getD 0) }

end BootBlock

/-- What is logged about the root key. -/
def rootKeyLines : Except RootKey.Error Nat → List Step
  | .ok _ => []
  | .error e => [logged .warn s!"keymaster key unavailable: {e.message}"]

/-- What is logged about the key store, besides what reading it logs. -/
def keyStoreLines : Except KeyStore.Error Nat → List Step
  | .ok _ => []
  | .error _ => [logged .warn "WARNING: No EKS"]

/-- How the memory layout is asked for, and what of it a block then has. -/
inductive Surveys (b : BootBlock) : List Step → Except (Stop BootError) Unit → BootBlock → Prop
  where
  | noBelow (e : DriverError) :
      Surveys b [⟨.memoryBelow4G, .error e⟩] (.error (.error (.driver e))) b
  | noAbove (below : MibRange) (e : DriverError) :
      Surveys b [⟨.memoryBelow4G, .ok below⟩, ⟨.memoryAbove4G, .error e⟩]
        (.error (.error (.driver e))) (b.withBelow below)
  | noTsec (below : MibRange) (above? : Option MibRange) (e : DriverError) :
      Surveys b [⟨.memoryBelow4G, .ok below⟩, ⟨.memoryAbove4G, .ok above?⟩,
        ⟨.carveout .tsec, .error e⟩] (.error (.error (.driver e)))
        ((b.withBelow below).withAbove above?)
  | complete (below : MibRange) (above? : Option MibRange) (tsec : MibRange) (unlocked : Bool) :
      Surveys b [⟨.memoryBelow4G, .ok below⟩, ⟨.memoryAbove4G, .ok above?⟩,
        ⟨.carveout .tsec, .ok tsec⟩, ⟨.developerMode, unlocked⟩] (.ok ())
        (((b.withBelow below).withAbove above?).withTsec tsec unlocked)

section Parts

variable {decoder : KeyStore.Decoder} {ε : Type} {config : BootConfig} {s t : Filling}
  {steps : List Step}

namespace Filling

/-- A filling whose block is changed. -/
theorem path_modifyBlock_iff {f : BootBlock → BootBlock} {result : Except (Stop ε) Unit} :
    (modifyBlock f : Action Filling ε Unit).Path s steps result t ↔
      steps = [] ∧ result = .ok () ∧ t = ⟨f s.block, s.args⟩ :=
  Action.path_modify_iff

theorem path_putIdentity_iff {result : Except (Stop BootError) Unit} :
    (putIdentity config).Path s steps result t ↔
      ∃ uid, (ChipId.readUid : Task BootError _).Path steps (.ok uid) ∧ result = .ok () ∧
        t = ⟨s.block.withIdentity config uid, s.args⟩ := by
  constructor
  · intro h
    rcases Action.path_task_bind_iff.1 (Action.path_modify_bind_iff.1 h) with
      ⟨first, rest, uid, rfl, hread, hput⟩ | ⟨stop, hread, -, -⟩
    · obtain ⟨rfl, rfl, rfl⟩ := path_modifyBlock_iff.1 hput
      rw [List.append_nil]
      exact ⟨uid, hread, rfl, rfl⟩
    · obtain ⟨uid, ⟨⟩⟩ := ChipId.path_readUid hread
  · rintro ⟨uid, hread, rfl, rfl⟩
    refine Action.path_modify_bind_iff.2 (Action.path_task_bind_iff.2 (.inl ?_))
    exact ⟨steps, [], uid, (List.append_nil _).symm, hread, path_modifyBlock_iff.2 ⟨rfl, rfl, rfl⟩⟩

theorem path_putCarveout_iff {result : Except (Stop BootError) Unit} :
    putCarveout.Path s steps result t ↔
      (∃ e, steps = [⟨.carveout .tsec, .error e⟩] ∧ result = .error (.error (.driver e)) ∧ t = s) ∨
      ∃ tsec unlocked, steps = [⟨.carveout .tsec, .ok tsec⟩, ⟨.developerMode, unlocked⟩] ∧
        result = .ok () ∧ t = ⟨s.block.withTsec tsec unlocked, s.args⟩ := by
  unfold putCarveout
  rw [Action.path_answer_bind_iff]
  constructor
  · rintro (⟨first, rest, tsec, rfl, htsec, hput⟩ | ⟨e, htsec, rfl, rfl⟩)
    · obtain rfl := Firmware.path_query_iff.1 htsec
      obtain ⟨unlocked, last, rfl, hend⟩ :=
        (Action.path_query_bind_iff (q := .developerMode)).1 (Action.path_modify_bind_iff.1 hput)
      obtain ⟨rfl, rfl, rfl⟩ := path_modifyBlock_iff.1 hend
      exact .inr ⟨tsec, unlocked, rfl, rfl, rfl⟩
    · obtain rfl := Firmware.path_query_iff.1 htsec
      exact .inl ⟨e, rfl, rfl, rfl⟩
  · rintro (⟨e, rfl, rfl, rfl⟩ | ⟨tsec, unlocked, rfl, rfl, rfl⟩)
    · exact .inr ⟨e, Firmware.path_query_iff.2 rfl, rfl, rfl⟩
    · refine .inl ⟨[_], _, tsec, rfl, Firmware.path_query_iff.2 rfl, ?_⟩
      refine Action.path_modify_bind_iff.2 ((Action.path_query_bind_iff (q := .developerMode)).2 ?_)
      exact ⟨unlocked, [], rfl, path_modifyBlock_iff.2 ⟨rfl, rfl, rfl⟩⟩

theorem path_putMemory_iff {result : Except (Stop BootError) Unit} :
    putMemory.Path s steps result t ↔
      ∃ block, Surveys s.block steps result block ∧ t = ⟨block, s.args⟩ := by
  rw [putMemory_eq, Action.path_answer_bind_iff]
  constructor
  · rintro (⟨first, rest, below, rfl, hbelow, hput⟩ | ⟨e, hbelow, rfl, rfl⟩)
    swap
    · obtain rfl := Firmware.path_query_iff.1 hbelow
      exact ⟨_, .noBelow e, rfl⟩
    obtain rfl := Firmware.path_query_iff.1 hbelow
    rcases Action.path_answer_bind_iff.1 (Action.path_modify_bind_iff.1 hput) with
      ⟨first, rest, above?, rfl, habove, hmore⟩ | ⟨e, habove, rfl, rfl⟩
    swap
    · obtain rfl := Firmware.path_query_iff.1 habove
      exact ⟨_, .noAbove below e, rfl⟩
    obtain rfl := Firmware.path_query_iff.1 habove
    rcases path_putCarveout_iff.1 (Action.path_modify_bind_iff.1 hmore) with
      ⟨e, rfl, rfl, rfl⟩ | ⟨tsec, unlocked, rfl, rfl, rfl⟩
    · exact ⟨_, .noTsec below above? e, rfl⟩
    · exact ⟨_, .complete below above? tsec unlocked, rfl⟩
  · rintro ⟨block, h, rfl⟩
    cases h with
    | noBelow e => exact .inr ⟨e, Firmware.path_query_iff.2 rfl, rfl, rfl⟩
    | noAbove below e =>
      refine .inl ⟨[_], [_], below, rfl, Firmware.path_query_iff.2 rfl,
        Action.path_modify_bind_iff.2 (Action.path_answer_bind_iff.2 (.inr ?_))⟩
      exact ⟨e, Firmware.path_query_iff.2 rfl, rfl, rfl⟩
    | noTsec below above? e =>
      refine .inl ⟨[_], _, below, rfl, Firmware.path_query_iff.2 rfl,
        Action.path_modify_bind_iff.2 (Action.path_answer_bind_iff.2 (.inl ?_))⟩
      refine ⟨[_], [_], above?, rfl, Firmware.path_query_iff.2 rfl,
        Action.path_modify_bind_iff.2 (path_putCarveout_iff.2 (.inl ?_))⟩
      exact ⟨e, rfl, rfl, rfl⟩
    | complete below above? tsec unlocked =>
      refine .inl ⟨[_], _, below, rfl, Firmware.path_query_iff.2 rfl,
        Action.path_modify_bind_iff.2 (Action.path_answer_bind_iff.2 (.inl ?_))⟩
      refine ⟨[_], _, above?, rfl, Firmware.path_query_iff.2 rfl,
        Action.path_modify_bind_iff.2 (path_putCarveout_iff.2 (.inr ?_))⟩
      exact ⟨tsec, unlocked, rfl, rfl, rfl⟩

/-- A line of the log, and then a change of the block. -/
theorem path_log_modifyBlock_iff {level : Level} {line : String} {f : BootBlock → BootBlock}
    {result : Except (Stop ε) Unit} :
    Action.Path (do
      Firmware.log level line
      (modifyBlock f : Action Filling ε Unit)) s steps result t ↔
      steps = [logged level line] ∧ result = .ok () ∧ t = ⟨f s.block, s.args⟩ := by
  constructor
  · intro h
    obtain ⟨⟨⟩, rest, rfl, hend⟩ := (Action.path_query_bind_iff (q := .log level line)).1 h
    obtain ⟨rfl, rfl, rfl⟩ := path_modifyBlock_iff.1 hend
    exact ⟨rfl, rfl, rfl⟩
  · rintro ⟨rfl, rfl, rfl⟩
    exact (Action.path_query_bind_iff (q := .log level line)).2
      ⟨(), [], rfl, path_modifyBlock_iff.2 ⟨rfl, rfl, rfl⟩⟩

theorem path_putRootKey_iff {result : Except (Stop ε) Unit} :
    (putRootKey : Action Filling ε Unit).Path s steps result t ↔
      (∃ reading found key, (RootKey.read : Action (Buffer 4096) _ Nat).Path s.block.rootKey reading
          (found.mapError .error) key ∧ steps = reading ++ rootKeyLines found ∧
        result = .ok () ∧ t = ⟨s.block.withRootKey found key, s.args⟩) ∨
      ∃ h, (RootKey.read : Action (Buffer 4096) _ Nat).Path s.block.rootKey steps (.error (.halt h))
          s.block.rootKey ∧ result = .error (.halt h) ∧ t = s := by
  have hend : ∀ {found : Except RootKey.Error Nat} {key : Buffer 4096} {rest : List Step},
      Action.Path (match found with
        | .ok n => modifyBlock fun b => { b with rootKeySize := UInt32.ofNat n }
        | .error e => do
          Firmware.log .warn s!"keymaster key unavailable: {e.message}"
          modifyBlock fun b => { b with rootKey := Buffer.zero 4096, rootKeySize := 0 })
        { s with block.rootKey := key } rest result t ↔
      rest = rootKeyLines found ∧ result = .ok () ∧
        t = ⟨s.block.withRootKey found key, s.args⟩ := by
    rintro (e | n) key rest
    · exact path_log_modifyBlock_iff
    · exact path_modifyBlock_iff
  refine Action.path_attempt_focus_bind_iff.trans ⟨?_, ?_⟩
  · rintro (⟨reading, rest, found, key, rfl, hkey, hput⟩ | ⟨h, key, hkey, rfl, rfl⟩)
    · obtain ⟨rfl, rfl, rfl⟩ := hend.1 hput
      exact .inl ⟨reading, found, key, hkey, rfl, rfl, rfl⟩
    · rcases RootKey.path_read hkey with ⟨_, _, -, -, ⟨⟩, -⟩ | ⟨_, -, rfl⟩
      exact .inr ⟨h, hkey, rfl, rfl⟩
  · rintro (⟨reading, found, key, hkey, rfl, rfl, rfl⟩ | ⟨h, hh, rfl, rfl⟩)
    · exact .inl ⟨reading, _, found, key, rfl, hkey, hend.2 ⟨rfl, rfl, rfl⟩⟩
    · exact .inr ⟨h, _, hh, rfl, rfl⟩

theorem path_putKeyStore_iff {result : Except (Stop ε) Unit} :
    (putKeyStore decoder : Action Filling ε Unit).Path s steps result t ↔
      ∃ reading found store, (KeyStore.read decoder : Action (Buffer 2048) _ Nat).Path
          s.block.keyStore reading (found.mapError .error) store ∧
        steps = reading ++ keyStoreLines found ∧ result = .ok () ∧
        t = ⟨s.block.withKeyStore found store, s.args⟩ := by
  have hend : ∀ {found : Except KeyStore.Error Nat} {store : Buffer 2048} {rest : List Step},
      Action.Path (match found with
        | .ok n => modifyBlock fun b => { b with keyStoreSize := UInt32.ofNat n }
        | .error _ => do
          Firmware.log .warn "WARNING: No EKS"
          modifyBlock fun b => { b with keyStoreSize := 0 })
        { s with block.keyStore := store } rest result t ↔
      rest = keyStoreLines found ∧ result = .ok () ∧
        t = ⟨s.block.withKeyStore found store, s.args⟩ := by
    rintro (e | n) store rest
    · exact path_log_modifyBlock_iff
    · exact path_modifyBlock_iff
  refine Action.path_attempt_focus_bind_iff.trans ⟨?_, ?_⟩
  · rintro (⟨reading, rest, found, store, rfl, hstore, hput⟩ | ⟨h, store, hstore, rfl, rfl⟩)
    · obtain ⟨rfl, rfl, rfl⟩ := hend.1 hput
      exact ⟨reading, found, store, hstore, rfl, rfl, rfl⟩
    · obtain ⟨_, ⟨-, _, ⟨⟩⟩ | ⟨_, _, _, -, ⟨⟩⟩⟩ := KeyStore.path_read hstore
  · rintro ⟨reading, found, store, hstore, rfl, rfl, rfl⟩
    exact .inl ⟨reading, _, found, store, rfl, hstore, hend.2 ⟨rfl, rfl, rfl⟩⟩

end Filling

theorem path_pointAtBlock_iff {place stop base : UInt64} (hle : base ≤ stop)
    {result : Except (Stop BootError) Unit} :
    (pointAtBlock place stop base).Path s steps result t ↔
      steps = [⟨.clean ⟨place, BootBlock.layout.write s.block⟩, ()⟩] ∧ result = .ok () ∧
        t = ⟨s.block, { s.args with x0 := stop - base, x1 := 0, x2 := place, x3 := magic }⟩ := by
  rw [pointAtBlock_eq hle]
  constructor
  · intro h
    obtain ⟨⟨⟩, rest, rfl, hrest⟩ := Action.path_query_bind_iff.1 h
    obtain ⟨rfl, rfl, rfl⟩ := Action.path_modify_iff.1 hrest
    exact ⟨rfl, rfl, rfl⟩
  · rintro ⟨rfl, rfl, rfl⟩
    exact Action.path_query_bind_iff.2 ⟨(), [], rfl, Action.path_modify_iff.2 ⟨rfl, rfl, rfl⟩⟩

end Parts

/-- Where the trusted carveout ends, and where the secure OS in it starts. -/
structure Bounds (config : BootConfig) (tz : MibRange) (stop base : UInt64) : Prop where
  stop_eq : tz.stopAddress = .ok stop
  base_eq : placement tz config.monitorSizeMib 0 = .ok base

theorem Bounds.le {config : BootConfig} {tz : MibRange} {stop base : UInt64}
    (h : Bounds config tz stop base) : base ≤ stop :=
  le_of_placement h.base_eq h.stop_eq

/-- The steps of a filling that completes, which leaves `block`. -/
def completing (place : UInt64) (tz : MibRange)
    (identifying surveying forKey forStore : List Step) (key? : Except RootKey.Error Nat)
    (store? : Except KeyStore.Error Nat) (block : BootBlock) : List Step :=
  ⟨.carveout .tz, .ok tz⟩ :: (identifying ++ (surveying ++ ((forKey ++ rootKeyLines key?) ++
    ((forStore ++ keyStoreLines store?) ++
      [⟨.clean ⟨place, BootBlock.layout.write block⟩, ()⟩]))))

/-- The courses that filling can take: the steps of each, how it ends, and the
block and the arguments then.  `args` are the arguments before. -/
inductive Fills (decoder : KeyStore.Decoder) (place : UInt64) (config : BootConfig)
    (args : Abi.ArgRegs) : List Step → Except (Stop BootError) Unit → Filling → Prop where
  | unreported (e : DriverError) :
      Fills decoder place config args [⟨.carveout .tz, .error e⟩] (.error (.error (.driver e)))
        ⟨BootBlock.zero, args⟩
  | unbounded {tz : MibRange} {h : Halt} (hstop : tz.stopAddress = .error h) :
      Fills decoder place config args [⟨.carveout .tz, .ok tz⟩] (.error (.halt h))
        ⟨BootBlock.zero, args⟩
  | unplaced {tz : MibRange} {stop : UInt64} {e : Stop BootError}
      (hstop : tz.stopAddress = .ok stop)
      (hplace : placement tz config.monitorSizeMib 0 = .error e) :
      Fills decoder place config args [⟨.carveout .tz, .ok tz⟩] (.error e) ⟨BootBlock.zero, args⟩
  | unsurveyed {tz : MibRange} {stop base : UInt64} {identifying surveying : List Step}
      {uid : ChipId.Uid} {e : Stop BootError} {block : BootBlock}
      (hbounds : Bounds config tz stop base)
      (hid : (ChipId.readUid : Task BootError _).Path identifying (.ok uid))
      (hsurvey : Surveys (BootBlock.zero.withIdentity config uid) surveying (.error e) block) :
      Fills decoder place config args (⟨.carveout .tz, .ok tz⟩ :: (identifying ++ surveying))
        (.error e) ⟨block, args⟩
  | halted {tz : MibRange} {stop base : UInt64} {identifying surveying reading : List Step}
      {uid : ChipId.Uid} {block : BootBlock} {h : Halt}
      (hbounds : Bounds config tz stop base)
      (hid : (ChipId.readUid : Task BootError _).Path identifying (.ok uid))
      (hsurvey : Surveys (BootBlock.zero.withIdentity config uid) surveying (.ok ()) block)
      (hkey : RootKey.read.Path (Buffer.zero 4096) reading (.error (.halt h)) (Buffer.zero 4096)) :
      Fills decoder place config args
        (⟨.carveout .tz, .ok tz⟩ :: (identifying ++ (surveying ++ reading))) (.error (.halt h))
        ⟨block, args⟩
  | complete {tz : MibRange} {stop base : UInt64}
      {identifying surveying forKey forStore : List Step}
      {uid : ChipId.Uid} {block : BootBlock} {key? : Except RootKey.Error Nat}
      {store? : Except KeyStore.Error Nat} {key : Buffer 4096} {store : Buffer 2048}
      (hbounds : Bounds config tz stop base)
      (hid : (ChipId.readUid : Task BootError _).Path identifying (.ok uid))
      (hsurvey : Surveys (BootBlock.zero.withIdentity config uid) surveying (.ok ()) block)
      (hkey : RootKey.read.Path (Buffer.zero 4096) forKey (key?.mapError .error) key)
      (hstore : (KeyStore.read decoder).Path (Buffer.zero 2048) forStore
        (store?.mapError .error) store) :
      Fills decoder place config args
        (completing place tz identifying surveying forKey forStore key? store?
          ((block.withRootKey key? key).withKeyStore store? store))
        (.ok ()) ⟨(block.withRootKey key? key).withKeyStore store? store,
          { args with x0 := stop - base, x1 := 0, x2 := place, x3 := magic }⟩

variable {decoder : KeyStore.Decoder} {place : UInt64} {config : BootConfig} {s t : Filling}
  {steps : List Step}
  {result : Except (Stop BootError) Unit}

/-- Surveying puts nothing where the secrets go. -/
theorem Surveys.secrets {b block : BootBlock} (h : Surveys b steps result block) :
    block.rootKey = b.rootKey ∧ block.keyStore = b.keyStore := by
  cases h <;> exact ⟨rfl, rfl⟩

theorem BootBlock.withRootKey_keyStore {b : BootBlock} {key? : Except RootKey.Error Nat}
    {key : Buffer 4096} : (b.withRootKey key? key).keyStore = b.keyStore := rfl

/-- Gathering from a block of zeros, once the place of the secure OS is known. -/
theorem fills_of_path_gather {tz : MibRange} {stop base : UInt64} {args : Abi.ArgRegs}
    (hbounds : Bounds config tz stop base)
    (h : (gather decoder config place stop base).Path ⟨BootBlock.zero, args⟩ steps result t) :
    Fills decoder place config args (⟨.carveout .tz, .ok tz⟩ :: steps) result t := by
  rcases Action.path_bind_iff.1 h with ⟨identifying, rest, ⟨⟩, u, rfl, hfirst, h⟩ | ⟨e, hfirst, -⟩
  swap
  · obtain ⟨_, -, ⟨⟩, -⟩ := Filling.path_putIdentity_iff.1 hfirst
  obtain ⟨uid, hid, -, rfl⟩ := Filling.path_putIdentity_iff.1 hfirst
  rcases Action.path_bind_iff.1 h with ⟨surveying, rest, ⟨⟩, u, rfl, hsecond, h⟩ | ⟨e, hsecond, rfl⟩
  swap
  · obtain ⟨block, hsurvey, rfl⟩ := Filling.path_putMemory_iff.1 hsecond
    exact .unsurveyed hbounds hid hsurvey
  obtain ⟨block, hsurvey, rfl⟩ := Filling.path_putMemory_iff.1 hsecond
  have hzeroKey : block.rootKey = Buffer.zero 4096 := hsurvey.secrets.1
  have hzeroStore : block.keyStore = Buffer.zero 2048 := hsurvey.secrets.2
  rcases Action.path_bind_iff.1 h with ⟨reading, rest, ⟨⟩, u, rfl, hthird, h⟩ | ⟨e, hthird, rfl⟩
  swap
  · rcases Filling.path_putRootKey_iff.1 hthird with ⟨_, _, _, -, -, ⟨⟩, -⟩ | ⟨h, hkey, ⟨⟩, rfl⟩
    rw [hzeroKey] at hkey
    exact .halted hbounds hid hsurvey hkey
  rcases Filling.path_putRootKey_iff.1 hthird with
    ⟨forKey, key?, key, hkey, rfl, -, rfl⟩ | ⟨_, -, ⟨⟩, -⟩
  rw [hzeroKey] at hkey
  rcases Action.path_bind_iff.1 h with ⟨reading, rest, ⟨⟩, u, rfl, hfourth, h⟩ | ⟨e, hfourth, -⟩
  swap
  · obtain ⟨_, _, _, -, -, ⟨⟩, -⟩ := Filling.path_putKeyStore_iff.1 hfourth
  obtain ⟨forStore, store?, store, hstore, rfl, -, rfl⟩ := Filling.path_putKeyStore_iff.1 hfourth
  rw [BootBlock.withRootKey_keyStore, hzeroStore] at hstore
  obtain ⟨rfl, rfl, rfl⟩ := (path_pointAtBlock_iff hbounds.le).1 h
  exact .complete hbounds hid hsurvey hkey hstore

theorem path_fill_of_gather {tz : MibRange} {stop base : UInt64}
    (hbounds : Bounds config tz stop base)
    (h : (gather decoder config place stop base).Path ⟨BootBlock.zero, s.args⟩ steps result t) :
    (fill decoder place config).Path s (⟨.carveout .tz, .ok tz⟩ :: steps) result t := by
  refine Action.path_modify_bind_iff.2 (Action.path_answer_bind_iff.2 (.inl ?_))
  refine ⟨[_], steps, tz, rfl, Firmware.path_query_iff.2 rfl, ?_⟩
  refine Action.path_check_bind_iff.2 (.inl ⟨stop, hbounds.stop_eq, ?_⟩)
  exact Action.path_settle_bind_iff.2 (.inl ⟨base, hbounds.base_eq, h⟩)

/-- Each course is taken. -/
theorem Fills.path (h : Fills decoder place config s.args steps result t) :
    (fill decoder place config).Path s steps result t := by
  cases h with
  | unreported e =>
    refine Action.path_modify_bind_iff.2 (Action.path_answer_bind_iff.2 (.inr ?_))
    exact ⟨e, Firmware.path_query_iff.2 rfl, rfl, rfl⟩
  | @unbounded tz h hstop =>
    refine Action.path_modify_bind_iff.2 (Action.path_answer_bind_iff.2 (.inl ?_))
    exact ⟨[_], [], tz, rfl, Firmware.path_query_iff.2 rfl,
      Action.path_check_bind_iff.2 (.inr ⟨h, hstop, rfl, rfl, rfl⟩)⟩
  | @unplaced tz stop e hstop hplace =>
    refine Action.path_modify_bind_iff.2 (Action.path_answer_bind_iff.2 (.inl ?_))
    refine ⟨[_], [], tz, rfl, Firmware.path_query_iff.2 rfl, ?_⟩
    refine Action.path_check_bind_iff.2 (.inl ⟨stop, hstop, ?_⟩)
    exact Action.path_settle_bind_iff.2 (.inr ⟨e, hplace, rfl, rfl, rfl⟩)
  | unsurveyed hbounds hid hsurvey =>
    refine path_fill_of_gather hbounds ?_
    refine (Filling.path_putIdentity_iff.2 ⟨_, hid, rfl, rfl⟩).bind ?_
    exact (Filling.path_putMemory_iff.2 ⟨_, hsurvey, rfl⟩).bind_error
  | @halted tz stop base identifying surveying reading uid block h hbounds hid hsurvey hkey =>
    have hkey' : RootKey.read.Path block.rootKey reading (.error (.halt h)) block.rootKey := by
      rw [hsurvey.secrets.1]
      exact hkey
    refine path_fill_of_gather hbounds ?_
    refine (Filling.path_putIdentity_iff.2 ⟨_, hid, rfl, rfl⟩).bind ?_
    refine (Filling.path_putMemory_iff.2 ⟨_, hsurvey, rfl⟩).bind ?_
    exact (Filling.path_putRootKey_iff.2 (.inr ⟨_, hkey', rfl, rfl⟩)).bind_error
  | @complete tz stop base identifying surveying forKey forStore uid block key? store? key store
      hbounds hid hsurvey hkey hstore =>
    have hkey' : RootKey.read.Path block.rootKey forKey (key?.mapError .error) key := by
      rw [hsurvey.secrets.1]
      exact hkey
    have hstore' : (KeyStore.read decoder).Path
        (block.withRootKey key? key).keyStore forStore (store?.mapError .error) store := by
      rw [BootBlock.withRootKey_keyStore, hsurvey.secrets.2]
      exact hstore
    refine path_fill_of_gather hbounds ?_
    refine (Filling.path_putIdentity_iff.2 ⟨_, hid, rfl, rfl⟩).bind ?_
    refine (Filling.path_putMemory_iff.2 ⟨_, hsurvey, rfl⟩).bind ?_
    refine (Filling.path_putRootKey_iff.2 (.inl ⟨_, _, _, hkey', rfl, rfl, rfl⟩)).bind ?_
    refine (Filling.path_putKeyStore_iff.2 ⟨_, _, _, hstore', rfl, rfl, rfl⟩).bind ?_
    exact (path_pointAtBlock_iff hbounds.le).2 ⟨rfl, rfl, rfl⟩

/-- **Filling takes one of these courses, and can take each.** -/
theorem path_iff_fills :
    (fill decoder place config).Path s steps result t ↔
      Fills decoder place config s.args steps result t := by
  refine ⟨fun h => ?_, Fills.path⟩
  rcases Action.path_answer_bind_iff.1 (Action.path_modify_bind_iff.1 h) with
    ⟨first, rest, tz, rfl, htz, hlimit⟩ | ⟨e, htz, rfl, rfl⟩
  swap
  · obtain rfl := Firmware.path_query_iff.1 htz
    exact .unreported e
  obtain rfl := Firmware.path_query_iff.1 htz
  rcases Action.path_check_bind_iff.1 hlimit with ⟨stop, hstop, hplace⟩ | ⟨h, hh, rfl, rfl, rfl⟩
  swap
  · exact .unbounded hh
  rcases Action.path_settle_bind_iff.1 hplace with ⟨base, hbase, hrest⟩ | ⟨e, he, rfl, rfl, rfl⟩
  swap
  · exact .unplaced hstop he
  have hbounds : Bounds config tz stop base := ⟨hstop, hbase⟩
  exact fills_of_path_gather hbounds hrest

/-- Filling says in the arguments where the block is, and nothing else. -/
theorem Fills.args_eq {args : Abi.ArgRegs} (h : Fills decoder place config args steps (.ok ()) t) :
    ∃ room, t.args = { args with x0 := room, x1 := 0, x2 := place, x3 := magic } := by
  cases h
  exact ⟨_, rfl⟩

section Shares

variable {ε : Type} {forKey identifying surveying : List Step}

theorem only_registers {uid : Except (Stop ε) ChipId.Uid}
    (h : (ChipId.readUid : Task ε _).Path identifying uid) : Part.registers.Only identifying :=
  fun step hstep => (asks_readUid _ _ h step hstep).2

theorem Surveys.only {b block : BootBlock} (h : Surveys b surveying result block) :
    Part.drivers.Only surveying := by
  cases h with
  | noBelow e => exact List.forall_mem_singleton.2 rfl
  | noAbove below e => simp [Part.Only, Query.part]
  | noTsec below above? e => simp [Part.Only, Query.part]
  | complete below above? tsec unlocked => simp [Part.Only, Query.part]

theorem only_flash {n : Nat} {buf key : Buffer n} {key? : Except (Stop RootKey.Error) Nat}
    (h : RootKey.read.Path buf forKey key? key) : Part.flash.Only forKey :=
  fun step hstep => ((frame_readRootKey _ _ _ _ h).1 step hstep).2

theorem only_rootKeyLines (key? : Except RootKey.Error Nat) :
    Part.log.Only (rootKeyLines key?) := by
  cases key? with
  | ok n => exact List.forall_mem_nil _
  | error e => exact List.forall_mem_singleton.2 rfl

theorem only_keyStoreLines (store? : Except KeyStore.Error Nat) :
    Part.log.Only (keyStoreLines store?) := by
  cases store? with
  | ok n => exact List.forall_mem_nil _
  | error e => exact List.forall_mem_singleton.2 rfl

/-- Reading the key store asks the product data, and may write to the log. -/
theorem history_keyStore {n : Nat} {buf store : Buffer n}
    {store? : Except (Stop KeyStore.Error) Nat} {forStore : List Step}
    (h : (KeyStore.read decoder).Path buf forStore store? store) {p : Part}
    (hdata : p ≠ .productData) (hlog : p ≠ .log) : p.history forStore = [] :=
  Part.history_eq_nil_iff.2 fun step hstep => by
    rcases (frame_readKeyStore _ _ _ _ h).1 step hstep with ⟨-, hpart⟩ | ⟨-, hpart⟩
    · exact hpart ▸ hdata.symm
    · exact hpart ▸ hlog.symm

/-- **Which part of the platform has which share** in a filling that
completes. -/
theorem history_completing (place : UInt64) (tz : MibRange) (filled : BootBlock) {n n' : Nat}
    {uid : Except (Stop ε) ChipId.Uid} {b block : BootBlock} {buf key : Buffer n}
    {buf' store : Buffer n'} {key? : Except RootKey.Error Nat} {store? : Except KeyStore.Error Nat}
    {forStore : List Step}
    (hid : (ChipId.readUid : Task ε _).Path identifying uid)
    (hsurvey : Surveys b surveying result block)
    (hkey : RootKey.read.Path buf forKey (key?.mapError .error) key)
    (hstore : (KeyStore.read decoder).Path buf' forStore (store?.mapError .error)
      store) (p : Part) :
    p.history (completing place tz identifying surveying forKey forStore key? store? filled) =
      match p with
      | .drivers => ⟨.carveout .tz, .ok tz⟩ :: surveying
      | .registers => identifying
      | .flash => forKey
      | .productData => Part.productData.history forStore
      | .log => rootKeyLines key? ++ (Part.log.history forStore ++ keyStoreLines store?)
      | .processor => [⟨.clean ⟨place, BootBlock.layout.write filled⟩, ()⟩]
      | _ => [] := by
  have hstoreNil : ∀ p, p ≠ .productData → p ≠ .log → Part.history p forStore = [] :=
    fun p => history_keyStore hstore
  cases p <;>
    simp [completing, (only_registers hid).history, hsurvey.only.history, (only_flash hkey).history,
      (only_rootKeyLines key?).history, (only_keyStoreLines store?).history, hstoreNil, Query.part]

end Shares
section Readings

variable {σ : Type}

/-- Reading the root key on its own, into an area of zeros like the one in the
block. -/
def keyReading (m : Machine σ) (u : σ) :
    Outcome σ (Except (Stop RootKey.Error) Nat × Buffer 4096) :=
  (RootKey.read.on (Buffer.zero 4096)).run m u

/-- Reading the key store on its own, into an area of zeros like the one in the
block. -/
def storeReading (decoder : KeyStore.Decoder) (m : Machine σ) (u : σ) :
    Outcome σ (Except (Stop KeyStore.Error) Nat × Buffer 2048) :=
  ((KeyStore.read decoder).on (Buffer.zero 2048)).run m u

end Readings
end SecureOs
end BootHandoff
