/-
# What filling the boot block asks and leaves

Everything before the block is cleaned only gathers what goes into it: no
query of `Gathers` writes memory, touches an image or reaches the processor,
and the arguments of the secure OS stay as they were.  `path_fill` says so of
the whole, and what the arguments are once the block is cleaned.  That the
difference in `x0` does not underflow is the fit that `placement` has checked
for an image of no bytes.
-/

import BootHandoff.Proofs.KeyStore.Reading
import BootHandoff.Proofs.Platform.Asks
import BootHandoff.Proofs.Platform.Parts
import BootHandoff.Proofs.RootKey.Reading
import BootHandoff.Proofs.SecureOs.Extent
import BootHandoff.SecureOs.Fill

namespace BootHandoff
namespace SecureOs

open Board Platform

/-- The queries that gather what goes into the block. -/
def Gathers : Query → Prop
  | .openFlash | .closeFlash | .findArea _ | .mapFlash .. | .readRegister _ | .writeRegister ..
  | .memoryBelow4G | .memoryAbove4G | .carveout _ | .developerMode | .productData _
  | .log .. => True
  | _ => False

/-- The queries that gather from one part of the platform. -/
def GathersFrom (p : Part) (q : Query) : Prop := Gathers q ∧ q.part = p

section Readers

variable {decoder : KeyStore.Decoder} {κ : Type} {n : Nat} {kept : Buffer n → κ}

theorem asks_setVisibility (visible : Bool) :
    (ChipId.setVisibility visible).Asks (GathersFrom .registers) :=
  Firmware.asks_bind (Firmware.asks_query ⟨trivial, rfl⟩) fun _ =>
    Firmware.asks_query ⟨trivial, rfl⟩

theorem asks_readFuse (f : ChipId.Fuse) : (ChipId.readFuse f).Asks (GathersFrom .registers) :=
  Firmware.asks_bind (Firmware.asks_query ⟨trivial, rfl⟩) fun _ => Firmware.asks_pure _

theorem asks_readAll : ChipId.readAll.Asks (GathersFrom .registers) := by
  unfold ChipId.readAll
  iterate 8 refine Firmware.asks_bind (asks_readFuse _) fun _ => ?_
  exact Firmware.asks_pure _

theorem asks_readFuses : ChipId.readFuses.Asks (GathersFrom .registers) := by
  refine Firmware.asks_bind (Firmware.asks_query ⟨trivial, rfl⟩) fun value => ?_
  split
  · exact asks_readAll
  · exact Firmware.asks_bind (asks_setVisibility true) fun _ =>
      Firmware.asks_bind asks_readAll fun _ =>
        Firmware.asks_bind (asks_setVisibility false) fun _ => Firmware.asks_pure _

theorem asks_readUid {ε : Type} :
    (ChipId.readUid : Task ε ChipId.Uid).Asks (GathersFrom .registers) :=
  Task.asks_lift_bind asks_readFuses fun _ => Task.asks_check _

theorem frame_readRootKey :
    (RootKey.read : Action (Buffer n) _ _).Frame (GathersFrom .flash) fun _ => () := by
  refine Flash.frame_session ⟨trivial, rfl⟩ ⟨trivial, rfl⟩ ?_
  have hlocate : RootKey.locate.Asks (GathersFrom .flash) :=
    RootKey.asks_locate ⟨trivial, rfl⟩ fun _ _ => ⟨trivial, rfl⟩
  refine Action.frame_bind (Action.frame_task hlocate) fun region => ?_
  split
  · refine Action.frame_lift_bind (Firmware.asks_query ⟨trivial, rfl⟩) fun _ =>
      Action.frame_bind (Action.frame_accept _ _) fun key => ?_
    split
    · exact Action.frame_bind (Action.frame_modify fun _ => rfl) fun _ => Action.frame_pure _
    · exact Action.frame_halt _
  · exact Action.frame_fail _

theorem frame_readKeyStore :
    (KeyStore.read decoder : Action (Buffer n) _ _).Frame
      (fun q => GathersFrom .productData q ∨ GathersFrom .log q) fun _ => () := by
  intro s steps result t h
  refine ⟨?_, rfl⟩
  obtain ⟨value?, ⟨rfl, -⟩ | ⟨level, line, e, rfl, -⟩⟩ := KeyStore.path_read h
  · exact List.forall_mem_singleton.2 (.inl ⟨trivial, rfl⟩)
  · exact List.forall_mem_cons.2 ⟨.inl ⟨trivial, rfl⟩,
      List.forall_mem_singleton.2 (.inr ⟨trivial, rfl⟩)⟩

end Readers

namespace Filling

theorem frame_modifyBlock {ε : Type} (f : BootBlock → BootBlock) :
    (modifyBlock f : Action Filling ε Unit).Frame Gathers Filling.args :=
  Action.frame_modify fun _ => rfl

theorem frame_putIdentity (config : BootConfig) :
    (putIdentity config).Frame Gathers Filling.args :=
  Action.frame_bind (frame_modifyBlock _) fun _ =>
    Action.frame_bind (Action.frame_task (asks_readUid.mono fun _ h => h.1)) fun _ =>
    frame_modifyBlock _

/-- The end of entering the memory layout, which is the same with and without
memory above 4 GiB. -/
def putCarveout : Action Filling BootError Unit := do
  let tsec ← accept BootError.driver (← Firmware.carveout .tsec)
  modifyBlock fun b => { b with tsecBase := tsec.base, tsecSize := tsec.size }
  let unlocked ← Firmware.developerMode
  modifyBlock fun b => { b with unlocked := if unlocked then 1 else 0 }

/-- Entering the memory layout, with the memory above 4 GiB in one step. -/
theorem putMemory_eq :
    putMemory = (do
      let below ← accept BootError.driver (← Firmware.memoryBelow4G)
      modifyBlock fun b => { b with primaryBase := below.base, primarySize := below.size }
      let above? ← accept BootError.driver (← Firmware.memoryAbove4G)
      modifyBlock fun b => { b with
        extendedBase := above?.elim b.extendedBase Memory.MibRange.base
        extendedSize := above?.elim b.extendedSize Memory.MibRange.size }
      putCarveout) := by
  refine bind_congr fun _ => bind_congr fun below => bind_congr fun _ =>
    bind_congr fun _ => bind_congr fun above? => ?_
  cases above? <;> rfl

theorem frame_putCarveout : putCarveout.Frame Gathers Filling.args :=
  Action.frame_lift_bind (Firmware.asks_query trivial) fun _ =>
    Action.frame_bind (Action.frame_accept _ _) fun _ =>
    Action.frame_bind (frame_modifyBlock _) fun _ =>
    Action.frame_lift_bind (Firmware.asks_query trivial) fun _ => frame_modifyBlock _

theorem frame_putMemory : putMemory.Frame Gathers Filling.args := by
  rw [putMemory_eq]
  exact Action.frame_lift_bind (Firmware.asks_query trivial) fun _ =>
    Action.frame_bind (Action.frame_accept _ _) fun _ =>
    Action.frame_bind (frame_modifyBlock _) fun _ =>
    Action.frame_lift_bind (Firmware.asks_query trivial) fun _ =>
    Action.frame_bind (Action.frame_accept _ _) fun _ =>
    Action.frame_bind (frame_modifyBlock _) fun _ => frame_putCarveout

theorem frame_putRootKey {ε : Type} :
    (putRootKey : Action Filling ε Unit).Frame Gathers Filling.args := by
  have hread : (RootKey.read : Action (Buffer 4096) _ _).Frame Gathers fun _ => () :=
    frame_readRootKey.mono fun _ h => h.1
  refine Action.frame_bind
    (Action.frame_attempt (Action.frame_focus hread fun _ _ => rfl)) fun result => ?_
  split
  · exact frame_modifyBlock _
  · exact Action.frame_lift_bind (Firmware.asks_query trivial) fun _ => frame_modifyBlock _

theorem frame_putKeyStore (decoder : KeyStore.Decoder) {ε : Type} :
    (putKeyStore decoder : Action Filling ε Unit).Frame Gathers Filling.args := by
  have hread : (KeyStore.read decoder : Action (Buffer 2048) _ _).Frame Gathers fun _ => () :=
    frame_readKeyStore.mono fun _ h => h.elim And.left And.left
  refine Action.frame_bind
    (Action.frame_attempt (Action.frame_focus hread fun _ _ => rfl)) fun result => ?_
  split
  · exact frame_modifyBlock _
  · exact Action.frame_lift_bind (Firmware.asks_query trivial) fun _ => frame_modifyBlock _

end Filling

/-- Code that gathers, and then cleans the block and says so in the arguments;
if it ends early, it has only gathered and says nothing. -/
def Completes (place room : UInt64) (x : Action Filling BootError Unit) : Prop :=
  ∀ s steps result t, x.Path s steps result t →
    (∃ gathered, result = .ok () ∧
      steps = gathered ++ [⟨.clean ⟨place, BootBlock.layout.write t.block⟩, ()⟩] ∧
      (∀ step ∈ gathered, Gathers step.query) ∧
      t.args = { s.args with x0 := room, x1 := 0, x2 := place, x3 := magic }) ∨
    ∃ stop, result = .error stop ∧ (∀ step ∈ steps, Gathers step.query) ∧ t.args = s.args

theorem Completes.after_gathering {place room : UInt64} {x : Action Filling BootError Unit}
    {f : Unit → Action Filling BootError Unit} (hx : x.Frame Gathers Filling.args)
    (hf : Completes place room (f ())) : Completes place room (x >>= f) := by
  intro s steps result t h
  rcases Action.path_bind_iff.1 h with ⟨first, rest, ⟨⟩, u, rfl, hfirst, hrest⟩ | ⟨stop, hx', rfl⟩
  · obtain ⟨hasks, hargs⟩ := hx _ _ _ _ hfirst
    rcases hf _ _ _ _ hrest with ⟨gathered, rfl, rfl, hgathered, ht⟩ | ⟨stop, rfl, hrest, ht⟩
    · refine .inl ⟨first ++ gathered, rfl, by rw [List.append_assoc],
        List.forall_mem_append.2 ⟨hasks, hgathered⟩, ?_⟩
      rw [ht, hargs]
    · exact .inr ⟨stop, rfl, List.forall_mem_append.2 ⟨hasks, hrest⟩, ht.trans hargs⟩
  · obtain ⟨hasks, hargs⟩ := hx _ _ _ _ hx'
    exact .inr ⟨stop, rfl, hasks, hargs⟩

/-- The end of filling: the block is cleaned, and the arguments point at it. -/
def pointAtBlock (place stop base : UInt64) : Action Filling BootError Unit := do
  Firmware.clean BootBlock.layout place (← get).block
  let room ← check (orOverflow (Word.sub64? stop base))
  modify fun s => { s with args := { s.args with x0 := room, x1 := 0, x2 := place, x3 := magic } }

/-- Everything that filling does once the place of the secure OS is known. -/
def gather (decoder : KeyStore.Decoder) (config : BootConfig) (place stop base : UInt64) :
    Action Filling BootError Unit := do
  Filling.putIdentity config
  Filling.putMemory
  Filling.putRootKey
  Filling.putKeyStore decoder
  pointAtBlock place stop base

/-- The room for a secure OS that starts before the carveout ends is a
number. -/
theorem pointAtBlock_eq {place stop base : UInt64} (hle : base ≤ stop) :
    pointAtBlock place stop base = (do
      Firmware.clean BootBlock.layout place (← get).block
      modify fun s => { s with
        args := { s.args with x0 := stop - base, x1 := 0, x2 := place, x3 := magic } }) := by
  have hroom : Word.sub64? stop base = some (stop - base) := Word.sub64?_of_le hle
  unfold pointAtBlock
  rw [hroom]
  rfl

theorem completes_pointAtBlock {place stop base : UInt64} (hle : base ≤ stop) :
    Completes place (stop - base) (pointAtBlock place stop base) := by
  intro s steps result t h
  rw [pointAtBlock_eq hle] at h
  obtain ⟨⟨⟩, rest, rfl, hrest⟩ := Action.path_query_bind_iff.1 h
  obtain ⟨rfl, rfl, rfl⟩ := Action.path_modify_iff.1 hrest
  exact .inl ⟨[], rfl, rfl, List.forall_mem_nil _, rfl⟩

theorem completes_gather (decoder : KeyStore.Decoder) {config : BootConfig}
    {place stop base : UInt64} (hle : base ≤ stop) :
    Completes place (stop - base) (gather decoder config place stop base) :=
  .after_gathering (Filling.frame_putIdentity config) <|
    .after_gathering Filling.frame_putMemory <|
    .after_gathering Filling.frame_putRootKey <|
    .after_gathering (Filling.frame_putKeyStore decoder) <| completes_pointAtBlock hle

/-- **What filling does.** -/
theorem path_fill {decoder : KeyStore.Decoder} {place : UInt64} {config : BootConfig}
    {s t : Filling} {steps : List Step} {result : Except (Stop BootError) Unit}
    (h : (fill decoder place config).Path s steps result t) :
    (∃ tz stop base gathered, result = .ok () ∧
      steps = ⟨.carveout .tz, .ok tz⟩ ::
        (gathered ++ [⟨.clean ⟨place, BootBlock.layout.write t.block⟩, ()⟩]) ∧
      (∀ step ∈ gathered, Gathers step.query) ∧
      tz.stopAddress = .ok stop ∧ placement tz config.monitorSizeMib 0 = .ok base ∧ base ≤ stop ∧
      t.args = { s.args with x0 := stop - base, x1 := 0, x2 := place, x3 := magic }) ∨
    ∃ stop, result = .error stop ∧ (∀ step ∈ steps, Gathers step.query) ∧ t.args = s.args := by
  obtain ⟨tz?, rest, rfl, htz⟩ := (Action.path_query_bind_iff (q := .carveout .tz)).1 h
  rcases Action.path_accept_bind_iff.1 htz with ⟨tz, rfl, hlimit⟩ | ⟨e, rfl, rfl, rfl, rfl⟩
  · rcases Action.path_check_bind_iff.1 hlimit with ⟨stop, hstop, hplace⟩ | ⟨e, -, rfl, rfl, rfl⟩
    · rcases Action.path_settle_bind_iff.1 hplace with ⟨base, hbase, hrest⟩ | ⟨e, -, rfl, rfl, rfl⟩
      · have hle : base ≤ stop := le_of_placement hbase hstop
        rcases completes_gather decoder hle _ _ _ _ hrest with
          ⟨gathered, rfl, rfl, hgathered, ht⟩ | ⟨e, rfl, hasks, ht⟩
        · exact .inl ⟨tz, stop, base, gathered, rfl, rfl, hgathered, hstop, hbase, hle, ht⟩
        · exact .inr ⟨e, rfl, List.forall_mem_cons.2 ⟨trivial, hasks⟩, ht⟩
      · exact .inr ⟨_, rfl, List.forall_mem_singleton.2 trivial, rfl⟩
    · exact .inr ⟨_, rfl, List.forall_mem_singleton.2 trivial, rfl⟩
  · exact .inr ⟨_, rfl, List.forall_mem_singleton.2 trivial, rfl⟩

end SecureOs
end BootHandoff
