/-
# Every course can be taken

`course_of_path` says that a preparation has no other courses than `Course`
lists.  Here is the converse: each of them is a path through the preparation,
so `path_iff_course` describes the preparation completely.  With this a
statement about what a handoff would do from another state, or on another
platform, is proved by building the course that it takes there.
-/

import BootHandoff.Proofs.Handoff.Course

namespace BootHandoff
namespace Handoff

open Abi Board Flash Platform SecureOs Verified

variable {decoder : KeyStore.Decoder} {registry : Registry} {payload : Payload} {c t : Context}
  {steps : List Step}

/-- Entering a phase that does not lie behind. -/
theorem path_enter_bind_of_le {ε α : Type} {phase : Phase} {f : Unit → Action Context ε α}
    {result : Except (Stop ε) α} (hle : c.phase ≤ phase)
    (h : (f ()).Path { c with phase := phase } steps result t) :
    (enter phase >>= f).Path c (entered phase :: steps) result t :=
  path_enter_bind_iff.2 (.inl ⟨hle, steps, rfl, h⟩)

theorem Adjusts.path {result : Except (Stop BootError) Unit}
    (h : Adjusts decoder c steps result t) : (adjustEntry decoder).Path c steps result t := by
  unfold adjustEntry
  rw [Action.path_get_bind_iff]
  cases h with
  | plain hextension =>
    rw [hextension]
    exact Action.path_pure_iff.2 ⟨rfl, rfl, rfl⟩
  | filled hextension hfill =>
    rw [hextension]
    refine Action.path_lift_bind_iff.2 ⟨steps, [], _, (List.append_nil _).symm, hfill, ?_⟩
    exact Action.path_set_bind_iff.2 (Action.path_settle_iff.2 ⟨rfl, rfl, rfl⟩)

theorem path_cleanParams_intro {ε : Type} (c : Context) (withSecureOs : Bool) :
    (cleanParams withSecureOs : Action Context ε Unit).Path c
      ((if withSecureOs then [cleaned c.secureOsBlock] else []) ++
        [cleaned c.paramsBlock, cleaned c.payloadBlock]) (.ok ()) c := by
  have hlast : (do
      Firmware.clean MonitorParams.layout c.places.monitorParams c.monitorParams
      Firmware.clean EntryPoint.layout c.places.payloadEntry c.payloadEntry :
        Action Context ε Unit).Path c [cleaned c.paramsBlock, cleaned c.payloadBlock]
          (.ok ()) c :=
    (Action.path_query_bind_iff (q := .clean _)).2
      ⟨(), _, rfl, (Action.path_query_iff (q := .clean _)).2 ⟨(), rfl, rfl, rfl⟩⟩
  refine Action.path_get_bind_iff.2 ?_
  cases withSecureOs with
  | false => exact hlast
  | true => exact (Action.path_query_bind_iff (q := .clean _)).2 ⟨(), _, rfl, hlast⟩

theorem path_finish_intro (entry : UInt64) (withSecureOs : Bool) (hcustom : c.extension ≠ .custom)
    (hphase : c.phase = .assembleParams) (ht : t = c.prepared payload) :
    (finish payload entry withSecureOs).Path c
      (entered .flushCache :: ((if withSecureOs then [cleaned t.secureOsBlock] else []) ++
        [cleaned t.paramsBlock, cleaned t.payloadBlock]))
      (.ok ⟨entry, c.places.monitorParams, 0⟩) t := by
  subst ht
  have hle : c.phase ≤ .flushCache := by
    rw [hphase]
    decide
  have hextend : (extendParams : Action Context BootError UInt64).Path
      { c.prepared payload with phase := c.phase } [] (.ok 0)
      { c.prepared payload with phase := c.phase } :=
    (path_extendParams_iff (by exact hcustom)).2 ⟨rfl, rfl, rfl⟩
  have hclean : (cleanParams withSecureOs : Action Context BootError Unit).Path
      (c.prepared payload) _ (.ok ()) (c.prepared payload) := path_cleanParams_intro _ withSecureOs
  have hend : (do return ⟨entry, (← get).places.monitorParams, 0⟩ :
      Action Context BootError Jump).Path (c.prepared payload) []
        (.ok ⟨entry, c.places.monitorParams, 0⟩) (c.prepared payload) :=
    Action.path_get_bind_iff.2 (Action.path_pure_iff.2 ⟨rfl, rfl, rfl⟩)
  have hrest := path_enter_bind_of_le (c := { c.prepared payload with phase := c.phase }) hle
    (f := fun _ => cleanParams withSecureOs >>= fun _ => _) (hclean.bind hend)
  rw [List.append_nil] at hrest
  exact Action.path_modify_bind_iff.2 (hextend.bind hrest)

theorem path_assemble_none_intro {entry : UInt64} (hcustom : c.extension ≠ .custom)
    (hphase : c.phase ≤ .assembleParams) (hfresh : c.monitorParams = .fresh)
    (ht : t = c.assembling.prepared payload) :
    (assemble decoder payload entry none).Path c
      [entered .assembleParams, entered .flushCache, cleaned t.paramsBlock, cleaned t.payloadBlock]
      (.ok ⟨entry, c.places.monitorParams, 0⟩) t := by
  have hassembling : { c with phase := Phase.assembleParams } = c.assembling := by
    unfold Context.assembling
    rw [← hfresh]
  refine path_enter_bind_of_le hphase ?_
  rw [hassembling]
  exact path_finish_intro (c := c.assembling) entry false hcustom rfl ht

theorem path_describeSecureOs_ok {pc : UInt64} {u : Context}
    (hadjust : Adjusts decoder (c.describing pc) steps (.ok ()) u) :
    (describeSecureOs decoder pc).Path c.assembling steps (.ok ()) u.described := by
  have hpoint : (modify Context.described : Action Context BootError PUnit).Path u [] (.ok ⟨⟩)
      u.described := Action.path_modify_iff.2 ⟨rfl, rfl, rfl⟩
  have hboth := hadjust.path.bind (f := fun _ => modify Context.described) hpoint
  rw [List.append_nil] at hboth
  exact Action.path_modify_bind_iff.2 hboth

theorem path_describeSecureOs_error {pc : UInt64} {stop : Stop BootError}
    (hadjust : Adjusts decoder (c.describing pc) steps (.error stop) t) :
    (describeSecureOs decoder pc).Path c.assembling steps (.error stop) t :=
  Action.path_modify_bind_iff.2 hadjust.path.bind_error

theorem path_assemble_some_ok {entry pc : UInt64} {u : Context} (hcustom : c.extension ≠ .custom)
    (hphase : c.phase ≤ .assembleParams) (hfresh : c.monitorParams = .fresh)
    (hadjust : Adjusts decoder (c.describing pc) steps (.ok ()) u)
    (ht : t = u.described.prepared payload) :
    (assemble decoder payload entry (some pc)).Path c
      (entered .assembleParams :: (steps ++ [entered .flushCache, cleaned t.secureOsBlock,
        cleaned t.paramsBlock, cleaned t.payloadBlock]))
      (.ok ⟨entry, c.places.monitorParams, 0⟩) t := by
  obtain ⟨-, hplaces, hphase', -, hkeeps⟩ := hadjust.keeps
  have hfinish := path_finish_intro (c := u.described) entry true (hkeeps hcustom) hphase' ht
  rw [show u.described.places = c.places from hplaces] at hfinish
  refine path_enter_bind_of_le hphase ?_
  rw [show { c with phase := Phase.assembleParams } = c.assembling from hfresh ▸ rfl]
  exact (path_describeSecureOs_ok hadjust).bind hfinish

theorem path_assemble_some_error {entry pc : UInt64} {stop : Stop BootError}
    (hphase : c.phase ≤ .assembleParams) (hfresh : c.monitorParams = .fresh)
    (hadjust : Adjusts decoder (c.describing pc) steps (.error stop) t) :
    (assemble decoder payload entry (some pc)).Path c (entered .assembleParams :: steps)
      (.error stop) t := by
  refine path_enter_bind_of_le hphase ?_
  rw [show { c with phase := Phase.assembleParams } = c.assembling from hfresh ▸ rfl]
  exact (path_describeSecureOs_error hadjust).bind_error

/-- A secure OS that the board has is got in its own phase. -/
theorem path_loadSecureOs?_intro {secureOs : SecureOsConfig}
    {loaded : Except (Stop BootError) UInt64} (hphase : c.phase ≤ .loadSecureOs)
    (hsecureOs : c.config.secureOs = some secureOs)
    (hload : (loadSecureOs c.config registry secureOs).Path steps loaded) :
    (loadSecureOs? registry).Path c (entered .loadSecureOs :: steps) (loaded.map some)
      { c with phase := .loadSecureOs } := by
  refine Action.path_get_bind_iff.2 ?_
  dsimp only
  rw [hsecureOs]
  refine path_enter_bind_of_le hphase (Action.path_task_bind_iff.2 ?_)
  cases loaded with
  | ok pc =>
    exact .inl ⟨steps, [], pc, (List.append_nil _).symm, hload,
      Action.path_pure_iff.2 ⟨rfl, rfl, rfl⟩⟩
  | error stop => exact .inr ⟨stop, hload, rfl, rfl⟩

theorem path_loadSecureOs?_none (registry : Registry) (hsecureOs : c.config.secureOs = none) :
    (loadSecureOs? registry).Path c [] (.ok none) c := by
  refine Action.path_get_bind_iff.2 ?_
  dsimp only
  rw [hsecureOs]
  exact Action.path_pure_iff.2 ⟨rfl, rfl, rfl⟩

/-- The state behind the image of the secure monitor. -/
def Context.monitored (c : Context) : Context :=
  { c with phase := .loadMonitor, monitorParams := .fresh }

/-- A preparation that has the image of the secure monitor. -/
theorem path_prepare_of_monitor {forMonitor : List Step} {monitor : Image.Loaded}
    {result : Except (Stop BootError) Jump} (hphase : c.phase ≤ .loadMonitor)
    (hmonitor : (Image.load c.config registry c.config.monitor).Path forMonitor (.ok monitor))
    (h : (loadSecureOs? registry >>= assemble decoder payload monitor.entry).Path c.monitored steps
      result t) :
    (prepare decoder registry payload).Path c (entered .loadMonitor :: (forMonitor ++ steps))
      result t :=
  path_enter_bind_of_le hphase (Action.path_get_bind_iff.2 (Action.path_widen_bind_iff.2
    (.inl ⟨forMonitor, steps, monitor, rfl, hmonitor, h⟩)))

/-- **Every course is a path through the preparation.** -/
theorem Course.path {result : Except (Stop BootError) Jump} (hcustom : c.extension ≠ .custom)
    (h : Course decoder registry payload c steps result t) :
    (prepare decoder registry payload).Path c steps result t := by
  have hload : c.monitored.phase ≤ .loadSecureOs := show Phase.loadMonitor ≤ _ by decide
  have halone : c.monitored.phase ≤ .assembleParams := show Phase.loadMonitor ≤ _ by decide
  have hboth : Phase.loadSecureOs ≤ .assembleParams := by decide
  cases h with
  | late hphase => exact path_enter_bind_iff.2 (.inr ⟨hphase, rfl, rfl, rfl⟩)
  | noMonitor hphase hmonitor =>
    exact path_enter_bind_of_le hphase (Action.path_get_bind_iff.2 (Action.path_widen_bind_iff.2
      (.inr ⟨_, hmonitor, rfl, rfl⟩)))
  | noSecureOs hphase hmonitor hsecureOs hpath =>
    refine path_prepare_of_monitor hphase hmonitor (Action.Path.bind_error ?_)
    exact path_loadSecureOs?_intro hload hsecureOs hpath
  | notAdjusted hphase hmonitor hsecureOs hpath hadjust =>
    refine path_prepare_of_monitor hphase hmonitor ?_
    have hsecureOs? := path_loadSecureOs?_intro (c := c.monitored) hload hsecureOs hpath
    exact hsecureOs?.bind (path_assemble_some_error hboth rfl hadjust)
  | alone hphase hmonitor hsecureOs ht =>
    refine path_prepare_of_monitor hphase hmonitor ?_
    have hnone := path_loadSecureOs?_none (c := c.monitored) registry hsecureOs
    exact hnone.bind (path_assemble_none_intro (by exact hcustom) halone rfl ht)
  | complete hphase hmonitor hsecureOs hpath hadjust ht =>
    refine path_prepare_of_monitor hphase hmonitor ?_
    have hsecureOs? := path_loadSecureOs?_intro (c := c.monitored) hload hsecureOs hpath
    exact hsecureOs?.bind (path_assemble_some_ok (by exact hcustom) hboth rfl hadjust ht)

/-- **The courses are the paths through the preparation.** -/
theorem path_iff_course {result : Except (Stop BootError) Jump} (hcustom : c.extension ≠ .custom) :
    (prepare decoder registry payload).Path c steps result t ↔
      Course decoder registry payload c steps result t :=
  ⟨course_of_path hcustom, Course.path hcustom⟩

end Handoff
end BootHandoff
