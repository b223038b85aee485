/-
# When a preparation halts

A preparation that starts in time halts for one of two reasons: its board names
a stage that the registry has no slot for, or the platform broke a promise.
`Course.blame` says so; the parts are those of the course.
-/

import BootHandoff.Proofs.Handoff.Course
import BootHandoff.Proofs.Image.Halting
import BootHandoff.Proofs.SecureOs.Halting

namespace BootHandoff
namespace Handoff

open Board Flash Platform SecureOs Verified

variable {own : Halt → Prop} {decoder : KeyStore.Decoder} {registry : Registry}
  {payload : Payload} {config : BootConfig} {stage : StageSpec} {c t : Context}
  {steps : List Step} {h : Halt}

theorem Copied.blame {region : Region} {answer : Except DriverError Memory.MibRange}
    (hcopied : Copied config region answer steps (.error (.halt h))) :
    own h ∨ ∃ step ∈ ⟨.carveout .tz, answer⟩ :: steps, Fault step h := by
  generalize hend : Except.error (Stop.halt h) = result at hcopied
  cases hcopied with
  | unreported e => cases hend
  | refused hplace =>
    obtain rfl := Except.error.inj hend
    exact .inr ⟨_, List.mem_cons_self, fault_of_placement hplace⟩
  | denied hplace e => cases hend
  | failed hplace hcopy =>
    rename_i tz address held copying stop
    cases stop with
    | error e => cases hend
    | halt h' =>
      obtain rfl := Stop.halt.inj (Except.error.inj hend)
      have hwindow := Image.fault_of_copyToMemory_halt hcopy
      exact .inr ⟨_, List.mem_cons_of_mem _ List.mem_cons_self, hwindow⟩
  | stored hplace hcopy text => cases hend

theorem haltsOnly_copySecureOs (config : BootConfig) (registry : Registry) (stage : StageSpec) :
    (copySecureOs config registry stage).HaltsOnly (Image.Misindexed config stage) := by
  intro steps h hpath
  rcases path_copySecureOs hpath with
    ⟨stop, hlocate, hend⟩ | ⟨forImage, region, answer, rest, -, rfl, hcopied⟩
  · have hwiden : ((Image.locate config registry stage).widen BootError.load).HaltsOnly
        (Image.Misindexed config stage) :=
      Task.haltsOnly_widen (Image.haltsOnly_locate config registry stage)
    exact hwiden _ _ (Task.path_widen_error_iff.2 ⟨stop, hlocate, Except.error.inj hend⟩)
  · exact blame_append_left forImage hcopied.blame

theorem haltsOnly_loadSecureOs (config : BootConfig) (registry : Registry)
    (secureOs : SecureOsConfig) :
    (loadSecureOs config registry secureOs).HaltsOnly
      (Image.Misindexed config secureOs.stage) := by
  unfold loadSecureOs
  split
  · exact Task.haltsOnly_bind (Task.haltsOnly_widen (Image.haltsOnly_load _ _ _)) fun _ =>
      Task.haltsOnly_pure _
  · exact haltsOnly_copySecureOs _ _ _

theorem Adjusts.blame (hadjust : Adjusts decoder c steps (.error (.halt h)) t) :
    own h ∨ ∃ step ∈ steps, Fault step h := by
  cases hadjust with
  | filled hextension hfill => exact haltsOnly_fill _ _ _ _ _ _ _ hfill

/-- **Whom the halt of a preparation is to blame on,** if it starts in time: on
the board or on the platform. -/
theorem Course.blame (hphase : c.phase ≤ .loadMonitor)
    (hcourse : Course decoder registry payload c steps (.error (.halt h)) t) :
    c.config.Misindexes h ∨ ∃ step ∈ steps, Fault step h := by
  generalize hend : Except.error (Stop.halt h) = result at hcourse
  cases hcourse with
  | late hlate => exact absurd hphase hlate
  | noMonitor hphase hmonitor =>
    rename_i forMonitor stop
    cases stop with
    | error e => cases hend
    | halt h' =>
      obtain rfl := Stop.halt.inj (Except.error.inj hend)
      refine blame_append_left [_] ?_
      exact ((Image.haltsOnly_load _ _ _) _ _ hmonitor).imp_left fun hown =>
        ⟨_, c.config.monitor_mem_stages, hown⟩
  | noSecureOs hphase hmonitor hsecureOs hload =>
    rename_i forMonitor forSecureOs monitor secureOs stop
    obtain rfl := Except.error.inj hend
    refine blame_append_left [_] (blame_append_left forMonitor (blame_append_left [_] ?_))
    exact ((haltsOnly_loadSecureOs _ _ _) _ _ hload).imp_left fun hown =>
      ⟨_, BootConfig.secureOs_mem_stages hsecureOs, hown⟩
  | notAdjusted hphase hmonitor hsecureOs hload hadjust =>
    rename_i forMonitor forSecureOs adjusting monitor secureOs pc stop
    obtain rfl := Except.error.inj hend
    exact blame_append_left [_] (blame_append_left forMonitor (blame_append_left [_]
      (blame_append_left forSecureOs (blame_append_left [_] hadjust.blame))))
  | alone hphase hmonitor hsecureOs ht => cases hend
  | complete hphase hmonitor hsecureOs hload hadjust ht => cases hend

end Handoff
end BootHandoff
