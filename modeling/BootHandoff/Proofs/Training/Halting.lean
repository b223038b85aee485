/-
# When the training halts

The training checks what its code answers, the size of the table and the room
for it, but not the windows that the platform gives it.  So, like a
preparation, it halts over a stage that the registry has no slot for, or over a
fault of the platform.
-/

import BootHandoff.Proofs.Image.Halting
import BootHandoff.Proofs.Training.Course

namespace BootHandoff
namespace Training

open Board Flash Platform Verified

/-- **The training halts over its board or over a fault of the platform.** -/
theorem haltsOnly_run {n : Nat} (config : BootConfig) (registry : Registry) (place : UInt64) :
    (run config registry place : Action (Buffer n) Error Table).HaltsOnly config.Misindexes := by
  intro area steps h area' hpath
  have hcourse := course_of_path hpath
  generalize hresult : Except.error (Stop.halt h) = result at hcourse
  cases hcourse with
  | notConfigured hcode => cases hresult
  | @notLocated code _ stop hcode hlocate =>
    cases stop with
    | error e => cases hresult
    | halt h' =>
      obtain rfl := Stop.halt.inj (Except.error.inj hresult)
      exact (Image.haltsOnly_locate _ _ _ _ _ hlocate).imp_left fun hown =>
        ⟨code.stage, BootConfig.training_mem_stages hcode, hown⟩
  | tooLarge hcode hlocate hlarge => cases hresult
  | notCopied hcode hlocate hfits hcopied =>
    obtain rfl := Except.error.inj hresult
    cases hcopied with
    | outside hshort =>
      exact .inr ⟨_, List.mem_append_right _ List.mem_cons_self, .window (by simpa using hshort)⟩
  | @trained _ _ _ _ _ source size _ _ hcode hlocate hfits hcopied hanswered =>
    subst hresult
    cases hanswered with
    | valid hpos hmax text hkept =>
      cases hkept with
      | @mismatch hroom held hlength =>
        exact .inr ⟨⟨.window source size, .ok held⟩, by simp, .table hlength⟩

end Training
end BootHandoff
