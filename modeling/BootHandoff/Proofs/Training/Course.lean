/-
# The courses that training can take

Training can stop at five places before its code is run, and at four behind it.
`Course` has all of these courses with their steps, their ends and the buffer they
leave, put together from how the code is copied (`Copied`), what follows from its
answer (`Answered`) and how the table is copied (`Kept`).  `course_of_path` says that
there are no others.

The code is run on one course only, on which it was copied in full.  What the buffer
holds changes at one end only.
-/

import BootHandoff.Proofs.Image.Copying
import BootHandoff.Proofs.Image.Sources
import BootHandoff.Training.Run

namespace BootHandoff
namespace Training

open Board Flash Platform Verified

variable {config : BootConfig} {registry : Registry} {code : TrainingConfig} {region : Region}
  {place source size : UInt64} {n : Nat} {buf t : Buffer n} {steps : List Step}

/-- How the code is copied to its place. -/
inductive Copied (code : TrainingConfig) (region : Region) :
    List Step → Except (Stop Error) Unit → Prop where
  | denied (e : DriverError) :
      Copied code region [⟨.window code.loadAddress region.len.toUInt64, .error e⟩]
        (.error (.error (.driver e)))
  | outside {held : Bytes} (hshort : held.length < region.len.toNat) :
      Copied code region [⟨.window code.loadAddress region.len.toUInt64, .ok held⟩,
        ⟨.store code.loadAddress held, ()⟩] (.error (.halt .indexOutOfBounds))
  | cutShort {held : Bytes} {area image : Buffer region.len.toNat} {count : UInt64}
      (harea : area.bytes = held.take region.len.toNat) (hcount : count ≠ region.len.toUInt64)
      (text : String) :
      Copied code region [⟨.window code.loadAddress region.len.toUInt64, .ok held⟩,
        ⟨.readFlash region.offset region.len.toNat area, (count, image)⟩,
        ⟨.store code.loadAddress image.bytes, ()⟩, logged .error text]
        (.error (.error (.load (.shortRead region.len.toUInt64 count))))
  | complete {held : Bytes} {area image : Buffer region.len.toNat}
      (harea : area.bytes = held.take region.len.toNat) (text : String) :
      Copied code region [⟨.window code.loadAddress region.len.toUInt64, .ok held⟩,
        ⟨.readFlash region.offset region.len.toNat area, (region.len.toUInt64, image)⟩,
        ⟨.store code.loadAddress image.bytes, ()⟩, logged .info text] (.ok ())

/-- How the table is copied to a buffer at `place`. -/
inductive Kept (place source size : UInt64) (buf : Buffer n) :
    List Step → Except (Stop Error) Table → Buffer n → Prop where
  | noRoom (hlarge : n < size.toNat) :
      Kept place source size buf [] (.error (.error (.noRoom size))) buf
  | denied (hroom : size.toNat ≤ n) (e : DriverError) :
      Kept place source size buf [⟨.window source size, .error e⟩]
        (.error (.error (.driver e))) buf
  | mismatch (hroom : size.toNat ≤ n) {held : Bytes} (hlength : held.length ≠ size.toNat) :
      Kept place source size buf [⟨.window source size, .ok held⟩]
        (.error (.halt .lengthMismatch)) buf
  | complete (hroom : size.toNat ≤ n) {held : Bytes} (hlength : held.length = size.toNat)
      (text : String) :
      Kept place source size buf [⟨.window source size, .ok held⟩, logged .info text]
        (.ok ⟨place, size⟩) (buf.overwrite held)

/-- What follows from the answer of the code. -/
inductive Answered (place source size : UInt64) (buf : Buffer n) :
    List Step → Except (Stop Error) Table → Buffer n → Prop where
  | invalid (hsize : size.toNat = 0 ∨ maxTableSize < size.toNat) (text : String) :
      Answered place source size buf [logged .error text]
        (.error (.error (.invalidTableSize size))) buf
  | valid (hpos : 0 < size.toNat) (hmax : size.toNat ≤ maxTableSize) (text : String)
      {keeping : List Step} {result : Except (Stop Error) Table} {t : Buffer n}
      (hkept : Kept place source size buf keeping result t) :
      Answered place source size buf (logged .info text :: keeping) result t

/-- The courses that training can take with a buffer. -/
inductive Course (config : BootConfig) (registry : Registry) (place : UInt64) (buf : Buffer n) :
    List Step → Except (Stop Error) Table → Buffer n → Prop where
  | notConfigured (hcode : config.training = none) :
      Course config registry place buf [] (.error (.error .notConfigured)) buf
  | notLocated {code : TrainingConfig} {forImage : List Step} {stop : Stop LoadError}
      (hcode : config.training = some code)
      (hlocate : (Image.locate config registry code.stage).Path forImage (.error stop)) :
      Course config registry place buf forImage (.error (stop.map .load)) buf
  | tooLarge {code : TrainingConfig} {forImage : List Step} {region : Region}
      (hcode : config.training = some code)
      (hlocate : (Image.locate config registry code.stage).Path forImage (.ok region))
      (hlarge : ¬region.len.toUInt64 ≤ code.maxSize) :
      Course config registry place buf forImage
        (.error (.error (.tooLarge region.len.toUInt64 code.maxSize))) buf
  | notCopied {code : TrainingConfig} {forImage copying : List Step} {region : Region}
      {stop : Stop Error} (hcode : config.training = some code)
      (hlocate : (Image.locate config registry code.stage).Path forImage (.ok region))
      (hfits : region.len.toUInt64 ≤ code.maxSize)
      (hcopied : Copied code region copying (.error stop)) :
      Course config registry place buf (forImage ++ copying) (.error stop) buf
  | trained {code : TrainingConfig} {forImage copying rest : List Step} {region : Region}
      {source size : UInt64} {result : Except (Stop Error) Table} {t : Buffer n}
      (hcode : config.training = some code)
      (hlocate : (Image.locate config registry code.stage).Path forImage (.ok region))
      (hfits : region.len.toUInt64 ≤ code.maxSize)
      (hcopied : Copied code region copying (.ok ()))
      (hanswered : Answered place source size buf rest result t) :
      Course config registry place buf
        (forImage ++ (copying ++ ⟨.train code.loadAddress, (source, size)⟩ :: rest)) result t

theorem path_locateCode {result : Except (Stop Error) Region}
    (h : (locateCode config registry code).Path steps result) :
    (∃ region, (Image.locate config registry code.stage).Path steps (.ok region) ∧
      result = if region.len.toUInt64 ≤ code.maxSize then .ok region
        else .error (.error (.tooLarge region.len.toUInt64 code.maxSize))) ∨
    ∃ stop, (Image.locate config registry code.stage).Path steps (.error stop) ∧
      result = .error (stop.map .load) := by
  rcases Task.path_widen_bind_iff.1 h with
    ⟨forImage, rest, region, rfl, hlocate, hsize⟩ | ⟨stop, hlocate, rfl⟩
  · refine .inl ⟨region, ?_⟩
    dsimp only at hsize
    split at hsize
    · rename_i hle
      obtain ⟨rfl, rfl⟩ := Task.path_pure_iff.1 hsize
      exact ⟨by rwa [List.append_nil], (if_pos hle).symm⟩
    · rename_i hnle
      obtain ⟨rfl, rfl⟩ := Task.path_fail_iff.1 hsize
      exact ⟨by rwa [List.append_nil], (if_neg hnle).symm⟩
  · exact .inr ⟨stop, hlocate, rfl⟩

theorem copied_of_path {result : Except (Stop Error) Unit}
    (h : (copyCode code region).Path steps result) : Copied code region steps result := by
  obtain ⟨held?, rest, rfl, hheld⟩ := (Task.path_query_bind_iff (q := .window _ _)).1 h
  rcases Task.path_accept_bind_iff.1 hheld with ⟨held, rfl, hcopy⟩ | ⟨e, rfl, rfl, rfl⟩
  · obtain ⟨copying, last, ending, rfl, hcopy', hend⟩ := Task.path_lift_bind_iff.1 hcopy
    rcases Image.path_copyToMemory hcopy' with
      ⟨hshort, rfl, rfl⟩ | ⟨area, count, image, harea, rfl, rfl⟩
    · obtain ⟨rfl, rfl⟩ := Task.path_halt_iff.1 hend
      exact .outside hshort
    · by_cases hcount : count = region.len.toUInt64
      · obtain rfl := hcount
        rw [Image.readResult_eq_ok_iff.2 rfl] at hend
        obtain ⟨⟨⟩, rfl, rfl⟩ := (Task.path_query_iff (q := .log _ _)).1 hend
        exact .complete harea _
      · rw [Image.readResult, if_neg hcount] at hend
        obtain ⟨⟨⟩, last, rfl, hfail⟩ := (Task.path_query_bind_iff (q := .log _ _)).1 hend
        obtain ⟨rfl, rfl⟩ := Task.path_fail_iff.1 hfail
        exact .cutShort harea hcount _
  · exact .denied e

theorem kept_of_path {result : Except (Stop Error) Table}
    (h : (copyTable place source size).Path buf steps result t) :
    Kept place source size buf steps result t := by
  unfold copyTable at h
  split at h
  · rename_i hroom
    obtain ⟨held?, rest, rfl, hheld⟩ := (Action.path_query_bind_iff (q := .window _ _)).1 h
    rcases Action.path_accept_bind_iff.1 hheld with ⟨held, rfl, hcopy⟩ | ⟨e, rfl, rfl, rfl, rfl⟩
    · split at hcopy
      · rename_i hlength
        replace hcopy := Action.path_modify_bind_iff.1 hcopy
        obtain ⟨⟨⟩, last, rfl, hend⟩ := (Action.path_query_bind_iff (q := .log _ _)).1 hcopy
        obtain ⟨rfl, rfl, rfl⟩ := Action.path_pure_iff.1 hend
        exact .complete hroom hlength _
      · rename_i hlength
        obtain ⟨rfl, rfl, rfl⟩ := Action.path_halt_iff.1 hcopy
        exact .mismatch hroom hlength
    · exact .denied hroom e
  · rename_i hlarge
    obtain ⟨rfl, rfl, rfl⟩ := Action.path_fail_iff.1 h
    exact .noRoom (Nat.not_le.1 hlarge)

/-- The training code is run once, and the size that it answers is looked at. -/
theorem path_runCode {result : Except (Stop Error) (UInt64 × UInt64)}
    (h : (runCode code).Path steps result) :
    ∃ source size last, steps = ⟨.train code.loadAddress, (source, size)⟩ :: last ∧
      (((size.toNat = 0 ∨ maxTableSize < size.toNat) ∧ (∃ text, last = [logged .error text]) ∧
          result = .error (.error (.invalidTableSize size))) ∨
        (0 < size.toNat ∧ size.toNat ≤ maxTableSize) ∧ (∃ text, last = [logged .info text]) ∧
          result = .ok (source, size)) := by
  obtain ⟨⟨source, size⟩, last, rfl, hchecked⟩ := (Task.path_query_bind_iff (q := .train _)).1 h
  refine ⟨source, size, last, rfl, ?_⟩
  dsimp only at hchecked
  split at hchecked
  · rename_i hsize
    obtain ⟨⟨⟩, last, rfl, hfail⟩ := (Task.path_query_bind_iff (q := .log _ _)).1 hchecked
    obtain ⟨rfl, rfl⟩ := Task.path_fail_iff.1 hfail
    exact .inl ⟨hsize, ⟨_, rfl⟩, rfl⟩
  · rename_i hsize
    obtain ⟨⟨⟩, last, rfl, hend⟩ := (Task.path_query_bind_iff (q := .log _ _)).1 hchecked
    obtain ⟨rfl, rfl⟩ := Task.path_pure_iff.1 hend
    exact .inr ⟨⟨by omega, by omega⟩, ⟨_, rfl⟩, rfl⟩

theorem answered_of_path {result : Except (Stop Error) Table}
    (h : Action.Path (do
      let (source, size) ← (runCode code : Task Error _)
      copyTable place source size) buf steps result t) :
    ∃ source size rest, steps = ⟨.train code.loadAddress, (source, size)⟩ :: rest ∧
      Answered place source size buf rest result t := by
  rcases Action.path_task_bind_iff.1 h with
    ⟨training, keeping, answer, rfl, htrain, hcopy⟩ | ⟨stop, htrain, rfl, rfl⟩
  · obtain ⟨source, size, last, rfl, ⟨-, -, ⟨⟩⟩ | ⟨⟨hpos, hmax⟩, ⟨text, rfl⟩, hanswer⟩⟩ :=
      path_runCode htrain
    obtain rfl := Except.ok.inj hanswer
    exact ⟨source, size, _, rfl, .valid hpos hmax text (kept_of_path hcopy)⟩
  · obtain ⟨source, size, last, rfl, ⟨hsize, ⟨text, rfl⟩, hstop⟩ | ⟨-, -, ⟨⟩⟩⟩ :=
      path_runCode htrain
    obtain rfl := Except.error.inj hstop
    exact ⟨source, size, _, rfl, .invalid hsize text⟩

/-- **There are no other courses.** -/
theorem course_of_path {result : Except (Stop Error) Table}
    (h : (run config registry place).Path buf steps result t) :
    Course config registry place buf steps result t := by
  unfold run at h
  cases hcode : config.training with
  | none =>
    rw [hcode] at h
    obtain ⟨rfl, rfl, rfl⟩ := Action.path_fail_iff.1 h
    exact .notConfigured hcode
  | some code =>
    rw [hcode] at h
    rcases Action.path_task_bind_iff.1 h with
      ⟨forImage, rest, region, rfl, hlocate, hcopy⟩ | ⟨stop, hlocate, rfl, rfl⟩
    · rcases path_locateCode hlocate with ⟨_, hpath, hregion⟩ | ⟨_, -, ⟨⟩⟩
      split at hregion
      · rename_i hfits
        obtain rfl := Except.ok.inj hregion
        rcases Action.path_task_bind_iff.1 hcopy with
          ⟨copying, training, ⟨⟩, rfl, hcopied, htrain⟩ | ⟨stop, hcopied, rfl, rfl⟩
        · obtain ⟨source, size, rest, rfl, hanswered⟩ := answered_of_path htrain
          exact .trained hcode hpath hfits (copied_of_path hcopied) hanswered
        · exact .notCopied hcode hpath hfits (copied_of_path hcopied)
      · cases hregion
    · rcases path_locateCode hlocate with ⟨region, hpath, hregion⟩ | ⟨stop', hpath, hstop⟩
      · split at hregion
        · cases hregion
        · rename_i hlarge
          obtain rfl := Except.error.inj hregion
          exact .tooLarge hcode hpath hlarge
      · obtain rfl := Except.error.inj hstop
        exact .notLocated hcode hpath

/-- The queries once training code has answered. -/
def Collects : Query → Prop
  | .window .. | .log .. => True
  | _ => False

theorem Collects.not_namesImage {q : Query} (h : Collects q) : ¬q.NamesImage := by
  cases q <;> first | exact id | cases h

theorem Collects.read?_eq_none {q : Query} (h : Collects q) : q.read? = none := by
  cases q <;> first | rfl | cases h

theorem Collects.store?_eq_none {q : Query} (h : Collects q) : q.store? = none := by
  cases q <;> first | rfl | cases h

theorem Collects.train?_eq_none {q : Query} (h : Collects q) : q.train? = none := by
  cases q <;> first | rfl | cases h

theorem Answered.collects {result : Except (Stop Error) Table}
    (h : Answered place source size buf steps result t) : ∀ step ∈ steps, Collects step.query := by
  cases h with
  | invalid => exact List.forall_mem_singleton.2 trivial
  | valid hpos hmax text hkept =>
    refine List.forall_mem_cons.2 ⟨trivial, ?_⟩
    cases hkept <;> simp [Collects, logged]

/-- Locating the code shows nothing that no loader asks. -/
theorem seen_of_locate {α : Type} {view : Query → Option α} {forImage : List Step}
    {end' : Except (Stop LoadError) Region}
    (hlocate : (Image.locate config registry code.stage).Path forImage end')
    (hview : ∀ q, Image.Fetches q → view q = none) : seen view forImage = [] :=
  (Image.asks_locate _ _ _).seen_eq_nil hlocate hview

theorem Copied.train? {result : Except (Stop Error) Unit} (h : Copied code region steps result) :
    seen Query.train? steps = [] := by
  cases h <;> rfl

/-- **Every course,** cut where the code is run.  A course without such a place fails, and leaves
the buffer as it was. -/
theorem Course.cut_of_trains {result : Except (Stop Error) Table}
    (h : Course config registry place buf steps result t) :
    (seen Query.train? steps = [] ∧ (∃ stop, result = .error stop) ∧ t = buf) ∨
    ∃ code forImage region copying source size rest, config.training = some code ∧
      (Image.locate config registry code.stage).Path forImage (.ok region) ∧
      region.len.toUInt64 ≤ code.maxSize ∧ Copied code region copying (.ok ()) ∧
      steps = forImage ++ (copying ++ ⟨.train code.loadAddress, (source, size)⟩ :: rest) ∧
      Answered place source size buf rest result t := by
  have hnone : ∀ {code : TrainingConfig} {forImage : List Step}
      {end' : Except (Stop LoadError) Region},
      (Image.locate config registry code.stage).Path forImage end' →
      seen Query.train? forImage = [] :=
    fun hlocate => seen_of_locate hlocate fun _ h => h.train?_eq_none
  cases h with
  | notConfigured hcode => exact .inl ⟨rfl, ⟨_, rfl⟩, rfl⟩
  | notLocated hcode hlocate => exact .inl ⟨hnone hlocate, ⟨_, rfl⟩, rfl⟩
  | tooLarge hcode hlocate hlarge => exact .inl ⟨hnone hlocate, ⟨_, rfl⟩, rfl⟩
  | notCopied hcode hlocate hfits hcopied =>
    refine .inl ⟨?_, ⟨_, rfl⟩, rfl⟩
    rw [seen_append, hnone hlocate, hcopied.train?]
    rfl
  | trained hcode hlocate hfits hcopied hanswered =>
    exact .inr ⟨_, _, _, _, _, _, _, hcode, hlocate, hfits, hcopied, rfl, hanswered⟩

end Training
end BootHandoff
