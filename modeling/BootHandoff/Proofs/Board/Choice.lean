/-
# A build is for exactly one board

The build script goes through the environment once and remembers one board at most.  That is
enough: how it ends is told by the list of all variables of boards, in their order
(`build_eq`).

| variables of boards | printed | given up |
| --- | --- | --- |
| none | nothing | as there is no board |
| one | the line for its feature | no |
| two or more | nothing | over the first two |

The environment is in no order that means anything, so a different order must not make a
different build.  It can only make other boards the first two of several.

The feature is found from the variable by undoing what the build tool does to the feature.  For
a feature of small letters, digits and dashes nothing is lost on the way
(`shown_variableName`).
-/

import BootHandoff.Board.Feature
import Mathlib.Data.List.Perm.Basic

namespace BootHandoff
namespace Board

variable {name : String} {suffix : List Char} {environment environment' : List (String × String)}

/-- The name is that of a board's variable. -/
def NamesBoard (name : String) : Prop := "CARGO_FEATURE_TARGET_BOARD_".toList <+: name.toList

instance (name : String) : Decidable (NamesBoard name) := inferInstanceAs (Decidable (_ <+: _))

/-- The names of the variables of boards, in the order of the environment. -/
def boards (environment : List (String × String)) : List String :=
  (environment.map Prod.fst).filter NamesBoard

/-- What the name of a board's variable ends with. -/
def suffixOf (name : String) : List Char := name.toList.drop variableStart.length

/-- The feature that is shown for a board's variable. -/
def shown (name : String) : String := featureName (suffixOf name)

theorem shown_eq (name : String) :
    shown name = "target-board-" ++ String.ofList ((suffixOf name).map featureChar) := rfl

theorem boardSuffix?_eq_some_iff :
    boardSuffix? name = some suffix ↔ variableStart ++ suffix = name.toList :=
  List.isPrefixOf?_eq_some_iff_append_eq

theorem boardSuffix?_of_namesBoard (h : NamesBoard name) :
    boardSuffix? name = some (suffixOf name) := by
  obtain ⟨suffix, hsuffix⟩ : variableStart <+: name.toList := h
  rw [suffixOf, ← hsuffix, List.drop_left]
  exact boardSuffix?_eq_some_iff.2 hsuffix

theorem boardSuffix?_of_not_namesBoard (h : ¬NamesBoard name) : boardSuffix? name = none := by
  refine Option.eq_none_iff_forall_ne_some.2 fun suffix hsuffix => h ?_
  exact ⟨suffix, boardSuffix?_eq_some_iff.1 hsuffix⟩

/-- What looking for a board comes to, from the ends of the names of all of them. -/
def verdict : List (List Char) → Except FeatureError (Option (List Char))
  | [] => .ok none
  | [only] => .ok (some only)
  | first :: second :: _ => .error (.multiple (featureName first) (featureName second))

/-- **The search comes to what all boards come to,** the one that was found before it and those
that are ahead. -/
theorem findBoard_eq (found : Option (List Char)) (names : List String) :
    findBoard found names = verdict (found.toList ++ (names.filter NamesBoard).map suffixOf) := by
  induction names generalizing found with
  | nil => cases found <;> rfl
  | cons name names ih =>
    rw [findBoard]
    by_cases hboard : NamesBoard name
    · have hfilter : (name :: names).filter NamesBoard = name :: names.filter NamesBoard :=
        List.filter_cons_of_pos (by simpa using hboard)
      rw [boardSuffix?_of_namesBoard hboard, hfilter, List.map_cons]
      cases found with
      | none => exact ih (some (suffixOf name))
      | some previous => rfl
    · have hfilter : (name :: names).filter NamesBoard = names.filter NamesBoard :=
        List.filter_cons_of_neg (by simpa using hboard)
      rw [boardSuffix?_of_not_namesBoard hboard, hfilter]
      exact ih found

/-- The script has printed the line for a feature. -/
def chosen (feature : String) : Except Halt Unit × List String :=
  (.ok (), ["cargo:rustc-env=RYUBOOT_BOARD=" ++ feature])

/-- The script has printed nothing and given up, as there is no board. -/
def unchosen : Except Halt Unit × List String :=
  (.error (.died "missing target-board-* feature"), [])

/-- The script has printed nothing and given up over the features of two boards. -/
def ambiguous (first second : String) : Except Halt Unit × List String :=
  (.error (.died
    s!"multiple target board features defined (at least {first} and {second})"), [])

/-- How the script ends for these variables of boards. -/
def ending : List String → Except Halt Unit × List String
  | [] => unchosen
  | [only] => chosen (shown only)
  | first :: second :: _ => ambiguous (shown first) (shown second)

/-- **How the script ends is told by the variables of boards.** -/
theorem build_eq (environment : List (String × String)) :
    build environment = ending (boards environment) := by
  rw [build, buildScript, chooseFeature, findBoard_eq, ← boards]
  match boards environment with
  | [] => rfl
  | [only] => rfl
  | first :: second :: _ => rfl

theorem unchosen_ne_chosen (feature : String) : unchosen ≠ chosen feature := nofun

theorem ambiguous_ne_chosen (first second feature : String) :
    ambiguous first second ≠ chosen feature := nofun

/-- Of the two reasons to give up, each has its own text. -/
theorem unchosen_ne_ambiguous (first second : String) : unchosen ≠ ambiguous first second := by
  intro h
  have htext := Halt.died.inj (Except.error.inj (congrArg Prod.fst h))
  have hletter := congrArg (fun text : String => text.toList[1]?) htext
  simp [String.toList_append, toString] at hletter

section Endings

variable (names : List String)

theorem ending_eq_chosen_iff : (∃ feature, ending names = chosen feature) ↔ names.length = 1 := by
  match names with
  | [] => exact iff_of_false (fun ⟨_, h⟩ => unchosen_ne_chosen _ h) (by simp)
  | [only] => exact iff_of_true ⟨_, rfl⟩ rfl
  | first :: second :: _ => exact iff_of_false (fun ⟨_, h⟩ => ambiguous_ne_chosen _ _ _ h) (by simp)

theorem ending_eq_unchosen_iff : ending names = unchosen ↔ names.length = 0 := by
  match names with
  | [] => exact iff_of_true rfl rfl
  | [only] => exact iff_of_false (unchosen_ne_chosen _).symm (by simp)
  | first :: second :: _ => exact iff_of_false (unchosen_ne_ambiguous _ _).symm (by simp)

theorem ending_eq_ambiguous_iff :
    (∃ first second, ending names = ambiguous first second) ↔ 2 ≤ names.length := by
  match names with
  | [] => exact iff_of_false (fun ⟨_, _, h⟩ => unchosen_ne_ambiguous _ _ h) (by simp)
  | [only] => exact iff_of_false (fun ⟨_, _, h⟩ => ambiguous_ne_chosen _ _ _ h.symm) (by simp)
  | first :: second :: _ => exact iff_of_true ⟨_, _, rfl⟩ (by simp)

/-- The same names in another order make the same kind of end. -/
theorem ending_of_perm {names names' : List String} (h : names'.Perm names) :
    (∃ feature, ending names' = chosen feature ∧ ending names = chosen feature) ∨
    (ending names' = unchosen ∧ ending names = unchosen) ∨
    ∃ first second first' second', ending names' = ambiguous first' second' ∧
      ending names = ambiguous first second := by
  match names with
  | [] =>
    obtain rfl := List.perm_nil.1 h
    exact .inr (.inl ⟨rfl, rfl⟩)
  | [only] =>
    obtain rfl := List.perm_singleton.1 h
    exact .inl ⟨_, rfl, rfl⟩
  | first :: second :: rest =>
    -- Which names are the first two may differ, but not that there are two.
    have hlen : 2 ≤ names'.length := by
      rw [h.length_eq]
      simp
    obtain ⟨first', second', hother⟩ := (ending_eq_ambiguous_iff names').2 hlen
    exact .inr (.inr ⟨_, _, first', second', hother, rfl⟩)

end Endings

/-- A different order of the environment is a different order of the boards. -/
theorem perm_boards (h : environment'.Perm environment) :
    (boards environment').Perm (boards environment) :=
  (h.map Prod.fst).filter _

/-- A character of a variable's name, from the feature's name. -/
def variableChar (c : Char) : Char :=
  let c := c.toUpper
  if c = '-' then '_' else c

/-- The name of the variable that the build tool passes a feature in. -/
def variableName (feature : String) : String :=
  "CARGO_FEATURE_" ++ String.ofList (feature.toList.map variableChar)

/-- A small letter, a digit or a dash, of which nothing is lost in a variable's name. -/
def IsPlain (c : Char) : Prop := c.isLower = true ∨ c.isDigit = true ∨ c = '-'

instance (c : Char) : Decidable (IsPlain c) := inferInstanceAs (Decidable (_ ∨ _ ∨ _))

theorem featureChar_variableChar {c : Char} (h : IsPlain c) :
    featureChar (variableChar c) = c := by
  have hall : ∀ i : Fin 128, IsPlain (Char.ofNat i) →
      featureChar (variableChar (Char.ofNat i)) = Char.ofNat i := by decide +kernel
  have hlt : c.toNat < 128 := by
    rcases h with hlower | hdigit | rfl
    · have hle : c.val ≤ 'z'.val := of_decide_eq_true (Bool.and_eq_true_iff.1 hlower).2
      exact Nat.lt_of_le_of_lt (UInt32.le_iff_toNat_le.1 hle) (by decide)
    · have hle : c.val ≤ '9'.val := of_decide_eq_true (Bool.and_eq_true_iff.1 hdigit).2
      exact Nat.lt_of_le_of_lt (UInt32.le_iff_toNat_le.1 hle) (by decide)
    · decide
  have hc := hall ⟨c.toNat, hlt⟩
  rw [Char.ofNat_toNat] at hc
  exact hc h

theorem toList_append_ofList (s : String) (l : List Char) :
    (s ++ String.ofList l).toList = s.toList ++ l := by
  rw [String.toList_append, String.toList_ofList]

theorem toList_variableName (x : List Char) :
    (variableName ("target-board-" ++ String.ofList x)).toList =
      variableStart ++ x.map variableChar := by
  have hstart : "CARGO_FEATURE_".toList ++ "target-board-".toList.map variableChar =
      variableStart := by decide +kernel
  calc
    _ = "CARGO_FEATURE_".toList ++ ("target-board-" ++ String.ofList x).toList.map variableChar :=
      toList_append_ofList _ _
    _ = "CARGO_FEATURE_".toList ++ ("target-board-".toList ++ x).map variableChar :=
      congrArg (fun feature => _ ++ feature.map variableChar) (toList_append_ofList _ _)
    _ = variableStart ++ x.map variableChar := by
      rw [List.map_append, ← List.append_assoc, hstart]

theorem map_featureChar_variableChar {x : List Char} (h : ∀ c ∈ x, IsPlain c) :
    (x.map variableChar).map featureChar = x := by
  induction x with
  | nil => rfl
  | cons c x ih =>
    obtain ⟨hc, hx⟩ := List.forall_mem_cons.1 h
    rw [List.map_cons, List.map_cons, featureChar_variableChar hc, ih hx]

/-- **A feature is shown as it is named.** -/
theorem shown_variableName {x : List Char} (h : ∀ c ∈ x, IsPlain c) :
    shown (variableName ("target-board-" ++ String.ofList x)) =
      "target-board-" ++ String.ofList x := by
  have hsuffix : suffixOf (variableName ("target-board-" ++ String.ofList x)) =
      x.map variableChar :=
    (congrArg (List.drop _) (toList_variableName x)).trans List.drop_left
  rw [shown_eq, hsuffix, map_featureChar_variableChar h]

/-- **A build is for exactly one board.**  The script prints one line exactly if one variable of
the environment is that of a board.  Without any, and with two or more, it prints nothing and
gives up: as there is no board, or over the first two of them in their order.  In another order
of the environment it ends in the same one of these three ways, and prints the same.  And
whatever feature of small letters, digits and dashes the one variable is for, the line names
it. -/
theorem build_ends (environment : List (String × String)) :
    ((∃ feature, build environment = chosen feature) ↔ (boards environment).length = 1) ∧
    (build environment = unchosen ↔ (boards environment).length = 0) ∧
    ((∃ first second, build environment = ambiguous first second) ↔
      2 ≤ (boards environment).length) ∧
    (∀ first second rest, boards environment = first :: second :: rest →
      build environment = ambiguous (shown first) (shown second)) ∧
    (∀ environment', environment'.Perm environment →
      (∃ feature, build environment' = chosen feature ∧ build environment = chosen feature) ∨
      (build environment' = unchosen ∧ build environment = unchosen) ∨
      ∃ first second first' second', build environment' = ambiguous first' second' ∧
        build environment = ambiguous first second) ∧
    ∀ x : List Char, (∀ c ∈ x, IsPlain c) →
      boards environment = [variableName ("target-board-" ++ String.ofList x)] →
      build environment = chosen ("target-board-" ++ String.ofList x) := by
  rw [build_eq]
  refine ⟨ending_eq_chosen_iff _, ending_eq_unchosen_iff _, ending_eq_ambiguous_iff _,
    fun first second rest h => ?_, fun environment' hperm => ?_, fun x hx h => ?_⟩
  · rw [h]
    rfl
  · rw [build_eq]
    exact ending_of_perm (perm_boards hperm)
  · rw [h, ending, shown_variableName hx]

end Board
end BootHandoff
