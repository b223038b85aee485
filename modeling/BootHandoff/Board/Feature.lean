/-
# Choosing the board of a build

A build is for exactly one board, named by a feature `target-board-…`.  The
build tool passes each feature as an environment variable, its name in capitals
with `_` for `-`.  The build script looks through the variables one after the
other for one that names a board.  It gives up at the second, and names both;
having looked through all, it turns the only one back into its feature for the
line that it prints, or gives up if there was none.
-/

import BootHandoff.Outcome

namespace BootHandoff
namespace Board

/-- Why a build is for no board. -/
inductive FeatureError where
  | missing
  /-- Two boards are chosen, and perhaps more. -/
  | multiple (first second : String)
  deriving DecidableEq, Repr

def FeatureError.message : FeatureError → String
  | .missing => "missing target-board-* feature"
  | .multiple first second =>
    s!"multiple target board features defined (at least {first} and {second})"

/-- What the names of the variables of boards start with. -/
def variableStart : List Char := "CARGO_FEATURE_TARGET_BOARD_".toList

/-- The end of the name of a board's variable, if the name is one. -/
def boardSuffix? (variableName : String) : Option (List Char) :=
  variableStart.isPrefixOf? variableName.toList

/-- A character of a variable's name, in the feature's name. -/
def featureChar (c : Char) : Char :=
  let c := c.toLower
  if c = '_' then '-' else c

/-- The feature of a board, from the end of its variable's name. -/
def featureName (suffix : List Char) : String :=
  "target-board-" ++ String.ofList (suffix.map featureChar)

/-- Looks for a board among the names that are left, behind others among which
`found` was found. -/
def findBoard (found : Option (List Char)) :
    List String → Except FeatureError (Option (List Char))
  | [] => .ok found
  | name :: names =>
    match boardSuffix? name with
    | none => findBoard found names
    | some suffix =>
      match found with
      | none => findBoard (some suffix) names
      | some previous => .error (.multiple (featureName previous) (featureName suffix))

/-- The feature of the one board among the variables. -/
def chooseFeature (variableNames : List String) : Except FeatureError String := do
  match ← findBoard none variableNames with
  | some suffix => return featureName suffix
  | none => throw .missing

/-- The line that tells the build tool the name of the board. -/
def buildLine (feature : String) : String := "cargo:rustc-env=RYUBOOT_BOARD=" ++ feature

/-- The build script in an environment of variables and their values: it adds to
the lines that are printed, or gives up with a message. -/
def buildScript (environment : List (String × String)) :
    ExceptT Halt (StateM (List String)) Unit :=
  match chooseFeature (environment.map Prod.fst) with
  | .ok feature => modify (· ++ [buildLine feature])
  | .error e => throw (.died e.message)

/-- How the build script ends in an environment, and the lines that it has printed by then. -/
def build (environment : List (String × String)) : Except Halt Unit × List String :=
  (buildScript environment).run.run []

end Board
end BootHandoff
