/-!
# Where a file is

A file is named by a path. Only paths that stay within one directory lead to its files.
-/
namespace TaggedItems.Settings

/-- The steps of a path, which stand between slashes. -/
def pathSteps : List Char → List (List Char)
  | [] => [[]]
  | c :: rest =>
    if c = '/' then [] :: pathSteps rest
    else match pathSteps rest with
      | [] => [[c]]
      | step :: steps => (c :: step) :: steps

/-- The place of a file within a directory. -/
structure Location where
  file : String
  /-- Whether a file of that very name is meant. A path that goes on behind the name, if only by a
  slash, is for a directory. -/
  exact : Bool
  deriving DecidableEq

/-- The place that a path leads to. Empty steps and single dots stay where they are; a path that
begins with a slash or steps anywhere else leads out of the directory. -/
def Location.of? (path : String) : Option Location :=
  let steps := pathSteps path.toList
  match steps.filter fun step => step ≠ [] ∧ step ≠ ['.'] with
  | [file] =>
    if steps.head? = some [] ∨ file = ['.', '.'] then none
    else some ⟨String.ofList file, steps.getLast? = some file⟩
  | _ => none

end TaggedItems.Settings
