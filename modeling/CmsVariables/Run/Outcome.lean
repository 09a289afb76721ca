import CmsVariables.Console
import CmsVariables.Failure
import CmsVariables.FileTree.Disk

/-!
# What a run does

A run prints lines, may change files, and ends with a status or a failure.
-/

namespace CmsVariables.Run

open Console

/-- How a run ends that does not fail. -/
inductive Status where
  /-- Nothing is left to do. -/
  | done
  /-- Work remains. -/
  | workLeft
deriving DecidableEq, Repr

/-- All that a run does. -/
structure Outcome where
  result : Except Failure Status
  stdout : List Line
  stderr : List Line
  /-- The files after the run. -/
  disk : Disk

/-- The exit status of a run. -/
def Outcome.exitStatus (o : Outcome) : Nat :=
  match o.result with
  | .ok .done => 0
  | .ok .workLeft => 1
  | .error _ => 2

/-! ## Phrases -/

/-- The mark before a message of success. -/
def successMark : String := "✓"

/-- The mark before a message that nothing was found. -/
def failureMark : String := "✘"

/-- The line for a success. -/
def successLine (message : String) : Line :=
  [styled .green successMark, plain " ", styled .green message]

/-- A number of things. -/
def plural (count : Nat) (word : String) : String :=
  toString count ++ " " ++ word ++ if count = 1 then "" else "s"

end CmsVariables.Run
