import CmsVariables.Config.Basic
import CmsVariables.Glob.Pattern

/-!
# Valid settings

Settings are valid if every pattern among ignores and includes can be compiled and some extension is
listed. Ignores are looked at first.
-/

namespace CmsVariables.Config

open Glob

/-- What is wrong with settings. -/
inductive Problem where
  | pattern (key : Key) (pattern : String) (error : PatternError)
  | noExtension
deriving DecidableEq, Repr

/-- The wording of a problem. -/
def Problem.message : Problem → String
  | pattern key p e =>
    "Invalid glob pattern in '" ++ key.text ++ "': \"" ++ p ++ "\": " ++ e.message
  | noExtension => "'extensions' must list at least one file extension"

/-- The problem with one entry of a list of paths and patterns. -/
def patternProblem? (key : Key) (s : String) : Option Problem :=
  if isGlob s then
    match compile s with
    | .ok _ => none
    | .error e => some (.pattern key s e)
  else none

/-- The first problem with settings. -/
def problem? (c : Config) : Option Problem :=
  (c.ignores.findSome? (patternProblem? .ignores)).orElse fun _ =>
    (c.includes.findSome? (patternProblem? .includes)).orElse fun _ =>
      if c.extensions = [] then some .noExtension else none

end CmsVariables.Config
