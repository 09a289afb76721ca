import CmsVariables.CommandLine
import CmsVariables.Config.Lookup
import CmsVariables.Run.Context

/-!
# What a run can look at

A run looks at a small part of all files: the config files above its directory, and what lies below
the source root, the includes and the places it writes to. `searched` and `reached` name these
places, so that a tree of them alone can stand for the whole.
-/

namespace CmsVariables.Run

open CommandLine

/-- The settings on the command line. -/
def overridesOf : Command → Overrides
  | .build o => o.overrides
  | .rewrite o => { sourceRoot := o.sourceRoot }
  | .init => {}

/-- The directory for copies. -/
def copyDirectory? : Command → Option Path
  | .rewrite o =>
    match o.mode with
    | .copies dir => some dir
    | _ => none
  | _ => none

/-- The entries that the search for a config file looks at. -/
def searched (d : Disk) : List Path :=
  (Path.ofAddress d.here).ancestors.flatMap fun dir =>
    [dir.child configFileName, dir.child Config.repositoryMark]

/-- The front of a path that holds no wildcards. -/
def fixedPart (p : Path) : Path :=
  .ofSegments p.rooted (p.segments.takeWhile fun s => !Glob.isGlob s && !s.toList.contains '[')

/-- The places that a run goes to besides its source root: what it includes and where it writes. The
disk holds what the search for a config file looks at, and the source root. -/
def reached (d : Disk) (c : Command) : List Path :=
  let cwd := Path.ofAddress d.here
  match Config.load d cwd with
  | .error _ => []
  | .ok loaded =>
    let o := overridesOf c
    let root := settle cwd loaded.base o.sourceRoot loaded.config.sourceRoot
    let includes := match d.canonical root with
      | .ok base => loaded.config.includes.map fun s => fixedPart (base.join (.ofText s))
      | .error _ => []
    [root, settle cwd loaded.base o.output loaded.config.output] ++
      (copyDirectory? c).toList.map cwd.join ++ includes

end CmsVariables.Run
