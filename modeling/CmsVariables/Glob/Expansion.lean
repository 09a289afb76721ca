import CmsVariables.Glob.Matching
import CmsVariables.FileTree.Disk

/-!
# Expanding a pattern

`expand` lists the paths on a disk that a pattern stands for. The pattern is taken apart at its
slashes and followed component by component: a plain component is looked up, and one with wildcards
is matched with the names in a directory. Here a wildcard stays within its component, and `**`
descends through directories and the links to them.

Links can lead round in circles, but a path that goes over too many of them leads nowhere; so no
path on the disk takes more names than `Disk.reach`.
-/

namespace CmsVariables

/-- No path that leads to an entry goes down by more names than this: between two links no directory
is entered twice. -/
def Disk.reach (d : Disk) : Nat := (FileTree.maxLinks + 1) * (d.tree.entries.length + 1)

namespace Glob

open CmsVariables.Path

/-- The text of a component without wildcards. -/
def literal? : Pattern → Option String
  | [] => some ""
  | .char c :: ts => (literal? ts).map fun s => String.singleton c ++ s
  | _ :: _ => none

/-- The component for any number of directories. -/
def isRecursive (p : Pattern) : Bool := p == [.directories]

/-- What an expansion looks at, and whether it keeps directories only. -/
structure Search where
  disk : Disk
  directoriesOnly : Bool

namespace Search

/-- A path at the end of the pattern. -/
def keep (s : Search) (p : Path) : List Path :=
  if !s.directoriesOnly || s.disk.isDirectory p then [p] else []

/-- The paths in a directory, in the order of their names. -/
def children (s : Search) (p : Path) : List Path :=
  ((s.disk.namesIn p).mergeSort fun m n => decide (m.text ≤ n.text)).map fun n => p.child n.text

/-- The directory itself and the one above it, which match only a component that starts with a
dot. -/
def dots (pattern : Pattern) (p : Path) : List Path :=
  match pattern with
  | .char '.' :: _ => (["..", "."].filter pattern.acceptsText).map p.child
  | _ => []

/-- The plain component `name` can be followed from the directory `p`. -/
def leadsTo (s : Search) (p : Path) (name : String) : Bool :=
  if name = "." ∨ name = ".." then s.disk.isDirectory p else s.disk.hasEntry (p.child name)

/-- The paths that components stand for at a path found in a directory: those below it are looked for
by `fill`. The first component matches the name of the path. -/
def found (s : Search) (fill : List Pattern → Path → List Path) (patterns : List Pattern) (p : Path) :
    List Path :=
  match patterns, p.fileName? with
  | pattern :: rest, some name =>
    if pattern.acceptsText name then if rest = [] then s.keep p else fill rest p else []
  | _, _ => []

/-- The paths that components stand for at and below a path found in a directory. With `**` as the
first component the path counts as well as all below it. -/
def visit (s : Search) (fill : List Pattern → Path → List Path) (patterns : List Pattern) (p : Path) :
    List Path :=
  match patterns with
  | [] => []
  | pattern :: rest =>
    if isRecursive pattern then
      let others := rest.dropWhile isRecursive
      let inside := if s.disk.isDirectory p then fill (pattern :: others) p else []
      let here :=
        if others = [] then if s.disk.isDirectory p then [p] else [] else s.found fill others p
      here ++ inside
    else s.found fill (pattern :: rest) p

/-- The paths that components stand for in the directory `p`. What is found in a directory is given
to `visit` with the components that are left. -/
def fillWith (s : Search) (visit : List Pattern → Path → List Path) :
    List Pattern → Path → List Path
  | [], p => s.keep p
  | pattern :: rest, p =>
    match literal? pattern with
    | some name => if s.leadsTo p name then s.fillWith visit rest (p.child name) else []
    | none =>
      if s.disk.isDirectory p then
        (dots pattern p).flatMap (s.fillWith visit rest) ++
          (s.children p).flatMap (visit (pattern :: rest))
      else []

/-- The paths that components stand for in a directory, at most `depth` directories further down. -/
def fill (s : Search) : Nat → List Pattern → Path → List Path
  | 0 => s.fillWith fun _ _ => []
  | depth + 1 => s.fillWith (s.visit (s.fill depth))

end Search

/-- The components of a pattern. A slash at the end makes no component of its own; a pattern that is
nothing but the root has one empty component. -/
def componentsOf (pattern : Path) : List String :=
  let ss := if pattern.segments.getLast? = some "" then pattern.segments.dropLast else pattern.segments
  if ss = [] then [""] else ss

/-- The paths that a pattern stands for, in the order of their names. -/
def expand (d : Disk) (pattern : Path) : Except PatternError (List Path) := do
  let _ ← compile pattern.text
  let components ← (componentsOf pattern).mapM compile
  let search : Search := ⟨d, pattern.segments.getLast? == some ""⟩
  return search.fill d.reach components (if pattern.rooted then Path.root else .ofText ".")

end Glob

end CmsVariables
