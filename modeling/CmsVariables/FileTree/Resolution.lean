import CmsVariables.FileTree.Basic
import CmsVariables.FileTree.SystemError

/-!
# Where a path leads

A path is followed name by name from a directory. Links on the way are followed, at most
`maxLinks` of them; a link at the very end is followed or not, as the purpose asks. The path leads to
an entry of the tree, or to a place in a directory where there is none yet.
-/

namespace CmsVariables

/-- Where a path leads. -/
inductive Place where
  /-- To the root or to an entry of the tree. -/
  | entry (address : Address)
  /-- To a name that a directory does not hold. -/
  | vacant (dir : Address) (name : EntryName)
deriving DecidableEq

/-- The address that a place has, whether there is an entry or not. -/
def Place.address : Place → Address
  | entry a => a
  | vacant dir name => name :: dir

/-- What a path is followed for. -/
inductive Purpose where
  /-- For the entry itself, even if that is a link. -/
  | entry
  /-- For what the entry is or leads to. -/
  | target
  /-- For writing a file there, which a path with a slash at its end cannot name. -/
  | writing
deriving DecidableEq, Repr

namespace FileTree

/-- How many links are followed on one way. -/
def maxLinks : Nat := 40

/-- Follows the segments of a path from the directory `here` up to the first link on the way. From
there `onLink` goes on: it is given the directory to start from and the segments left. -/
def followTo (t : FileTree) (purpose : Purpose)
    (onLink : Address → List String → Except SystemError Place) (here : Address) :
    List String → Except SystemError Place
  | [] => .ok (.entry here)
  | s :: rest =>
    if t.get? here ≠ some .directory then .error .notDirectory
    else if s = "" ∨ s = "." then t.followTo purpose onLink here rest
    else if s = ".." then t.followTo purpose onLink here.tail rest
    else
      match EntryName.ofText? s with
      | none => .error .nameTooLong
      | some name =>
        if purpose = .writing ∧ rest ≠ [] ∧ rest.all (· == "") = true then .error .isDirectory
        else
          match t.get? (name :: here) with
          | none => if rest = [] then .ok (.vacant here name) else .error .notFound
          | some (.link target) =>
            if rest = [] ∧ purpose = .entry then .ok (.entry (name :: here))
            else onLink (if target.rooted then [] else here) (target.segments ++ rest)
          | some _ => t.followTo purpose onLink (name :: here) rest

/-- Follows the segments of a path from a directory, over a number of links at most. -/
def follow (t : FileTree) (purpose : Purpose) :
    Nat → Address → List String → Except SystemError Place
  | 0 => t.followTo purpose fun _ _ => .error .tooManyLinks
  | links + 1 => t.followTo purpose (t.follow purpose links)

/-- Where a path leads from the directory `here`. -/
def resolve (t : FileTree) (purpose : Purpose) (here : Address) (p : Path) :
    Except SystemError Place :=
  if p.hasNul then .error .nulInPath
  else if p = .empty then .error .notFound
  else t.follow purpose maxLinks (if p.rooted then [] else here) p.segments

end FileTree

end CmsVariables
