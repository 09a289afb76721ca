import CmsVariables.FileTree.Resolution

/-!
# File operations

A `Disk` is a file tree as it is seen from a working directory. Its operations take paths and fail as
the system fails. Reading changes nothing; an operation that makes something gives the disk after it.

* `stat`, `entryAt`, `exists?`, `isDirectory`, `read` and `canonical` look.
* `writeFile` and `makeDirectory` change one entry.
* `makeDirectories` and `writeText` change several, and may have changed some before they fail.
* `makeLink` and `remove` are for those who use the program: no command makes a link or removes
  anything, but a disk on which it runs can have been changed so, also between two runs.
-/

namespace CmsVariables

/-- A file tree seen from a working directory. -/
structure Disk where
  tree : FileTree
  here : Address
deriving DecidableEq

namespace Disk

/-! ## Looking -/

/-- Where a path leads. -/
def resolve (d : Disk) (purpose : Purpose) (p : Path) : Except SystemError Place :=
  d.tree.resolve purpose d.here p

/-- The entry at a place. -/
def entryOf (d : Disk) (place : Place) : Except SystemError (Address × Entry) :=
  match d.tree.get? place.address with
  | some e => .ok (place.address, e)
  | none => .error .notFound

/-- The entry that a path names, which may be a link, and its address. -/
def entryAt (d : Disk) (p : Path) : Except SystemError (Address × Entry) :=
  (d.resolve .entry p).bind d.entryOf

/-- What a path leads to after all links, and its address. -/
def stat (d : Disk) (p : Path) : Except SystemError (Address × Entry) :=
  (d.resolve .target p).bind d.entryOf

/-- The path leads to something. -/
def exists? (d : Disk) (p : Path) : Bool := (d.stat p).toBool

/-- The path names an entry, be it a link that leads nowhere. -/
def hasEntry (d : Disk) (p : Path) : Bool := (d.entryAt p).toBool

/-- The path leads to a directory. -/
def isDirectory (d : Disk) (p : Path) : Bool :=
  match d.stat p with
  | .ok (_, .directory) => true
  | _ => false

/-- The contents of the file that a path leads to. -/
def read (d : Disk) (p : Path) : Except SystemError ByteArray :=
  match d.stat p with
  | .ok (_, .file bytes) => .ok bytes
  | .ok _ => .error .isDirectory
  | .error e => .error e

/-- The path without dots and links to the place that a path leads to. -/
def canonical (d : Disk) (p : Path) : Except SystemError Path :=
  (d.stat p).map fun found => .ofAddress found.1

/-! ## Changing one entry -/

/-- The disk with an entry at an address. -/
def put (d : Disk) (a : Address) (e : Entry) : Disk := { d with tree := d.tree.put a e }

/-- Writes a file where a path leads: over the file there, or a new one. -/
def writeFile (d : Disk) (p : Path) (bytes : ByteArray) : Except SystemError Disk :=
  match d.resolve .writing p with
  | .error e => .error e
  | .ok place =>
    if d.tree.hasRoom place.address then .ok (d.put place.address (.file bytes))
    else .error .isDirectory

/-- A path without slashes at its end. -/
def withoutEndSlashes (p : Path) : Path :=
  .ofSegments p.rooted (p.segments.reverse.dropWhile (· == "")).reverse

/-- Makes an entry where there is none, not even a link. A slash at the end does not count. -/
def makeEntry (d : Disk) (p : Path) (e : Entry) : Except SystemError Disk :=
  match d.resolve .entry (withoutEndSlashes p) with
  | .error e => .error e
  | .ok (.entry _) => .error .occupied
  | .ok (.vacant dir name) => .ok (d.put (name :: dir) e)

/-- Makes a directory. -/
def makeDirectory (d : Disk) (p : Path) : Except SystemError Disk := d.makeEntry p .directory

/-- Makes a link. No command does this; it is how links come to be on a disk. -/
def makeLink (d : Disk) (p target : Path) : Except SystemError Disk := d.makeEntry p (.link target)

/-- Removes the entry that a path names, and all below it. No command does this; it can happen to a
disk between two runs. -/
def remove (d : Disk) (p : Path) : Except SystemError Disk :=
  (d.entryAt p).map fun found => { d with tree := d.tree.erase found.1 }

/-! ## Changing several entries -/

/-- Makes the first of some directories, each of which lies in the next one; those in which it lies
are made first where they are missing. -/
def makeDirectoriesAlong (d : Disk) : List Path → Except SystemError Unit × Disk
  | [] => (.ok (), d)
  | p :: above =>
    if p.components = [] then (.ok (), d)
    else
      match d.makeDirectory p with
      | .ok d => (.ok (), d)
      | .error .notFound =>
        match d.makeDirectoriesAlong above with
        | (.error e, d) => (.error e, d)
        | (.ok (), d) =>
          match d.makeDirectory p with
          | .ok d => (.ok (), d)
          | .error e => if d.isDirectory p then (.ok (), d) else (.error e, d)
      | .error e => if d.isDirectory p then (.ok (), d) else (.error e, d)

/-- Makes a directory and those in which it lies, as far as they are missing. -/
def makeDirectories (d : Disk) (p : Path) : Except SystemError Unit × Disk :=
  d.makeDirectoriesAlong p.ancestors

/-- Makes the directory in which a path lies. -/
def makeParent (d : Disk) (p : Path) : Except SystemError Unit × Disk :=
  match p.parent? with
  | some parent => d.makeDirectories parent
  | none => (.ok (), d)

/-- Writes a text to a file, after making the directory in which it lies. -/
def writeText (d : Disk) (p : Path) (text : String) : Except SystemError Unit × Disk :=
  match d.makeParent p with
  | (.error e, d) => (.error e, d)
  | (.ok (), d) =>
    match d.writeFile p text.toUTF8 with
    | .ok d => (.ok (), d)
    | .error e => (.error e, d)

/-! ## Walking -/

/-- Something met on a walk. -/
structure Visit where
  path : Path
  entry : Entry

/-- All that lies at and below a path. Links are not followed, except for one that the path itself
names; that one is met as a link. -/
def walk (d : Disk) (p : Path) : Except SystemError (List Visit) :=
  match d.entryAt p with
  | .error e => .error e
  | .ok (_, e) =>
    match d.stat p with
    | .error e => .error e
    | .ok (a, .directory) =>
      .ok (⟨p, e⟩ :: (d.tree.below a).map fun b => ⟨p.below b.1, b.2⟩)
    | .ok _ => .ok [⟨p, e⟩]

/-- The names in the directory that a path leads to. -/
def namesIn (d : Disk) (p : Path) : List EntryName :=
  match d.stat p with
  | .ok (a, .directory) => d.tree.namesIn a
  | _ => []

end Disk

end CmsVariables
