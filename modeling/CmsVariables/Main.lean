import CmsVariables.FileTree.Changes
import CmsVariables.Program
import CmsVariables.Run.Scope

/-!
# The command

The outer layer of the program. It reads the part of the file system that a run can look at into a
tree, carries out the run on that tree, and makes the changes in the file system.
-/

namespace CmsVariables.Main

open CommandLine Run

/-! ## Reading files into a tree -/

/-- A tree under way, and the directories that are in it with all they hold. -/
structure Survey where
  tree : FileTree := .empty
  complete : List Address := []

namespace Survey

/-- The address of a path without dots and links. -/
def addressOf (real : String) : Address :=
  ((Path.ofText real).segments.filterMap EntryName.ofText?).reverse

/-- The survey with an entry, unless there is one at the address. -/
def add (s : Survey) (a : Address) (e : Entry) : Survey :=
  if s.tree.get? a = none then { s with tree := s.tree.put a e } else s

/-- The survey with a directory and those above it. -/
def addChain (s : Survey) : Address → Survey
  | [] => s
  | name :: dir => (s.addChain dir).add (name :: dir) .directory

/-- What stands for a file that cannot be read: a link that leads nowhere, so that a run that needs
the file fails. -/
def unreadable : Entry := .link (.ofText "/\x01")

/-- The contents of a file. -/
def readEntry (file : String) : IO Entry := do
  try return .file (← IO.FS.readBinFile file) catch _ => return unreadable

mutual

/-- Adds the entry `name` of a directory; `deep` asks for all that lies below it, too. -/
partial def addEntry (s : Survey) (deep : Bool) (dir name : String) : IO Survey := do
  let some entryName := EntryName.ofText? name | return s
  let real ← IO.FS.realPath dir
  let address := entryName :: addressOf dir
  let s := s.addChain (addressOf dir)
  let file := real / name
  let some kind ← (try return some (← file.symlinkMetadata).type catch _ => return none) | return s
  match kind with
  | .file => return s.add address (← readEntry (toString file))
  | .dir =>
    let s := s.add address .directory
    if deep then s.addDirectory (toString file) else return s
  | .symlink =>
    try
      let target ← IO.FS.realPath file
      let s := s.add address (.link (.ofText (toString target)))
      s.addTarget deep (toString target)
    catch _ => return s.add address unreadable
  | .other => return s

/-- Adds all that lies in and below a directory. -/
partial def addDirectory (s : Survey) (dir : String) : IO Survey := do
  let address := addressOf dir
  if s.complete.contains address then return s
  let mut s := { s.addChain address with complete := address :: s.complete }
  for e in (← (← IO.FS.realPath dir).readDir) do
    s ← s.addEntry true dir e.fileName
  return s

/-- Adds what lies at a path without dots and links. -/
partial def addTarget (s : Survey) (deep : Bool) (real : String) : IO Survey := do
  match (Path.ofText real).parent?, (Path.ofText real).fileName? with
  | some dir, some name => s.addEntry deep dir.text name
  | _, _ => return s

end

/-- Adds what lies at a path, and the links on the way there. -/
def addPath (s : Survey) (deep : Bool) (p : Path) : IO Survey := do
  let mut s := s
  for q in p.ancestors.reverse do
    if let (some dir, some name) := (q.parent?, q.fileName?) then
      try
        let real ← IO.FS.realPath dir.text
        s ← s.addEntry (deep && q = p) (toString real) name
      catch _ => pure ()
  if deep then
    try
      let real ← IO.FS.realPath p.text
      if ← real.isDir then s ← s.addDirectory (toString real)
    catch _ => pure ()
  return s

/-- The tree that a command can look at. -/
def ofCommand (c : Command) : IO Disk := do
  let real ← IO.FS.realPath (← IO.currentDir)
  let here := addressOf (toString real)
  let mut s := ({} : Survey).addChain here
  for p in searched ⟨s.tree, here⟩ do
    s ← s.addPath false p
  if c != .init then
    -- the source root is known once the settings are, and the includes once the root is
    for p in reached ⟨s.tree, here⟩ c do
      s ← s.addPath true p
    for p in reached ⟨s.tree, here⟩ c do
      s ← s.addPath true p
  return ⟨s.tree, here⟩

end Survey

/-! ## Making changes -/

/-- Makes one entry in the file system. -/
def makeChange (change : Address × Entry) : IO Unit := do
  let p := (Path.ofAddress change.1).text
  match change.2 with
  | .directory => IO.FS.createDirAll p
  | .file bytes => IO.FS.writeBinFile p bytes
  | .link _ => pure ()

/-- Makes the changes that a run made in a tree, directories before what lies in them. -/
def makeChanges (before after : FileTree) : IO Unit := do
  for change in (after.changesSince before).mergeSort fun p q => p.1.length ≤ q.1.length do
    makeChange change

/-! ## The command itself -/

/-- The version that is printed. -/
def versionText : String := "reddot-vars 0.1.0"

/-- What is printed for a command line that asks for no run. -/
def usageText : Usage → String
  | .displayHelp => Program.helpText
  | .displayVersion => versionText
  | .invalidSubcommand => "error: unrecognized subcommand"
  | .unknownArgument => "error: unexpected argument found"
  | .invalidValue => "error: a value is required"
  | .tooManyValues => "error: unexpected value found"
  | .argumentConflict => "error: the argument cannot be used here"

/-- Prints what a run printed, and the failure if it failed. -/
def report (color : Bool) (o : Outcome) : IO Unit := do
  IO.print (Console.render color o.stdout)
  IO.eprint (Console.render color o.stderr)
  match o.result with
  | .ok _ => pure ()
  | .error f => IO.eprintln ("Error: " ++ f.message)

/-- Carries out a command and gives its exit status. -/
def perform (c : Command) : IO UInt32 := do
  let disk ← Survey.ofCommand c
  let outcome := Program.execute disk c
  makeChanges disk.tree outcome.disk.tree
  report (← (← IO.getStdout).isTty) outcome
  return outcome.exitStatus.toUInt32

end CmsVariables.Main

open CmsVariables CmsVariables.Main in
/-- Does what the words of the command line ask for. -/
def main (words : List String) : IO UInt32 := do
  match CommandLine.parse words with
  | .ok (some c) => perform c
  | .ok none =>
    IO.println Program.helpText
    return 0
  | .error u =>
    if u.exitStatus = 0 then IO.println (usageText u) else IO.eprintln (usageText u)
    return u.exitStatus.toUInt32
