import CmsVariables.Failure
import CmsVariables.FileTree.Disk
import CmsVariables.Text.Decoding

/-!
# Finding the config file

The config file of a project lies in the directory of a run or in one above it. The search ends at
the top of a repository, which is a directory with an entry `.git`. Without a config file the
defaults hold.
-/

namespace CmsVariables.Config

/-- The name of the entry at the top of a repository. -/
def repositoryMark : String := ".git"

/-- The config file in the first of some directories that has one, as long as none before it is the
top of a repository. -/
def searchAlong (d : Disk) : List Path → Option Path
  | [] => none
  | dir :: above =>
    if d.exists? (dir.child configFileName) then some (dir.child configFileName)
    else if d.exists? (dir.child repositoryMark) then none
    else searchAlong d above

/-- The config file for a run in a directory. -/
def search (d : Disk) (start : Path) : Option Path := searchAlong d start.ancestors

/-- The settings for a run, and where they come from. -/
structure Loaded where
  config : Config
  fromFile : Bool
  /-- The directory that paths among the settings start from. -/
  base : Path
deriving DecidableEq, Repr

/-- The settings in a config file. -/
def readFile (d : Disk) (p : Path) : Except Failure Config :=
  match d.read p with
  | .error e => .error (.configUnreadable p e)
  | .ok bytes =>
    match Text.decode? bytes with
    | none => .error (.configNotText p)
    | some text =>
      match parse text with
      | .error fault => .error (.configMalformed p fault)
      | .ok c =>
        match c.problem? with
        | some problem => .error (.configInvalid problem)
        | none => .ok c

/-- The settings for a run in a directory. -/
def load (d : Disk) (start : Path) : Except Failure Loaded :=
  match search d start with
  | some p => (readFile d p).map fun c => ⟨c, true, p.parent?.getD start⟩
  | none => .ok ⟨{}, false, start⟩

end CmsVariables.Config
