import CmsVariables.Config.Lookup
import CmsVariables.Declaration
import CmsVariables.Discovery
import CmsVariables.Run.Outcome

/-!
# What a run starts from

Before a run does its work it loads the settings, finds the source root and looks for source files.
Paths in a config file start from the directory of that file, and paths on the command line from the
working directory.
-/

namespace CmsVariables.Run

open Console

/-- What was found before a run does its work. -/
structure Context where
  config : Config
  /-- The working directory, which is left out of the paths shown. -/
  workingDirectory : Path
  /-- The source root, without dots and links. -/
  sourceRoot : Path
  /-- Where the listing goes. -/
  output : Path
  /-- The source files in the order of paths. -/
  files : List Path
deriving DecidableEq, Repr

/-- Something to tell whoever wants to know more. -/
inductive Remark where
  | usingDefaults
  | notice (n : Discovery.Notice)
  | skipped (count : Nat)
deriving DecidableEq, Repr

/-- The word before a warning. -/
def warningLabel : Span := styled .boldYellow "warning:"

/-- The line for a remark. -/
def Remark.line : Remark → Line
  | usingDefaults =>
    [styled .boldCyan "note:", plain " No config file found, using defaults"]
  | notice n => [warningLabel, plain (" " ++ n.message)]
  | skipped count =>
    [warningLabel, plain (" Skipped " ++ toString count ++ " inaccessible path(s)")]

/-- The remarks on a search. -/
def searchRemarks (r : Discovery.Result) : List Remark :=
  r.notices.map .notice ++ if r.skipped = 0 then [] else [.skipped r.skipped]

/-- The lines for remarks, which are printed only if asked for. -/
def remarkLines (verbose : Bool) (rs : List Remark) : List Line :=
  if verbose then rs.map Remark.line else []

/-- A path of the command line, or the one set in the config file. -/
def settle (workingDirectory base : Path) (flag : Option Path) (setting : String) : Path :=
  match flag with
  | some p => workingDirectory.join p
  | none => base.join (.ofText setting)

/-- What to look for below a source root. -/
def discovery (c : Config) (sourceRoot : Path) : Discovery where
  base := sourceRoot
  includes := c.includes
  ignores := c.ignores
  extensions := c.extensions
  ignoreNodeModules := c.ignoreNodeModules

/-- What a run starts from, once the settings are loaded. -/
def contextFrom (d : Disk) (o : Overrides) (loaded : Config.Loaded) :
    Except Failure (Context × List Remark) :=
  let cwd := Path.ofAddress d.here
  let root := settle cwd loaded.base o.sourceRoot loaded.config.sourceRoot
  let config := loaded.config.withOverrides o
  match d.canonical root with
  | .error e => .error (.noSourceRoot root e)
  | .ok sourceRoot =>
    let found := discover d (discovery config sourceRoot)
    .ok ({ config := config
           workingDirectory := cwd
           sourceRoot := sourceRoot
           output := settle cwd loaded.base o.output loaded.config.output
           files := found.files }, searchRemarks found)

/-- The remark on how the settings were found. -/
def loadRemarks (loaded : Config.Loaded) : List Remark :=
  if loaded.fromFile then [] else [.usingDefaults]

/-- What a run starts from, and the remarks on the way there. -/
def prepare (d : Disk) (o : Overrides) : List Remark × Except Failure Context :=
  match Config.load d (Path.ofAddress d.here) with
  | .error f => ([], .error f)
  | .ok loaded =>
    match contextFrom d o loaded with
    | .error f => (loadRemarks loaded, .error f)
    | .ok (context, rs) => (loadRemarks loaded ++ rs, .ok context)

namespace Context

/-- A path as it is shown: from the working directory on, if it lies below that. -/
def display (c : Context) (p : Path) : String :=
  ((p.stripPrefix? c.workingDirectory).getD p).text

/-- The line for a search without source files. -/
def noFilesLine (c : Context) : Line :=
  [styled .yellow failureMark, plain (" No source files found under " ++ c.config.sourceRoot)]

end Context

/-! ## Reading sources -/

/-- A source file and its text. -/
structure Source where
  path : Path
  text : String
deriving DecidableEq, Repr

/-- Reads a source file. Bytes that encode no text are replaced. -/
def readSource (d : Disk) (p : Path) : Except Failure Source :=
  match d.read p with
  | .ok bytes => .ok ⟨p, Text.decodeLossy bytes⟩
  | .error e => .error (.unreadable p e)

/-- Reads source files one after another, up to the first one that cannot be read. -/
def readSources (d : Disk) : List Path → Except Failure (List Source)
  | [] => .ok []
  | p :: ps =>
    match readSource d p with
    | .error f => .error f
    | .ok s =>
      match readSources d ps with
      | .error f => .error f
      | .ok ss => .ok (s :: ss)

/-- What sources declare, as one list. -/
def declarationsOf (ss : List Source) : List Declaration :=
  Declaration.aggregate (ss.map fun s => Declaration.extract s.text s.path)

/-- What source files declare. -/
def collect (d : Disk) (files : List Path) : Except Failure (List Declaration) :=
  (readSources d files).map declarationsOf

/-- Writes a text to a file. -/
def write (d : Disk) (p : Path) (text : String) : Except Failure Unit × Disk :=
  match d.writeText p text with
  | (.ok (), d) => (.ok (), d)
  | (.error e, d) => (.error (.unwritable p e), d)

end CmsVariables.Run
