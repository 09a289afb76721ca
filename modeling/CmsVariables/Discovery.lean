import CmsVariables.Glob.Expansion
import CmsVariables.Path.Order

/-!
# Finding source files

`discover` lists the source files of a project. Each include names a place from which to walk, by a
path or a pattern; an ignore leaves out what lies under a path or what a pattern matches, with the
path as the walk spells it. What cannot be followed is skipped and noted.
-/

namespace CmsVariables

/-- What to look for, and where. -/
structure Discovery where
  /-- The directory that includes and ignores start from. -/
  base : Path
  includes : List String
  ignores : List String
  /-- The extensions of source files, without the dot. -/
  extensions : List String
  ignoreNodeModules : Bool
deriving DecidableEq, Repr

namespace Discovery

open Glob

/-- Something that a search passed over. -/
inductive Notice where
  | badIgnore (pattern : String) (error : PatternError)
  | badInclude (pattern : String) (error : PatternError)
  | missingInclude (path : Path)
  | inaccessible (path : Path) (error : SystemError)
deriving DecidableEq, Repr

/-- The wording of a notice. -/
def Notice.message : Notice → String
  | badIgnore p e => "Invalid ignore pattern '" ++ p ++ "': " ++ e.message
  | badInclude p e => "Invalid glob pattern '" ++ p ++ "': " ++ e.message
  | missingInclude p => "Include path does not exist: " ++ p.text
  | inaccessible p e =>
    "Cannot access path: IO error for operation on " ++ p.text ++ ": " ++ e.message

/-- What a search found. -/
structure Result where
  /-- The source files in the order of paths. -/
  files : List Path
  /-- How many places could not be walked. -/
  skipped : Nat
  notices : List Notice

/-! ## What is left out -/

/-- A rule for leaving paths out. -/
inductive Rule where
  | under (path : Path)
  | matching (pattern : Pattern)
deriving DecidableEq, Repr

/-- The rule leaves the path out. -/
def Rule.covers (p : Path) : Rule → Bool
  | under q => p.startsWith q
  | matching pattern => pattern.acceptsText p.text

/-- The pattern for all that lies in a directory of installed packages. -/
def nodeModulesPattern : String := "**/node_modules/**"

/-- The rule that an ignore makes. -/
def ruleOf (base : Path) (ignore : String) : Except Notice Rule :=
  if isGlob ignore then
    match compile ignore with
    | .ok pattern => .ok (.matching pattern)
    | .error e => .error (.badIgnore ignore e)
  else .ok (.under (base.join (.ofText ignore)))

/-- The rules for a search. -/
def rules (q : Discovery) : List Rule :=
  q.ignores.filterMap (fun s => (ruleOf q.base s).toOption) ++
    if q.ignoreNodeModules then
      (compile nodeModulesPattern).toOption.toList.map Rule.matching
    else []

/-- The ignores that make no rule. -/
def ruleNotices (q : Discovery) : List Notice :=
  q.ignores.filterMap fun s =>
    match ruleOf q.base s with
    | .ok _ => none
    | .error n => some n

/-! ## Where to walk -/

/-- The places that an include names. A pattern is put behind the text of the base. Of a base whose
bytes are no UTF-8 that would be a text with replacement characters, below which a pattern finds
nothing; such a base is left out here. -/
def startsOf (d : Disk) (base : Path) (place : String) : Except Notice (List Path) :=
  let p := base.join (.ofText place)
  if isGlob place then
    match expand d p with
    | .ok ps => .ok (ps.filter d.isDirectory)
    | .error e => .error (.badInclude place e)
  else if d.exists? p then .ok [p]
  else .error (.missingInclude p)

/-- The places from which to walk. -/
def starts (d : Disk) (q : Discovery) : List Path :=
  if q.includes = [] then [q.base]
  else q.includes.flatMap fun s => (startsOf d q.base s).toOption.getD []

/-- The includes that name no place. -/
def startNotices (d : Disk) (q : Discovery) : List Notice :=
  q.includes.filterMap fun s =>
    match startsOf d q.base s with
    | .ok _ => none
    | .error n => some n

/-! ## What is a source file -/

/-- A regular file, or a link that does not lead to a directory. A link that leads nowhere counts, so
that reading it fails instead of passing it over. -/
def isCandidate (d : Disk) (v : Disk.Visit) : Bool :=
  match v.entry with
  | .file _ => true
  | .link _ => !d.isDirectory v.path
  | .directory => false

/-- The path has one of the extensions. -/
def hasExtension (extensions : List String) (p : Path) : Bool :=
  match p.extension? with
  | some e => extensions.contains e
  | none => false

/-- What was met on a walk is a source file. -/
def isSource (d : Disk) (q : Discovery) (v : Disk.Visit) : Bool :=
  !q.rules.any (Rule.covers v.path) && isCandidate d v && hasExtension q.extensions v.path

/-- The source files met on a walk from one place; from a place that cannot be walked, none. -/
def sourcesFrom (d : Disk) (q : Discovery) (start : Path) : List Path :=
  match d.walk start with
  | .ok vs => (vs.filter (isSource d q)).map Disk.Visit.path
  | .error _ => []

/-- The places that cannot be walked. -/
def walkNotices (d : Disk) (q : Discovery) : List Notice :=
  (starts d q).filterMap fun p =>
    match d.walk p with
    | .ok _ => none
    | .error e => some (.inaccessible p e)

end Discovery

/-- Looks for the source files of a project. -/
def discover (d : Disk) (q : Discovery) : Discovery.Result where
  files := Path.distinct ((Discovery.starts d q).flatMap (Discovery.sourcesFrom d q))
  skipped := (Discovery.walkNotices d q).length
  notices := q.ruleNotices ++ Discovery.startNotices d q ++ Discovery.walkNotices d q

end CmsVariables
