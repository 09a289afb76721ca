import CmsVariables.Path.Basic

/-!
# Settings

`Config` holds the settings of a run. Each has a default, and a config file gives any of them
anew: what it says is a list of `Setting`s, laid over the defaults one after another.
-/

namespace CmsVariables

/-- The settings of a run. -/
structure Config where
  /-- Lines before the variables of a listing. -/
  head : List String := ["<!IoRangePreExecute>", "<%"]
  /-- Lines after the variables of a listing. -/
  foot : List String := ["%>", "<!/IoRangePreExecute>"]
  /-- Where the listing is written. -/
  output : String := "reddot/jsvars.txt"
  /-- The directory that holds the sources. -/
  sourceRoot : String := "./"
  /-- What to scan below the source root; without any, all of it. -/
  includes : List String := []
  /-- What to leave out. -/
  ignores : List String := []
  /-- The extensions of source files, without the dot. -/
  extensions : List String := ["js"]
  ignoreNodeModules : Bool := true
deriving DecidableEq, Repr

/-- Settings given for one run, which count more than those of a config file. -/
structure Overrides where
  sourceRoot : Option Path := none
  output : Option Path := none
deriving DecidableEq, Repr

namespace Config

/-- The names of the settings. -/
inductive Key where
  | head
  | foot
  | output
  | sourceRoot
  | includes
  | ignores
  | extensions
  | ignoreNodeModules
deriving DecidableEq, Repr

/-- A setting with its value. -/
inductive Setting where
  | head (lines : List String)
  | foot (lines : List String)
  | output (path : String)
  | sourceRoot (path : String)
  | includes (patterns : List String)
  | ignores (patterns : List String)
  | extensions (names : List String)
  | ignoreNodeModules (on : Bool)
deriving DecidableEq, Repr

namespace Key

/-- All names, in the order in which the settings are written. -/
def all : List Key :=
  [head, foot, output, sourceRoot, includes, ignores, extensions, ignoreNodeModules]

/-- The name in a config file. -/
def text : Key → String
  | head => "prefix"
  | foot => "postfix"
  | output => "output"
  | sourceRoot => "sourceRoot"
  | includes => "includes"
  | ignores => "ignores"
  | extensions => "extensions"
  | ignoreNodeModules => "ignoreNodeModules"

/-- The setting of that name, letter by letter. -/
def ofText? (s : String) : Option Key := all.find? (·.text == s)

end Key

/-- The name of a setting. -/
def Setting.key : Setting → Key
  | head _ => .head
  | foot _ => .foot
  | output _ => .output
  | sourceRoot _ => .sourceRoot
  | includes _ => .includes
  | ignores _ => .ignores
  | extensions _ => .extensions
  | ignoreNodeModules _ => .ignoreNodeModules

/-- The settings with one of them given anew. -/
def set (c : Config) : Setting → Config
  | .head lines => { c with head := lines }
  | .foot lines => { c with foot := lines }
  | .output path => { c with output := path }
  | .sourceRoot path => { c with sourceRoot := path }
  | .includes patterns => { c with includes := patterns }
  | .ignores patterns => { c with ignores := patterns }
  | .extensions names => { c with extensions := names }
  | .ignoreNodeModules on => { c with ignoreNodeModules := on }

/-- The defaults with the given settings laid over them. -/
def ofSettings (ss : List Setting) : Config := ss.foldl set {}

/-- The settings with those given for one run. -/
def withOverrides (c : Config) (o : Overrides) : Config :=
  { c with
    sourceRoot := (o.sourceRoot.map Path.text).getD c.sourceRoot
    output := (o.output.map Path.text).getD c.output }

end Config

end CmsVariables
