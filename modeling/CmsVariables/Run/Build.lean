import CmsVariables.Report
import CmsVariables.Run.Context

/-!
# Building the listing

A build collects the variables that the source files declare and writes the listing, or prints it. If
a source file cannot be read, nothing is written.
-/

namespace CmsVariables.Run

open Console

/-- What to build. -/
structure BuildOptions where
  overrides : Overrides := {}
  verbose : Bool := false
  /-- Print the listing instead of writing it. -/
  toStdout : Bool := false
deriving DecidableEq, Repr

/-- The listing of some declarations. -/
def listing (c : Context) (ds : List Declaration) : String :=
  Report.render ds
    { head := c.config.head, foot := c.config.foot, base := some c.workingDirectory }

/-- The line that names a variable and its file. -/
def variableLine (c : Context) (d : Declaration) : Line :=
  [plain ("  " ++ d.name ++ " <- " ++ c.display d.file)]

/-- The line that tells what was written. -/
def writtenLine (c : Context) (ds : List Declaration) : Line :=
  successLine ("Wrote " ++ plural ds.length "variable" ++ " from " ++ plural c.files.length "file" ++
    " to " ++ c.display c.output)

/-- Builds the listing from what was found. -/
def buildFrom (d : Disk) (o : BuildOptions) (c : Context) (stderr : List Line) : Outcome :=
  let before := if c.files = [] ∧ o.verbose = true then [c.noFilesLine] else []
  match collect d c.files with
  | .error f => ⟨.error f, before, stderr, d⟩
  | .ok ds =>
    if o.toStdout then ⟨.ok .done, before ++ [[plain (listing c ds)]], stderr, d⟩
    else
      match write d c.output (listing c ds) with
      | (.error f, d) => ⟨.error f, before, stderr, d⟩
      | (.ok (), d) =>
        let declared := if o.verbose then ds.map (variableLine c) else []
        ⟨.ok .done, before ++ declared ++ [writtenLine c ds], stderr, d⟩

/-- Builds the listing. -/
def build (d : Disk) (o : BuildOptions) : Outcome :=
  match prepare d o.overrides with
  | (rs, .error f) => ⟨.error f, [], remarkLines o.verbose rs, d⟩
  | (rs, .ok c) => buildFrom d o c (remarkLines o.verbose rs)

end CmsVariables.Run
