import CmsVariables.Rewriting
import CmsVariables.Run.Context

/-!
# Rewriting a project

A rewriting run replaces the annotations in source files. It can tell only what would be replaced,
change the files in place, or write copies of all of them under another directory, in which they
lie as they lie under the source root. All files are read and all places for copies are checked before
anything is written.
-/

namespace CmsVariables.Run

open Console

/-- What becomes of rewritten sources. -/
inductive Mode where
  /-- They are only listed. -/
  | preview
  /-- They take the place of the sources. -/
  | inPlace
  /-- They are written under a directory. -/
  | copies (dir : Path)
deriving DecidableEq, Repr

/-- What to rewrite. -/
structure RewriteOptions where
  sourceRoot : Option Path := none
  verbose : Bool := false
  mode : Mode := .preview
deriving DecidableEq, Repr

/-- A source file after rewriting. -/
structure RewrittenFile where
  path : Path
  text : String
  /-- How many annotations were replaced. -/
  count : Nat
deriving DecidableEq, Repr

/-- A source after rewriting. -/
def rewriteSource (s : Source) : RewrittenFile :=
  ⟨s.path, (rewrite s.text).text, (rewrite s.text).count⟩

/-- Something was replaced in the file. -/
def RewrittenFile.isChanged (f : RewrittenFile) : Bool := f.count != 0

/-- How many annotations were replaced in all. -/
def totalCount (fs : List RewrittenFile) : Nat := fs.foldl (fun n f => n + f.count) 0

/-! ## Copies -/

/-- The place of a file under `dir`. A file outside the source root has none. -/
def copyPath (sourceRoot dir file : Path) : Except Failure Path :=
  match file.stripPrefix? sourceRoot with
  | some relative => .ok (dir.join relative)
  | none => .error (.outsideRoot file sourceRoot)

/-- The places of files under `dir`, unless one of them has none. -/
def copyPaths (sourceRoot dir : Path) : List Path → Except Failure (List Path)
  | [] => .ok []
  | p :: ps =>
    match copyPath sourceRoot dir p with
    | .error f => .error f
    | .ok q =>
      match copyPaths sourceRoot dir ps with
      | .error f => .error f
      | .ok qs => .ok (q :: qs)

/-- Writes texts to files one after another, up to the first one that cannot be written. -/
def writeAll (d : Disk) : List (Path × String) → Except Failure Unit × Disk
  | [] => (.ok (), d)
  | (p, text) :: rest =>
    match write d p text with
    | (.error f, d) => (.error f, d)
    | (.ok (), d) => writeAll d rest

/-! ## Lines -/

/-- How many annotations are in how many files. -/
def countsText (changed : List RewrittenFile) : String :=
  plural (totalCount changed) "annotation" ++ " in " ++ plural changed.length "file"

/-- The line that tells what was copied. -/
def copiedLine (c : Context) (fs changed : List RewrittenFile) (dir : Path) : Line :=
  successLine ("Rewrote " ++ countsText changed ++ ", wrote " ++ plural fs.length "file" ++ " to " ++
    c.display dir)

/-- The line for files without annotations. -/
def nothingLine (fs : List RewrittenFile) : Line :=
  successLine ("No annotations found in " ++ plural fs.length "file")

/-- The line that tells what was replaced. -/
def replacedLine (changed : List RewrittenFile) : Line :=
  [styled .boldGreen "Rewrote", plain (" " ++ countsText changed ++ ".")]

/-- The lines that tell what would be replaced. -/
def previewLines (c : Context) (changed : List RewrittenFile) : List Line :=
  changed.map (fun f =>
      [plain ("  " ++ c.display f.path ++ " (" ++ plural f.count "annotation" ++ ")")]) ++
    [[styled .boldYellow "Would rewrite", plain (" " ++ countsText changed ++ ".")],
      [plain "Run with ", styled .cyan "--apply", plain " to rewrite in place, or ",
        styled .cyan "--out-dir <DIR>", plain " to write copies."]]

/-! ## The run -/

/-- Writes rewritten sources under a directory. -/
def writeCopies (d : Disk) (c : Context) (fs : List RewrittenFile) (dir : Path)
    (stderr : List Line) : Outcome :=
  match copyPaths c.sourceRoot dir (fs.map RewrittenFile.path) with
  | .error f => ⟨.error f, [], stderr, d⟩
  | .ok targets =>
    match writeAll d (targets.zip (fs.map RewrittenFile.text)) with
    | (.error f, d) => ⟨.error f, [], stderr, d⟩
    | (.ok (), d) =>
      ⟨.ok .done, [copiedLine c fs (fs.filter RewrittenFile.isChanged) dir], stderr, d⟩

/-- Writes rewritten sources over the sources. -/
def writeInPlace (d : Disk) (changed : List RewrittenFile) (stderr : List Line) : Outcome :=
  match writeAll d (changed.map fun f => (f.path, f.text)) with
  | (.error f, d) => ⟨.error f, [], stderr, d⟩
  | (.ok (), d) => ⟨.ok .done, [replacedLine changed], stderr, d⟩

/-- Rewrites the files that were found. -/
def rewriteFrom (d : Disk) (mode : Mode) (c : Context) (stderr : List Line) : Outcome :=
  if c.files = [] then ⟨.ok .done, [c.noFilesLine], stderr, d⟩
  else
    match readSources d c.files with
    | .error f => ⟨.error f, [], stderr, d⟩
    | .ok ss =>
      let fs := ss.map rewriteSource
      let changed := fs.filter RewrittenFile.isChanged
      match mode with
      | .copies dir => writeCopies d c fs (c.workingDirectory.join dir) stderr
      | .inPlace =>
        if changed = [] then ⟨.ok .done, [nothingLine fs], stderr, d⟩
        else writeInPlace d changed stderr
      | .preview =>
        if changed = [] then ⟨.ok .done, [nothingLine fs], stderr, d⟩
        else ⟨.ok .workLeft, previewLines c changed, stderr, d⟩

/-- Rewrites the sources of a project. -/
def rewriteProject (d : Disk) (o : RewriteOptions) : Outcome :=
  match prepare d { sourceRoot := o.sourceRoot } with
  | (rs, .error f) => ⟨.error f, [], remarkLines o.verbose rs, d⟩
  | (rs, .ok c) => rewriteFrom d o.mode c (remarkLines o.verbose rs)

end CmsVariables.Run
