import CmsVariables.Annotations.Occurrence
import CmsVariables.FieldName
import CmsVariables.Path.Basic

/-!
# Declarations

A declaration is an annotation that was found in a file, under the name that its variable is known
by. `firstByName` keeps the first declaration of each name, and `aggregate` makes one list, in the
order of names, from the declarations of many files.
-/

namespace CmsVariables

/-- A variable declared in a source file. -/
structure Declaration where
  /-- The name as written. -/
  rawName : String
  /-- The default text. -/
  content : String
  /-- The file that declares the variable. -/
  file : Path
  /-- The name under which the variable is known. -/
  name : String := canonicalName rawName
  name_eq : name = canonicalName rawName := by rfl
deriving DecidableEq, Repr

namespace Declaration

/-- The declaration of a variable with this raw name. -/
def ofRaw (rawName content : String) (file : Path) : Declaration where
  rawName := rawName
  content := content
  file := file

/-- The line of code that assigns the variable. -/
def assignment (d : Declaration) : String := d.name ++ "=\"<%" ++ d.name ++ "%>\""

/-- What an annotation in `file` declares. -/
def ofOccurrence (file : Path) (a : Annotations.Occurrence) : Declaration :=
  ofRaw a.rawName a.content file

/-- The first declaration of each name, in the order given. -/
def firstByName : List Declaration → List Declaration
  | [] => []
  | d :: ds => d :: (firstByName ds).filter fun e => e.name != d.name

/-- What a source text declares. -/
def extract (source : String) (file : Path) : List Declaration :=
  firstByName ((Annotations.find source).map (ofOccurrence file))

/-- The declarations of several files as one list in the order of names. Of declarations with one
name the first one counts. -/
def aggregate (perFile : List (List Declaration)) : List Declaration :=
  (firstByName perFile.flatten).mergeSort fun d e => decide (d.name ≤ e.name)

end Declaration

end CmsVariables
