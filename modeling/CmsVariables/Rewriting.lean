import CmsVariables.Annotations.Occurrence
import CmsVariables.FieldName

/-!
# Rewriting sources

Rewriting puts an expression that the content system fills in where an annotation stood, and leaves
the text between the annotations as it is.
-/

namespace CmsVariables

/-- The expression that stands for a variable. -/
def placeholder (name : String) : String :=
  "\"<!IoRangePreExecute><%=" ++ name ++ "%><!/IoRangePreExecute>\""

/-- A source after rewriting. -/
structure Rewritten where
  text : String
  /-- How many annotations were replaced. -/
  count : Nat
deriving DecidableEq, Repr

namespace Annotations

/-- The expression that replaces a written annotation. -/
def Form.placeholder (f : Form) : List Char :=
  (CmsVariables.placeholder (canonicalName (String.ofList f.name))).toList

/-- The stretch of text that a find accounts for, after rewriting. -/
def Found.rewritten (f : Found) : List Char := f.gap ++ f.form.placeholder

end Annotations

open Annotations in
/-- Replaces every annotation of a source; a source without any is returned as it is. -/
def rewrite (source : String) : Rewritten :=
  match dissect source.toList with
  | ([], _) => ⟨source, 0⟩
  | (fs, tail) => ⟨String.ofList (fs.flatMap Found.rewritten ++ tail), fs.length⟩

namespace Rewritten

/-- Nothing had to be replaced, so the text is the source itself. -/
def isSource (r : Rewritten) : Bool := r.count == 0

end Rewritten

end CmsVariables
