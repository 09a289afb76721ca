import CmsVariables.Annotations.Dissection

/-!
# Annotations with their places

`Occurrence` is what callers see of an annotation: the pieces that matter, and where in the text they
stand. Places are counted in bytes of the encoded text. `find` lists all annotations of a text, and
a `Cursor` gives them one at a time; a cursor owns its place, so cursors over one text do not
disturb each other.
-/

namespace CmsVariables.Annotations

/-- An annotation at its place in a text. -/
structure Occurrence where
  /-- The whole annotation with its delimiters. -/
  full : String
  /-- The name as written. -/
  rawName : String
  /-- The default text, without its quotes. -/
  content : String
  /-- The byte at which `full` starts. -/
  start : Nat
  /-- The byte after the last one of `full`. -/
  stop : Nat
deriving DecidableEq, Repr

/-- How many bytes a text takes when encoded. -/
def bytes (cs : List Char) : Nat := (String.ofList cs).utf8ByteSize

/-- The annotation found in a text that starts at byte `offset`. -/
def Occurrence.ofFound (offset : Nat) (f : Found) : Occurrence where
  full := String.ofList f.form.text
  rawName := String.ofList f.form.name
  content := String.ofList f.form.content
  start := offset + bytes f.gap
  stop := offset + bytes f.text

/-- Finds that follow one another, the first one in a text that starts at byte `offset`. -/
def locate (offset : Nat) : List Found → List Occurrence
  | [] => []
  | f :: fs => .ofFound offset f :: locate (offset + bytes f.text) fs

/-- All annotations of a text, from left to right. -/
def find (text : String) : List Occurrence := locate 0 (dissect text.toList).1

/-- A place in a text from which the search for annotations goes on. -/
structure Cursor where
  /-- How many bytes lie before the place. -/
  offset : Nat
  /-- The text from the place on. -/
  rest : List Char
deriving DecidableEq, Repr

namespace Cursor

/-- The beginning of a text. -/
def ofText (text : String) : Cursor := ⟨0, text.toList⟩

/-- The next annotation and the place after it. -/
def next? (c : Cursor) : Option (Occurrence × Cursor) :=
  match Annotations.next? c.rest with
  | some (f, rest) => some (.ofFound c.offset f, ⟨c.offset + bytes f.text, rest⟩)
  | none => none

end Cursor

end CmsVariables.Annotations
