import CmsVariables.Declaration

/-!
# The variable listing

A listing is a head, one line for each declaration, and a foot. The lines are laid out in columns:
the assignment, then the default text behind a comment mark, then the file:

    std_title="<%std_title%>"        ' Welcome        /src/app.js

Widths count characters. A column is as wide as its widest field and a gap.
-/

namespace CmsVariables.Report

/-- The columns between the widest field and the next column. -/
def columnGap : Nat := 8

/-- The mark that opens a comment in the listing. -/
def commentMark : String := "' "

/-- The widths of the two columns that are padded. -/
structure Widths where
  assignment : Nat
  content : Nat
deriving DecidableEq, Repr

/-- The greatest of some lengths, or nothing without any. -/
def widest? (fields : List String) : Option Nat := (fields.map String.length).max?

/-- The widths that declarations ask for; nothing to lay out asks for none. -/
def Widths.measure? (ds : List Declaration) : Option Widths := do
  let assignment ← widest? (ds.map Declaration.assignment)
  let content ← widest? (ds.map Declaration.content)
  return ⟨assignment + columnGap, content + columnGap⟩

/-- What stands around the declarations, and how files are shown. -/
structure Layout where
  head : List String
  foot : List String
  /-- The directory that is left out at the front of file paths. -/
  base : Option Path
deriving DecidableEq, Repr

/-- A text filled up with spaces to a width. -/
def padded (s : String) (width : Nat) : String :=
  s ++ String.ofList (List.replicate (width - s.length) ' ')

/-- A text without the front part `front`, if it starts so. -/
def withoutFront (front text : String) : String :=
  if front.toList.isPrefixOf text.toList then String.ofList (text.toList.drop front.length) else text

/-- How a file is shown: its path without the text of the base, so that the slash after the base
stays. Paths are texts: of one whose bytes are no UTF-8 the program shows a text with replacement
characters, which other paths can share, and that is left out here. -/
def displayPath (file : Path) (base : Option Path) : String :=
  match base with
  | some b => withoutFront b.text file.text
  | none => file.text

/-- The line of one declaration. -/
def line (w : Widths) (base : Option Path) (d : Declaration) : String :=
  padded d.assignment w.assignment ++ commentMark ++ padded d.content w.content ++
    displayPath d.file base

/-- The lines between head and foot. -/
def bodyLines (ds : List Declaration) (base : Option Path) : List String :=
  match Widths.measure? ds with
  | some w => ds.map (line w base)
  | none => []

/-- Lines with a line end between each two. -/
def joinLines (ls : List String) : String := "\n".intercalate ls

/-- The text of a listing. -/
def render (ds : List Declaration) (layout : Layout) : String :=
  joinLines (layout.head ++ bodyLines ds layout.base ++ layout.foot)

end CmsVariables.Report
