import CmsVariables.Text.Blank

/-!
# Written annotations

An annotation declares a variable in a comment and gives its default text in quotes after it:

    /*r: std_headline*/'Welcome'/**/

`Form` holds the seven pieces an annotation is written with. `Form.WellFormed` is the grammar: which
characters each piece takes and which of them may be empty. The classes overlap, since a tag letter
is also a word character and the blank before the tags is also a name character; so one text can be
cut into pieces in several ways.
-/

namespace CmsVariables.Annotations

open Text

/-- A comment delimiter is made of slashes and stars, in any order. -/
def isDelimiter (c : Char) : Bool := c == '/' || c == '*'

/-- The letters of the tag run in either case, and the colon after them. -/
def isTag (c : Char) : Bool :=
  c == 'r' || c == 'd' || c == 'p' || c == 'h' ||
  c == 'R' || c == 'D' || c == 'P' || c == 'H' || c == ':'

/-- A name is written with word characters and blanks. -/
def isNameChar (c : Char) : Bool := isWord c || isBlank c

/-- The default text runs to the next quote, on the same line. -/
def isContentChar (c : Char) : Bool := c != '\'' && c != '\n'

/-- The pieces of one written annotation, in order. -/
structure Form where
  opening : List Char
  blank : List Char
  tags : List Char
  name : List Char
  middle : List Char
  content : List Char
  closing : List Char
deriving DecidableEq, Repr

namespace Form

/-- The annotation as it stands in the source. -/
def text (f : Form) : List Char :=
  f.opening ++ f.blank ++ f.tags ++ f.name ++ f.middle ++ '\'' :: f.content ++ '\'' :: f.closing

/-- The grammar of annotations. -/
structure WellFormed (f : Form) : Prop where
  opening_ne : f.opening ≠ []
  opening_all : ∀ c ∈ f.opening, isDelimiter c = true
  blank_le : f.blank.length ≤ 1
  blank_all : ∀ c ∈ f.blank, isBlank c = true
  tags_ne : f.tags ≠ []
  tags_all : ∀ c ∈ f.tags, isTag c = true
  name_ne : f.name ≠ []
  name_all : ∀ c ∈ f.name, isNameChar c = true
  middle_ne : f.middle ≠ []
  middle_all : ∀ c ∈ f.middle, isDelimiter c = true
  content_all : ∀ c ∈ f.content, isContentChar c = true
  closing_ne : f.closing ≠ []
  closing_all : ∀ c ∈ f.closing, isDelimiter c = true

end Form

/-- A text that can be cut into the pieces of an annotation. -/
def Written (cs : List Char) : Prop := ∃ f : Form, f.WellFormed ∧ f.text = cs

end CmsVariables.Annotations
