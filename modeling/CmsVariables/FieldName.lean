import CmsVariables.Text.LetterCase

/-!
# Field names

A raw name becomes the name under which a variable is known. The part before the first underscore is
a type tag; the content system knows five of them. Behind a known tag the rest is written in lower
case with underscores for hyphens, and any other name is filed under `std_` as it stands.
-/

namespace CmsVariables

open Text

/-- The type tags of the content system. -/
inductive TypeTag where
  | std
  | anc
  | info
  | media
  | img
deriving DecidableEq, Repr

namespace TypeTag

/-- How a tag is written. -/
def text : TypeTag → String
  | std => "std"
  | anc => "anc"
  | info => "info"
  | media => "media"
  | img => "img"

/-- All tags. -/
def all : List TypeTag := [std, anc, info, media, img]

/-- The tag that is written so, letter by letter. -/
def ofText? (s : String) : Option TypeTag := all.find? (·.text == s)

end TypeTag

/-- What a raw name says. -/
inductive FieldName where
  /-- A known tag, and the rest of the name in its normal form. -/
  | recognized (tag : TypeTag) (base : String)
  /-- A name without a known tag, as it was written. -/
  | unrecognized (token : String)
deriving DecidableEq, Repr

namespace FieldName

/-- The text before the first underscore and the text after it. -/
def splitTag (raw : String) : String × String :=
  (String.ofList (raw.toList.takeWhile (· != '_')),
    String.ofList ((raw.toList.dropWhile (· != '_')).drop 1))

/-- Lower case with underscores for hyphens. -/
def normalBase (s : String) : String :=
  String.ofList ((lower s).toList.map fun c => if c = '-' then '_' else c)

/-- Tells the tag and the base of a raw name. -/
def classify (raw : String) : FieldName :=
  match TypeTag.ofText? (splitTag raw).1 with
  | some tag => recognized tag (normalBase (splitTag raw).2)
  | none => unrecognized raw

/-- The name under which the variable is known. -/
def canonical : FieldName → String
  | recognized tag base => tag.text ++ "_" ++ base
  | unrecognized token => TypeTag.std.text ++ "_" ++ token

end FieldName

/-- The name under which a variable with this raw name is known. -/
def canonicalName (raw : String) : String := (FieldName.classify raw).canonical

end CmsVariables
