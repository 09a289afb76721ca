import CmsVariables.Glob.Pattern

/-!
# Matching a pattern

A pattern matches a text if the text can be cut into parts, one for each token. Here `?` and `*` take
slashes like any other character; `**` takes nothing, or everything up to and with a slash, or all
that is left.
-/

namespace CmsVariables.Glob

/-- A token for one character takes this one. -/
def Token.takes (c : Char) : Token → Bool
  | char d => c == d
  | anyChar => true
  | within members => members.any (Member.holds c)
  | except members => !members.any (Member.holds c)
  | anyText => false
  | directories => false

/-- A text and everything that is left of it after its first characters. -/
def suffixes : List Char → List (List Char)
  | [] => [[]]
  | c :: cs => (c :: cs) :: suffixes cs

/-- What is left of a text after each of its slashes, and after its end. -/
def afterSlashes : List Char → List (List Char)
  | [] => [[]]
  | c :: cs => if c = '/' then cs :: afterSlashes cs else afterSlashes cs

/-- The tokens match the whole text. -/
def Pattern.accepts : Pattern → List Char → Bool
  | [], cs => cs.isEmpty
  | .anyText :: ts, cs => (suffixes cs).any (accepts ts)
  | .directories :: ts, cs => (cs :: afterSlashes cs).any (accepts ts)
  | _ :: _, [] => false
  | t :: ts, c :: cs => t.takes c && accepts ts cs

/-- The pattern matches the text. -/
def Pattern.acceptsText (p : Pattern) (s : String) : Bool := p.accepts s.toList

end CmsVariables.Glob
