/-!
# Lines for the console

A run prints lines made of spans, some of them in a style. The style is written with escape codes
where colors are wanted and left out where they are not, so a run itself does not depend on colors.
-/

namespace CmsVariables.Console

/-- A color, and whether letters are bold. -/
inductive Style where
  | green
  | yellow
  | cyan
  | boldGreen
  | boldYellow
  | boldCyan
deriving DecidableEq, Repr

/-- The code that starts a style. -/
def Style.code : Style → String
  | green => "\x1b[32m"
  | yellow => "\x1b[33m"
  | cyan => "\x1b[36m"
  | boldGreen => "\x1b[1;32m"
  | boldYellow => "\x1b[1;33m"
  | boldCyan => "\x1b[1;36m"

/-- The code that ends any style. -/
def resetCode : String := "\x1b[0m"

/-- A piece of a line. -/
structure Span where
  text : String
  style : Option Style := none
deriving DecidableEq, Repr

/-- A line, without its line end. -/
abbrev Line := List Span

/-- A text in a style. -/
def styled (style : Style) (text : String) : Span := ⟨text, some style⟩

/-- A text without a style. -/
def plain (text : String) : Span := ⟨text, none⟩

/-- The text with `code` after each reset code in it, so that a style holds to its end. -/
def restyle (code : List Char) : List Char → List Char
  | [] => []
  | c :: cs =>
    if resetCode.toList.isPrefixOf (c :: cs) then
      resetCode.toList ++ code ++ restyle code (cs.drop (resetCode.length - 1))
    else c :: restyle code cs
termination_by cs => cs.length
decreasing_by
  · rw [List.length_drop, List.length_cons]
    omega
  · exact Nat.lt_succ_self _

/-- The text of a span, with or without colors. -/
def Span.render (color : Bool) (s : Span) : String :=
  match color, s.style with
  | true, some style =>
    style.code ++ String.ofList (restyle style.code.toList s.text.toList) ++ resetCode
  | _, _ => s.text

/-- The text of a line, with its line end. -/
def renderLine (color : Bool) (l : Line) : String := String.join (l.map (Span.render color)) ++ "\n"

/-- The text of lines. -/
def render (color : Bool) (ls : List Line) : String := String.join (ls.map (renderLine color))

end CmsVariables.Console
