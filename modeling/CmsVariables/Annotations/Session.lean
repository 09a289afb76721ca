import CmsVariables.Rewriting

/-!
# Reading several texts side by side

A session holds one cursor for each of its texts. Any of them can be moved on or put back to the
beginning, in any order, and a text can be rewritten in between.
-/

namespace CmsVariables.Annotations

/-- A text and the place up to which its annotations were read. -/
structure Reader where
  source : String
  cursor : Cursor
deriving DecidableEq, Repr

/-- A reader at the beginning of a text. -/
def Reader.ofText (source : String) : Reader := ⟨source, .ofText source⟩

/-- What can be asked of a session; the number tells the text. -/
inductive Request where
  | next (index : Nat)
  | restart (index : Nat)
  | rewrite (index : Nat)
deriving DecidableEq, Repr

/-- What a session answers. -/
inductive Reply where
  /-- The next annotation of the text. -/
  | found (a : Occurrence)
  /-- The text has no further annotation. -/
  | finished
  | restarted
  /-- How many annotations a rewriting replaces. -/
  | replaced (count : Nat)
  /-- There is no text of that number. -/
  | unknown
deriving DecidableEq, Repr

/-- Texts that are read side by side. -/
abbrev Session := List Reader

namespace Session

/-- A session at the beginning of each text. -/
def ofTexts (texts : List String) : Session := texts.map Reader.ofText

/-- The answer to one request, and the session after it. -/
def step (s : Session) : Request → Reply × Session
  | .next i =>
    match s[i]? with
    | none => (.unknown, s)
    | some r =>
      match r.cursor.next? with
      | none => (.finished, s)
      | some (a, cursor) => (.found a, s.set i ⟨r.source, cursor⟩)
  | .restart i =>
    match s[i]? with
    | none => (.unknown, s)
    | some r => (.restarted, s.set i (.ofText r.source))
  | .rewrite i =>
    match s[i]? with
    | none => (.unknown, s)
    | some r => (.replaced (CmsVariables.rewrite r.source).count, s)

/-- The answers to requests made one after another. -/
def run (s : Session) : List Request → List Reply
  | [] => []
  | q :: qs => (s.step q).1 :: run (s.step q).2 qs

end Session

end CmsVariables.Annotations
