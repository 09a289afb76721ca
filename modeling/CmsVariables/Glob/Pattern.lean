/-!
# Glob patterns

A pattern is compiled to a list of tokens: plain characters, `?` for any character, `*` for any text,
`**` for any number of directories, and classes of characters in brackets. What cannot be compiled
is refused with the place of the fault, counted in characters.
-/

namespace CmsVariables.Glob

/-! ## Tokens -/

/-- A member of a class: one character, or all from the first to the second. -/
inductive Member where
  | single (c : Char)
  | range (first last : Char)
deriving DecidableEq, Repr

/-- A part of a pattern. -/
inductive Token where
  | char (c : Char)
  | anyChar
  | anyText
  | directories
  | within (members : List Member)
  | except (members : List Member)
deriving DecidableEq, Repr

/-- A compiled pattern. -/
abbrev Pattern := List Token

/-- Some member of a class is the character or covers it. -/
def Member.holds (c : Char) : Member → Bool
  | single d => c == d
  | range first last => decide (first ≤ c) && decide (c ≤ last)

/-- Why a pattern cannot be compiled. -/
inductive Reason where
  /-- More than two stars in a row. -/
  | wildcards
  /-- Two stars that are not alone between slashes. -/
  | recursion
  /-- A bracket without a class. -/
  | range
deriving DecidableEq, Repr

/-- A pattern that cannot be compiled. -/
structure PatternError where
  position : Nat
  reason : Reason
deriving DecidableEq, Repr

/-- The wording of a reason. -/
def Reason.message : Reason → String
  | wildcards => "wildcards are either regular `*` or recursive `**`"
  | recursion => "recursive wildcards must form a single path component"
  | range => "invalid range pattern"

/-- The message about a pattern that cannot be compiled. -/
def PatternError.message (e : PatternError) : String :=
  "Pattern syntax error near position " ++ toString e.position ++ ": " ++ e.reason.message

/-- A text with a star or a question mark is a pattern; any other is a plain path. -/
def isGlob (s : String) : Bool := s.toList.contains '*' || s.toList.contains '?'

/-! ## Compiling -/

/-- The members that the text between brackets lists. -/
def membersOf : List Char → List Member
  | [] => []
  | [a] => [.single a]
  | [a, b] => [.single a, .single b]
  | a :: b :: c :: cs =>
    if b = '-' then .range a c :: membersOf cs else .single a :: membersOf (b :: c :: cs)

/-- A class after its opening bracket, and what follows it. The first character belongs to the
class even if it is a closing bracket. -/
def readClass (cs : List Char) : Option (Token × List Char) :=
  match cs with
  | '!' :: a :: rest =>
    match rest.dropWhile (· != ']') with
    | _ :: after => some (.except (membersOf (a :: rest.takeWhile (· != ']'))), after)
    | [] => none
  | ['!'] => none
  | a :: rest =>
    match rest.dropWhile (· != ']') with
    | _ :: after => some (.within (membersOf (a :: rest.takeWhile (· != ']'))), after)
    | [] => none
  | [] => none

theorem length_lt_of_readClass {cs rest : List Char} {t : Token}
    (h : readClass cs = some (t, rest)) : rest.length < cs.length := by
  have key : ∀ {ds after : List Char} {d : Char}, ds.dropWhile (· != ']') = d :: after →
      after.length < ds.length := by
    intro ds after d hds
    have hle := (List.dropWhile_sublist (l := ds) (· != ']')).length_le
    rw [hds] at hle
    exact hle
  unfold readClass at h
  split at h
  · split at h
    · rename_i hdrop
      cases h
      have := key hdrop
      simp only [List.length_cons]
      omega
    · cases h
  · cases h
  · split at h
    · rename_i hdrop
      cases h
      exact Nat.lt_succ_of_lt (key hdrop)
    · cases h
  · cases h

/-- Adds the token for any number of directories. Behind a token that does the same it says nothing
new, unless that is the first one. -/
def pushDirectories (done : List Token) : List Token :=
  match done with
  | .directories :: _ :: _ => done
  | _ => .directories :: done

/-- Compiles the rest of a pattern that begins at `position`, after the character `before`; `done`
holds the tokens so far, last one first. -/
def compileFrom (position : Nat) (before : Option Char) (done : List Token) (cs : List Char) :
    Except PatternError Pattern :=
  match cs with
  | [] => .ok done.reverse
  | c :: cs =>
    if c = '?' then compileFrom (position + 1) (some c) (.anyChar :: done) cs
    else if c = '*' then
      match cs with
      | '*' :: '*' :: _ => .error ⟨position + 2, .wildcards⟩
      | '*' :: after =>
        if before = none ∨ before = some '/' then
          match after with
          | [] => .ok (pushDirectories done).reverse
          | d :: rest =>
            if d = '/' then compileFrom (position + 3) (some d) (pushDirectories done) rest
            else .error ⟨position + 2, .recursion⟩
        else .error ⟨position - 1, .recursion⟩
      | cs => compileFrom (position + 1) (some c) (.anyText :: done) cs
    else if c = '[' then
      match _h : readClass cs with
      | some (t, rest) =>
        compileFrom (position + 1 + (cs.length - rest.length)) (some ']') (t :: done) rest
      | none => .error ⟨position, .range⟩
    else compileFrom (position + 1) (some c) (.char c :: done) cs
termination_by cs.length
decreasing_by
  all_goals simp_wf
  · omega
  · have := length_lt_of_readClass _h
    omega

/-- The tokens of a pattern. -/
def compile (pattern : String) : Except PatternError Pattern :=
  compileFrom 0 none [] pattern.toList

end CmsVariables.Glob
