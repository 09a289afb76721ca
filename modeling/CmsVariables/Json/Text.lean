/-!
# Blanks, words and strings of a JSON text

Readers work on the characters that are left and give back what follows. A text that ends too early
is told apart from one that is malformed.

* `readString` decodes a string; escapes for the two halves of a surrogate pair have to stand
  together.
* `skipString` passes over a string, in which such halves may stand alone.
-/

namespace CmsVariables.Json

/-- Why a text is not JSON. -/
inductive Fault where
  | malformed
  /-- The text ends where something has to follow. -/
  | unfinished
deriving DecidableEq, Repr

/-! ## Blanks and words -/

/-- The characters that may stand between the parts of a text. -/
def isSpace (c : Char) : Bool := c == ' ' || c == '\n' || c == '\t' || c == '\r'

/-- The text from its first part on. -/
def skipSpace (cs : List Char) : List Char := cs.dropWhile isSpace

/-- The text after the letters `word`. -/
def expect : List Char → List Char → Except Fault (List Char)
  | [], cs => .ok cs
  | _, [] => .error .unfinished
  | w :: ws, c :: cs => if c = w then expect ws cs else .error .malformed

/-! ## Escapes -/

/-- What an escape of one letter stands for. -/
def simpleEscape? (c : Char) : Option Char :=
  match c with
  | '"' => some '"'
  | '\\' => some '\\'
  | '/' => some '/'
  | 'b' => some '\x08'
  | 'f' => some '\x0c'
  | 'n' => some '\n'
  | 'r' => some '\r'
  | 't' => some '\t'
  | _ => none

/-- The value of a hexadecimal digit. -/
def hexDigit? (c : Char) : Option Nat :=
  if '0' ≤ c ∧ c ≤ '9' then some (c.toNat - '0'.toNat)
  else if 'a' ≤ c ∧ c ≤ 'f' then some (c.toNat - 'a'.toNat + 10)
  else if 'A' ≤ c ∧ c ≤ 'F' then some (c.toNat - 'A'.toNat + 10)
  else none

/-- The number that four hexadecimal digits write. Fewer than four bytes are an early end, whatever
they hold. -/
def hexUnit (cs : List Char) : Except Fault (Nat × List Char) :=
  if (String.ofList cs).utf8ByteSize < 4 then .error .unfinished
  else
    match cs with
    | a :: b :: c :: d :: rest =>
      match hexDigit? a, hexDigit? b, hexDigit? c, hexDigit? d with
      | some a, some b, some c, some d => .ok (((a * 16 + b) * 16 + c) * 16 + d, rest)
      | _, _, _, _ => .error .malformed
    | _ => .error .malformed

/-- The first half of a surrogate pair. -/
def isHighHalf (n : Nat) : Bool := decide (0xD800 ≤ n) && decide (n ≤ 0xDBFF)

/-- The second half of a surrogate pair. -/
def isLowHalf (n : Nat) : Bool := decide (0xDC00 ≤ n) && decide (n ≤ 0xDFFF)

/-- The character that a surrogate pair stands for. -/
def pairChar (high low : Nat) : Char :=
  Char.ofNat ((high - 0xD800) * 0x400 + (low - 0xDC00) + 0x10000)

/-- The second half of a pair, which has to follow its first half as an escape of its own. -/
def readLowHalf (high : Nat) : List Char → Except Fault (Char × List Char)
  | [] => .error .unfinished
  | [c] => if c = '\\' then .error .unfinished else .error .malformed
  | c :: d :: cs =>
    if c = '\\' ∧ d = 'u' then
      match hexUnit cs with
      | .ok (low, rest) =>
        if isLowHalf low then .ok (pairChar high low, rest) else .error .malformed
      | .error e => .error e
    else .error .malformed

/-- The character that an escape stands for, after its backslash. -/
def readEscape : List Char → Except Fault (Char × List Char)
  | [] => .error .unfinished
  | c :: cs =>
    match simpleEscape? c with
    | some d => .ok (d, cs)
    | none =>
      if c = 'u' then
        match hexUnit cs with
        | .ok (n, rest) =>
          if isLowHalf n then .error .malformed
          else if isHighHalf n then readLowHalf n rest
          else .ok (Char.ofNat n, rest)
        | .error e => .error e
      else .error .malformed

/-- The text after an escape, after its backslash. -/
def skipEscape : List Char → Except Fault (List Char)
  | [] => .error .unfinished
  | c :: cs =>
    match simpleEscape? c with
    | some _ => .ok cs
    | none =>
      if c = 'u' then
        match hexUnit cs with
        | .ok (_, rest) => .ok rest
        | .error e => .error e
      else .error .malformed

/-! ## Every reader leaves less than it was given -/

theorem length_skipSpace_le (cs : List Char) : (skipSpace cs).length ≤ cs.length :=
  (List.dropWhile_sublist isSpace).length_le

theorem length_le_of_expect {ws cs rest : List Char} (h : expect ws cs = .ok rest) :
    rest.length ≤ cs.length := by
  induction ws generalizing cs with
  | nil =>
    cases h
    exact Nat.le_refl _
  | cons w ws ih =>
    cases cs with
    | nil => cases h
    | cons c cs =>
      rw [expect] at h
      split at h
      · exact Nat.le_succ_of_le (ih h)
      · cases h

theorem length_lt_of_hexUnit {cs rest : List Char} {n : Nat} (h : hexUnit cs = .ok (n, rest)) :
    rest.length < cs.length := by
  unfold hexUnit at h
  split at h
  · cases h
  · split at h
    · split at h
      · cases h
        simp only [List.length_cons]
        omega
      · cases h
    · cases h

theorem length_lt_of_readLowHalf {cs rest : List Char} {high : Nat} {c : Char}
    (h : readLowHalf high cs = .ok (c, rest)) : rest.length < cs.length := by
  unfold readLowHalf at h
  split at h
  · cases h
  · split at h <;> cases h
  · split at h
    · split at h
      · rename_i hunit
        split at h
        · simp only [Except.ok.injEq, Prod.mk.injEq] at h
          obtain ⟨-, rfl⟩ := h
          have := length_lt_of_hexUnit hunit
          simp only [List.length_cons]
          omega
        · cases h
      · cases h
    · cases h

theorem length_lt_of_readEscape {cs rest : List Char} {c : Char}
    (h : readEscape cs = .ok (c, rest)) : rest.length < cs.length := by
  unfold readEscape at h
  split at h
  · cases h
  · split at h
    · cases h
      exact Nat.lt_succ_self _
    · split at h
      · split at h
        · rename_i hunit
          have hlt := length_lt_of_hexUnit hunit
          split at h
          · cases h
          · split at h
            · have := length_lt_of_readLowHalf h
              simp only [List.length_cons]
              omega
            · cases h
              exact Nat.lt_succ_of_lt hlt
        · cases h
      · cases h

theorem length_lt_of_skipEscape {cs rest : List Char} (h : skipEscape cs = .ok rest) :
    rest.length < cs.length := by
  unfold skipEscape at h
  split at h
  · cases h
  · split at h
    · cases h
      exact Nat.lt_succ_self _
    · split at h
      · split at h
        · rename_i hunit
          cases h
          exact Nat.lt_succ_of_lt (length_lt_of_hexUnit hunit)
        · cases h
      · cases h

/-! ## Strings -/

/-- Decodes a string up to its closing quote; `done` holds the characters decoded so far, last one
first. -/
def readStringFrom (done : List Char) (cs : List Char) : Except Fault (List Char × List Char) :=
  match cs with
  | [] => .error .unfinished
  | c :: cs =>
    if c = '"' then .ok (done.reverse, cs)
    else if c = '\\' then
      match _h : readEscape cs with
      | .ok (d, rest) => readStringFrom (d :: done) rest
      | .error e => .error e
    else if c.toNat < 0x20 then .error .malformed
    else readStringFrom (c :: done) cs
termination_by cs.length
decreasing_by
  · exact Nat.lt_succ_of_lt (length_lt_of_readEscape _h)
  · exact Nat.lt_succ_self _

/-- The text of a string after its opening quote, and what follows the closing one. -/
def readString (cs : List Char) : Except Fault (String × List Char) :=
  match readStringFrom [] cs with
  | .ok (s, rest) => .ok (String.ofList s, rest)
  | .error e => .error e

/-- What follows a string, after its opening quote. -/
def skipString (cs : List Char) : Except Fault (List Char) :=
  match cs with
  | [] => .error .unfinished
  | c :: cs =>
    if c = '"' then .ok cs
    else if c = '\\' then
      match _h : skipEscape cs with
      | .ok rest => skipString rest
      | .error e => .error e
    else if c.toNat < 0x20 then .error .malformed
    else skipString cs
termination_by cs.length
decreasing_by
  · exact Nat.lt_succ_of_lt (length_lt_of_skipEscape _h)
  · exact Nat.lt_succ_self _

theorem length_lt_of_readStringFrom {done cs rest s : List Char}
    (h : readStringFrom done cs = .ok (s, rest)) : rest.length < cs.length := by
  fun_induction readStringFrom done cs with
  | case1 => cases h
  | case2 =>
    cases h
    exact Nat.lt_succ_self _
  | case3 done cs d left hread _ ih =>
    have := length_lt_of_readEscape hread
    have := ih h
    simp only [List.length_cons]
    omega
  | case4 => cases h
  | case5 => cases h
  | case6 done c cs _ _ _ ih => exact Nat.lt_succ_of_lt (ih h)

theorem length_lt_of_readString {cs rest : List Char} {s : String}
    (h : readString cs = .ok (s, rest)) : rest.length < cs.length := by
  unfold readString at h
  split at h
  · rename_i hread
    cases h
    exact length_lt_of_readStringFrom hread
  · cases h

theorem length_lt_of_skipString {cs rest : List Char} (h : skipString cs = .ok rest) :
    rest.length < cs.length := by
  fun_induction skipString cs with
  | case1 => cases h
  | case2 =>
    cases h
    exact Nat.lt_succ_self _
  | case3 cs left hskip _ ih =>
    have := length_lt_of_skipEscape hskip
    have := ih h
    simp only [List.length_cons]
    omega
  | case4 => cases h
  | case5 => cases h
  | case6 c cs _ _ _ ih => exact Nat.lt_succ_of_lt (ih h)

end CmsVariables.Json
