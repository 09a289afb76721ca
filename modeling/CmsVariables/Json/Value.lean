import CmsVariables.Json.Number

/-!
# Values of a JSON text

`shape` tells what kind of value comes next, for a message about a value that is not wanted.
`skipValue` passes over a value of any kind and any depth: it keeps the open brackets in a list, so
that no depth is too great.
-/

namespace CmsVariables.Json

/-! ## Kinds of values -/

/-- What a value is, as far as a message names it. -/
inductive Shape where
  | null
  | boolean (b : Bool)
  | number (n : Number)
  | string (s : String)
  | list
  | object
deriving DecidableEq, Repr

/-- The kind of the value at the front of a text. Only a list or an object is not read to its
end. -/
def shape (cs : List Char) : Except Fault Shape :=
  match cs with
  | [] => .error .unfinished
  | c :: rest =>
    if c = 'n' then (expect ['u', 'l', 'l'] rest).map fun _ => .null
    else if c = 't' then (expect ['r', 'u', 'e'] rest).map fun _ => .boolean true
    else if c = 'f' then (expect ['a', 'l', 's', 'e'] rest).map fun _ => .boolean false
    else if c = '"' then (readString rest).map fun p => .string p.1
    else if c = '-' then (readNumber false rest).map fun p => .number p.1
    else if c.isDigit then (readNumber true cs).map fun p => .number p.1
    else if c = '[' then .ok .list
    else if c = '{' then .ok .object
    else .error .malformed

/-! ## Skipping -/

/-- What follows a value without parts. -/
def skipScalar (cs : List Char) : Except Fault (List Char) :=
  match cs with
  | [] => .error .unfinished
  | c :: rest =>
    if c = 'n' then expect ['u', 'l', 'l'] rest
    else if c = 't' then expect ['r', 'u', 'e'] rest
    else if c = 'f' then expect ['a', 'l', 's', 'e'] rest
    else if c = '"' then skipString rest
    else if c = '-' then skipNumber rest
    else if c.isDigit then skipNumber cs
    else .error .malformed

/-- What follows the colon after the name of a member. -/
def skipColon (cs : List Char) : Except Fault (List Char) :=
  match skipSpace cs with
  | [] => .error .unfinished
  | c :: rest => if c = ':' then .ok rest else .error .malformed

/-- What follows the name of a member and its colon. -/
def skipName (cs : List Char) : Except Fault (List Char) :=
  match skipSpace cs with
  | [] => .error .unfinished
  | c :: rest =>
    if c = '"' then
      match skipString rest with
      | .ok rest => skipColon rest
      | .error e => .error e
    else .error .malformed

/-- A value that is open: it was entered and not yet left. -/
inductive Level where
  | list
  | object
deriving DecidableEq, Repr

/-- What has to come next. -/
inductive Next where
  | value
  /-- The name of a member, and then its value. -/
  | member
  /-- The first part of the innermost open value, or its end. -/
  | first
  /-- A comma and a further part, or the end of the innermost open value. -/
  | further
deriving DecidableEq, Repr

/-- The bracket that ends an open value. -/
def Level.closing : Level → Char
  | list => ']'
  | object => '}'

/-- What a part of an open value is. -/
def Level.part : Level → Next
  | list => .value
  | object => .member

/-- Looking for the first part of a value uses up no text of its own. -/
def Next.rank : Next → Nat
  | first => 1
  | _ => 0

theorem Level.rank_part (level : Level) : level.part.rank = 0 := by
  cases level <;> rfl

theorem length_lt_of_skipScalar {cs rest : List Char} (h : skipScalar cs = .ok rest) :
    rest.length < cs.length := by
  unfold skipScalar at h
  split at h
  · cases h
  · repeat' split at h
    · exact Nat.lt_succ_of_le (length_le_of_expect h)
    · exact Nat.lt_succ_of_le (length_le_of_expect h)
    · exact Nat.lt_succ_of_le (length_le_of_expect h)
    · exact Nat.lt_succ_of_lt (length_lt_of_skipString h)
    · exact Nat.lt_succ_of_lt (length_lt_of_skipNumber h)
    · exact length_lt_of_skipNumber h
    · cases h

theorem length_lt_of_skipSpace {cs rest : List Char} {c : Char} (h : skipSpace cs = c :: rest) :
    rest.length < cs.length := by
  have := length_skipSpace_le cs
  rw [h] at this
  exact this

theorem length_lt_of_skipColon {cs rest : List Char} (h : skipColon cs = .ok rest) :
    rest.length < cs.length := by
  unfold skipColon at h
  split at h
  · cases h
  · rename_i hspace
    split at h
    · cases h
      exact length_lt_of_skipSpace hspace
    · cases h

theorem length_lt_of_skipName {cs rest : List Char} (h : skipName cs = .ok rest) :
    rest.length < cs.length := by
  unfold skipName at h
  split at h
  · cases h
  · rename_i hspace
    split at h
    · split at h
      · rename_i hstring
        have h1 := length_lt_of_skipSpace hspace
        have h2 := length_lt_of_skipString hstring
        have h3 := length_lt_of_skipColon h
        omega
      · cases h
    · cases h

/-- What follows the values that are open, innermost first. -/
def skipFrom (next : Next) (levels : List Level) (cs : List Char) : Except Fault (List Char) :=
  match next, levels with
  | .value, levels =>
    match _h : skipSpace cs with
    | [] => .error .unfinished
    | c :: rest =>
      if c = '[' then skipFrom .first (.list :: levels) rest
      else if c = '{' then skipFrom .first (.object :: levels) rest
      else
        match _hs : skipScalar (c :: rest) with
        | .ok rest => skipFrom .further levels rest
        | .error e => .error e
  | .member, levels =>
    match _h : skipName cs with
    | .ok rest => skipFrom .value levels rest
    | .error e => .error e
  | .first, level :: outer =>
    match _h : skipSpace cs with
    | [] => .error .unfinished
    | c :: rest =>
      if c = level.closing then skipFrom .further outer rest
      else skipFrom level.part (level :: outer) (c :: rest)
  | .further, level :: outer =>
    match _h : skipSpace cs with
    | [] => .error .unfinished
    | c :: rest =>
      if c = ',' then skipFrom level.part (level :: outer) rest
      else if c = level.closing then skipFrom .further outer rest
      else .error .malformed
  | .first, [] | .further, [] => .ok cs
termination_by 2 * cs.length + next.rank
decreasing_by
  · have := length_lt_of_skipSpace _h
    simp only [Next.rank]
    omega
  · have := length_lt_of_skipSpace _h
    simp only [Next.rank]
    omega
  · have h1 := length_lt_of_skipScalar _hs
    have h2 := length_skipSpace_le cs
    rw [_h] at h2
    simp only [Next.rank]
    omega
  · have := length_lt_of_skipName _h
    simp only [Next.rank]
    omega
  · have := length_lt_of_skipSpace _h
    simp only [Next.rank]
    omega
  · have := length_skipSpace_le cs
    rw [_h] at this
    rw [Level.rank_part]
    simp only [Next.rank]
    omega
  · have := length_lt_of_skipSpace _h
    rw [Level.rank_part]
    simp only [Next.rank]
    omega
  · have := length_lt_of_skipSpace _h
    simp only [Next.rank]
    omega

theorem length_le_of_skipFrom {next : Next} {levels : List Level} {cs rest : List Char}
    (h : skipFrom next levels cs = .ok rest) : rest.length ≤ cs.length := by
  fun_induction skipFrom next levels cs <;> grind [→ length_lt_of_skipSpace,
    → length_lt_of_skipScalar, → length_lt_of_skipName, length_skipSpace_le]

/-- What follows a value. -/
def skipValue (cs : List Char) : Except Fault (List Char) := skipFrom .value [] cs

theorem length_le_of_skipValue {cs rest : List Char} (h : skipValue cs = .ok rest) :
    rest.length ≤ cs.length :=
  length_le_of_skipFrom h

end CmsVariables.Json
