import CmsVariables.Json.Text
import CmsVariables.Decimal.Shortest

/-!
# Numbers of a JSON text

No setting is a number, so a number is read only to be named in a message. Whole numbers of 64 bits
are integers; all others are floating-point numbers, computed from the first digits that fit into 64
bits and a power of ten. A number beyond the greatest double is malformed.

`skipNumber` passes over a number of any size.
-/

namespace CmsVariables.Json

open Decimal

/-- A number as a message names it. -/
inductive Number where
  | integer (n : Int)
  /-- A floating-point number, by its shortest text. -/
  | float (text : String)
deriving DecidableEq, Repr

/-! ## The value of a floating-point number -/

/-- The power of ten as a double; the exponent is at most 308. -/
def powerOfTen (n : Nat) : Float := Float.ofScientific 1 false n

/-- `x` divided by ten to the power `n`, in steps that stay within the range of powers of ten. -/
def scaleDown (x : Float) (n : Nat) : Float :=
  if n ≤ 308 then x / powerOfTen n
  else if x == 0 then x
  else scaleDown (x / powerOfTen 308) (n - 308)
termination_by n
decreasing_by omega

/-- `significand` times ten to the power `exponent`. -/
def scaled (significand : Nat) (exponent : Int) : Except Fault Float :=
  let x := Float.ofNat significand
  if exponent < 0 then .ok (scaleDown x exponent.natAbs)
  else if 308 < exponent then if x == 0 then .ok x else .error .malformed
  else
    let y := x * powerOfTen exponent.toNat
    if y.isInf then .error .malformed else .ok y

/-- A floating-point number with its sign. -/
def floatNumber (positive : Bool) (significand : Nat) (exponent : Int) : Except Fault Number :=
  match scaled significand exponent with
  | .ok x => .ok (.float (floatText (if positive then x else -x)))
  | .error e => .error e

/-! ## Reading -/

/-- The value of a decimal digit. -/
def digitValue (c : Char) : Nat := c.toNat - '0'.toNat

/-- Leading digits as far as the number they write, which starts with `n`, stays below `limit`: that
number, how many digits it took, and what follows them. -/
def readDigits (limit n count : Nat) : List Char → Nat × Nat × List Char
  | [] => (n, count, [])
  | c :: cs =>
    if c.isDigit ∧ n * 10 + digitValue c < limit then
      readDigits limit (n * 10 + digitValue c) (count + 1) cs
    else (n, count, c :: cs)

/-- The significand takes as many digits as fit into 64 bits. -/
def significandLimit : Nat := Nat.pow 2 64

/-- An exponent takes as many digits as fit into 31 bits. -/
def exponentLimit : Nat := Nat.pow 2 31

/-- An exponent stays within 32 bits with its sign. -/
def clampExponent (e : Int) : Int :=
  max (-Int.ofNat (Nat.pow 2 31)) (min e (Int.ofNat (Nat.pow 2 31) - 1))

/-- The rest of a number after the mark of its exponent. -/
def readExponent (positive : Bool) (significand : Nat) (scale : Int) (cs : List Char) :
    Except Fault (Number × List Char) :=
  let (raises, cs) := match cs with
    | '+' :: cs => (true, cs)
    | '-' :: cs => (false, cs)
    | cs => (true, cs)
  match cs with
  | [] => .error .unfinished
  | c :: rest =>
    if !c.isDigit then .error .malformed
    else
      let (e, _, rest) := readDigits exponentLimit (digitValue c) 0 rest
      match rest with
      | d :: _ =>
        if d.isDigit then
          if significand ≠ 0 ∧ raises then .error .malformed
          else .ok (.float (if positive then "0.0" else "-0.0"), rest.dropWhile Char.isDigit)
        else finish raises e rest
      | [] => finish raises e rest
where
  finish (raises : Bool) (e : Nat) (rest : List Char) : Except Fault (Number × List Char) :=
    match floatNumber positive significand (clampExponent (if raises then scale + e else scale - e)) with
    | .ok n => .ok (n, rest)
    | .error f => .error f

/-- The rest of a floating-point number after its significand. -/
def readScale (positive : Bool) (significand : Nat) (scale : Int) (cs : List Char) :
    Except Fault (Number × List Char) :=
  match cs with
  | 'e' :: rest | 'E' :: rest => readExponent positive significand scale rest
  | _ =>
    match floatNumber positive significand scale with
    | .ok n => .ok (n, cs)
    | .error f => .error f

/-- The rest of a number after its point. Digits beyond the significand do not count. -/
def readFraction (positive : Bool) (significand : Nat) (scale : Int) (cs : List Char) :
    Except Fault (Number × List Char) :=
  match cs with
  | [] => .error .unfinished
  | c :: _ =>
    if !c.isDigit then .error .malformed
    else
      let (n, count, rest) := readDigits significandLimit significand 0 cs
      readScale positive n (scale - count) (rest.dropWhile Char.isDigit)

/-- The rest of a number after the digits of its significand. Further digits before the point only
count. -/
def readTail (positive : Bool) (significand : Nat) (cs : List Char) :
    Except Fault (Number × List Char) :=
  let further := cs.takeWhile Char.isDigit
  match cs.dropWhile Char.isDigit with
  | '.' :: rest => readFraction positive significand further.length rest
  | 'e' :: rest | 'E' :: rest => readExponent positive significand further.length rest
  | rest =>
    if !further.isEmpty then readScale positive significand further.length rest
    else if positive then .ok (.integer significand, rest)
    else if significand = 0 ∨ Nat.pow 2 63 < significand then readScale false significand 0 rest
    else .ok (.integer (-significand), rest)

/-- The number after its sign. A zero takes no further digits before the point. -/
def readNumber (positive : Bool) (cs : List Char) : Except Fault (Number × List Char) :=
  match cs with
  | [] => .error .unfinished
  | c :: rest =>
    if c = '0' then
      match rest with
      | d :: _ => if d.isDigit then .error .malformed else readTail positive 0 rest
      | [] => readTail positive 0 rest
    else if c.isDigit then
      let (n, _, rest) := readDigits significandLimit (digitValue c) 0 rest
      readTail positive n rest
    else .error .malformed

/-! ## Skipping -/

/-- What follows an exponent, after its mark. -/
def skipExponent (cs : List Char) : Except Fault (List Char) :=
  let cs := match cs with
    | '+' :: cs | '-' :: cs => cs
    | cs => cs
  match cs with
  | c :: cs => if c.isDigit then .ok (cs.dropWhile Char.isDigit) else .error .malformed
  | [] => .error .malformed

/-- What follows the fraction and the exponent of a number. -/
def skipScale (cs : List Char) : Except Fault (List Char) :=
  match cs with
  | 'e' :: cs | 'E' :: cs => skipExponent cs
  | cs => .ok cs

/-- What follows a number, after its first digits. -/
def skipTail (cs : List Char) : Except Fault (List Char) :=
  match cs with
  | '.' :: c :: cs =>
    if c.isDigit then skipScale (cs.dropWhile Char.isDigit) else .error .malformed
  | ['.'] => .error .malformed
  | cs => skipScale cs

/-- What follows a number, after its sign. -/
def skipNumber (cs : List Char) : Except Fault (List Char) :=
  match cs with
  | [] => .error .malformed
  | c :: rest =>
    if c = '0' then
      match rest with
      | d :: _ => if d.isDigit then .error .malformed else skipTail rest
      | [] => .ok []
    else if c.isDigit then skipTail (rest.dropWhile Char.isDigit)
    else .error .malformed

/-! ## Every reader leaves less than it was given -/

theorem length_dropWhile_le {α : Type} (p : α → Bool) (cs : List α) :
    (cs.dropWhile p).length ≤ cs.length :=
  (List.dropWhile_sublist p).length_le

theorem length_le_of_skipExponent {cs rest : List Char} (h : skipExponent cs = .ok rest) :
    rest.length ≤ cs.length := by
  have key : ∀ ds : List Char, (match ds with
      | c :: cs => if c.isDigit then .ok (cs.dropWhile Char.isDigit) else .error .malformed
      | [] => .error .malformed) = Except.ok (ε := Fault) rest → rest.length ≤ ds.length := by
    intro ds hds
    split at hds
    · split at hds
      · cases hds
        exact Nat.le_succ_of_le (length_dropWhile_le _ _)
      · cases hds
    · cases hds
  unfold skipExponent at h
  have := key _ h
  refine Nat.le_trans this ?_
  split <;> simp

theorem length_le_of_skipScale {cs rest : List Char} (h : skipScale cs = .ok rest) :
    rest.length ≤ cs.length := by
  unfold skipScale at h
  split at h
  · exact Nat.le_succ_of_le (length_le_of_skipExponent h)
  · exact Nat.le_succ_of_le (length_le_of_skipExponent h)
  · cases h
    exact Nat.le_refl _

theorem length_le_of_skipTail {cs rest : List Char} (h : skipTail cs = .ok rest) :
    rest.length ≤ cs.length := by
  unfold skipTail at h
  split at h
  · split at h
    · have h1 := length_le_of_skipScale h
      have h2 := length_dropWhile_le Char.isDigit ‹List Char›
      simp only [List.length_cons]
      omega
    · cases h
  · cases h
  · exact length_le_of_skipScale h

theorem length_lt_of_skipNumber {cs rest : List Char} (h : skipNumber cs = .ok rest) :
    rest.length < cs.length := by
  unfold skipNumber at h
  split at h
  · cases h
  · split at h
    · split at h
      · split at h
        · cases h
        · exact Nat.lt_succ_of_le (length_le_of_skipTail h)
      · cases h
        exact Nat.lt_succ_self _
    · split at h
      · exact Nat.lt_succ_of_le
          (Nat.le_trans (length_le_of_skipTail h) (length_dropWhile_le _ _))
      · cases h

end CmsVariables.Json
