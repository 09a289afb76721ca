/-!
# The shortest decimal of a floating-point number

A double stands for all reals that round to it. Its shortest decimal is the multiple of the largest
power of ten among them, and of two such multiples the nearer one. `Shortest.find` works in exact
arithmetic on significand and exponent; `Shortest.text` writes the number.
-/

namespace CmsVariables.Decimal

/-- A double without its sign: `significand` times two to the power `exponent`. -/
structure Binary where
  significand : Nat
  exponent : Int
deriving DecidableEq, Repr

/-- A decimal without sign: `digits` times ten to the power `exponent`. -/
structure Shortest where
  digits : Nat
  exponent : Int
deriving DecidableEq, Repr

/-- The bits of a finite double, without its sign. -/
def Binary.ofBits (bits : Nat) : Binary :=
  let stored : Nat := bits / Nat.pow 2 52 % Nat.pow 2 11
  let fraction : Nat := bits % Nat.pow 2 52
  if stored = 0 then ⟨fraction, -1074⟩ else ⟨fraction + Nat.pow 2 52, Int.ofNat stored - 1075⟩

/-- Ten or two to a power, as numerator and denominator. -/
def power (base : Nat) (e : Int) : Nat × Nat :=
  if 0 ≤ e then (base.pow e.toNat, 1) else (1, base.pow (-e).toNat)

namespace Shortest

/-- A multiple of ten to the power `k` that rounds to `b`. Everything is counted in quarters of the
last place of `b`; the reals that round to `b` lie half a place around it, below the least
significand of an exponent a quarter, and the ends count where `b` is even. -/
def onGrid? (b : Binary) (k : Int) : Option Shortest :=
  let (p, q) := power 2 (b.exponent - 2)
  let (s, t) := power 10 k
  -- a multiple `d` of the grid and a number `x` of quarters compare as `d * step` and `x * unit`
  let step := s * q
  let unit := p * t
  let value := 4 * b.significand * unit
  let low := (if b.significand = Nat.pow 2 52 ∧ -1074 < b.exponent then 1 else 2) * unit
  let inside (d : Nat) : Bool :=
    if b.significand % 2 = 0 then
      decide (value ≤ d * step + low) && decide (d * step ≤ value + 2 * unit)
    else decide (value < d * step + low) && decide (d * step < value + 2 * unit)
  let d := value / step
  let below := d != 0 && inside d
  let above := inside (d + 1)
  if below && above then
    some ⟨if value - d * step ≤ (d + 1) * step - value then d else d + 1, k⟩
  else if below then some ⟨d, k⟩
  else if above then some ⟨d + 1, k⟩
  else none

/-- The shortest decimal of a double other than zero. The powers of ten are tried from above the
greatest double to below the least. -/
def find (b : Binary) : Shortest :=
  ((List.range 640).findSome? fun i : Nat => onGrid? b (310 - Int.ofNat i)).getD ⟨0, 0⟩

/-- Digits with a point before the digit number `n`. -/
def withPoint (ds : List Char) (n : Nat) : List Char := ds.take n ++ '.' :: ds.drop n

/-- At least two digits. -/
def twoDigits (n : Nat) : List Char :=
  if n < 10 then ['0', Nat.digitChar n] else Nat.toDigits 10 n

/-- The text of a decimal. Numbers with their first digit between the fifth place after the point
and the sixteenth before it are written out, with at least one digit on either side of the point;
others have an exponent with its sign. -/
def text (s : Shortest) : String :=
  let ds := Nat.toDigits 10 s.digits
  let place := s.exponent + (ds.length : Int) - 1
  String.ofList <|
    if -5 ≤ place ∧ place ≤ 15 then
      if 0 ≤ s.exponent then ds ++ List.replicate s.exponent.toNat '0' ++ ['.', '0']
      else if 0 ≤ place then withPoint ds (place.toNat + 1)
      else '0' :: '.' :: List.replicate (-place - 1).toNat '0' ++ ds
    else
      (if ds.length = 1 then ds else withPoint ds 1) ++
        'e' :: (if 0 ≤ place then '+' else '-') :: twoDigits place.natAbs

end Shortest

/-- The text of a finite double. -/
def floatText (x : Float) : String :=
  let bits := x.toBits.toNat
  let sign := if Nat.pow 2 63 ≤ bits then "-" else ""
  let b := Binary.ofBits bits
  sign ++ if b.significand = 0 then "0.0" else (Shortest.find b).text

end CmsVariables.Decimal
