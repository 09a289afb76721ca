/-!
# Sets of characters given by ranges of code points

A property of characters from the character database is a short list of ranges. `CodePoints.has`
is membership; the properties themselves stand in modules of their own.
-/

namespace CmsVariables.Text

/-- A set of characters, as inclusive ranges of code points. -/
abbrev CodePoints := List (Nat × Nat)

namespace CodePoints

/-- Some range contains the code point of `c`. -/
def has (s : CodePoints) (c : Char) : Bool :=
  s.any fun r => decide (r.1 ≤ c.toNat) && decide (c.toNat ≤ r.2)

theorem has_iff {s : CodePoints} {c : Char} :
    s.has c = true ↔ ∃ r ∈ s, r.1 ≤ c.toNat ∧ c.toNat ≤ r.2 := by
  simp [has, List.any_eq_true]

end CodePoints

end CmsVariables.Text
