import CmsVariables.Proofs.Text.Decoding
import Mathlib.Data.String.Basic

/-!
# The order of texts

Texts are compared character by character. Comparing their bytes comes to the same: the number of
following bytes can be told from the first byte, and characters with more of them come later.

* `encodeChar_precedes`: the bytes of characters differ in the right way.
* `toUTF8_lt_iff`: texts are in the order of their bytes.
-/

namespace CmsVariables.Text

/-! ## Bytes of characters -/

/-- At the first difference the bytes in front have the smaller byte, and neither end before. -/
inductive Precedes : List UInt8 → List UInt8 → Prop where
  | here {b c : UInt8} {bs cs : List UInt8} (h : b < c) : Precedes (b :: bs) (c :: cs)
  | later {b : UInt8} {bs cs : List UInt8} (h : Precedes bs cs) : Precedes (b :: bs) (b :: cs)

theorem Precedes.append_lt {bs cs : List UInt8} (h : Precedes bs cs) (xs ys : List UInt8) :
    bs ++ xs < cs ++ ys := by
  induction h with
  | here h => exact List.cons_lt_cons_iff.mpr (Or.inl h)
  | later _ ih => exact List.cons_lt_cons_iff.mpr (Or.inr ⟨rfl, ih⟩)

theorem precedes_cons {m n : Nat} {bs cs : List UInt8} (hm : m < 256) (hn : n < 256)
    (h : m < n ∨ m = n ∧ Precedes bs cs) : Precedes (UInt8.ofNat m :: bs) (UInt8.ofNat n :: cs) := by
  rcases h with hlt | ⟨rfl, hrest⟩
  · refine .here ?_
    rwa [UInt8.lt_iff_toNat_lt, toNat_ofNat_of_lt hm, toNat_ofNat_of_lt hn]
  · exact .later hrest

/-- The last `k` bytes of a character with the number `v`, each of which has six bits of it. -/
def following (v : Nat) : Nat → List UInt8
  | 0 => []
  | k + 1 => UInt8.ofNat (v / 64 ^ k % 64 + 0x80) :: following v k

theorem following_precedes {v w k : Nat} (h : v % 64 ^ k < w % 64 ^ k) :
    Precedes (following v k) (following w k) := by
  induction k with
  | zero => omega
  | succ k ih =>
    have hpos : 0 < 64 ^ k := Nat.pow_pos (by decide)
    have hv : v % 64 ^ k < 64 ^ k := Nat.mod_lt _ hpos
    have hw : w % 64 ^ k < 64 ^ k := Nat.mod_lt _ hpos
    rw [Nat.pow_succ, Nat.mod_mul, Nat.mod_mul] at h
    refine precedes_cons (by omega) (by omega) ?_
    rcases Nat.lt_trichotomy (v / 64 ^ k % 64) (w / 64 ^ k % 64) with hlt | heq | hgt
    · exact Or.inl (by omega)
    · rw [heq] at h ⊢
      exact Or.inr ⟨rfl, ih (by omega)⟩
    · -- then `v` would be the greater one, whatever its last bits are
      have hmul := Nat.mul_le_mul_left (64 ^ k) hgt
      rw [Nat.mul_succ] at hmul
      omega

theorem encodeChar_eq (c : Char) :
    (c.toNat < 0x80 ∧ String.utf8EncodeChar c = UInt8.ofNat c.toNat :: following c.toNat 0) ∨
      ((0x80 ≤ c.toNat ∧ c.toNat < 0x800) ∧ String.utf8EncodeChar c =
        UInt8.ofNat (c.toNat / 64 % 32 + 0xC0) :: following c.toNat 1) ∨
      ((0x800 ≤ c.toNat ∧ c.toNat < 0x10000) ∧ String.utf8EncodeChar c =
        UInt8.ofNat (c.toNat / 4096 % 16 + 0xE0) :: following c.toNat 2) ∨
      ((0x10000 ≤ c.toNat ∧ c.toNat < 0x110000) ∧ String.utf8EncodeChar c =
        UInt8.ofNat (c.toNat / 262144 % 8 + 0xF0) :: following c.toNat 3) := by
  have htoNat : c.val.toNat = c.toNat := rfl
  have hchar : c.toNat < 0x110000 := by
    have hvalid := c.valid
    rw [UInt32.isValidChar, Nat.isValidChar, htoNat] at hvalid
    omega
  simp only [String.utf8EncodeChar, htoNat, following]
  split
  · exact Or.inl ⟨by omega, rfl⟩
  split
  · exact Or.inr (Or.inl ⟨by omega, by simp⟩)
  split
  · exact Or.inr (Or.inr (Or.inl ⟨by omega, by simp⟩))
  · exact Or.inr (Or.inr (Or.inr ⟨by omega, by simp⟩))

theorem encodeChar_precedes {c d : Char} (h : c < d) :
    Precedes (String.utf8EncodeChar c) (String.utf8EncodeChar d) := by
  have hlt : c.toNat < d.toNat := h
  have hlead {m n j k : Nat} (hm : m < 256) (hn : n < 256)
      (h : m < n ∨ m = n ∧ j = k ∧ c.toNat % 64 ^ k < d.toNat % 64 ^ k) :
      Precedes (UInt8.ofNat m :: following c.toNat j) (UInt8.ofNat n :: following d.toNat k) := by
    refine precedes_cons hm hn ?_
    rcases h with hfirst | ⟨hsame, rfl, hrest⟩
    · exact Or.inl hfirst
    · exact Or.inr ⟨hsame, following_precedes hrest⟩
  rcases encodeChar_eq c with ⟨hc, hce⟩ | ⟨hc, hce⟩ | ⟨hc, hce⟩ | ⟨hc, hce⟩ <;>
    rcases encodeChar_eq d with ⟨hd, hde⟩ | ⟨hd, hde⟩ | ⟨hd, hde⟩ | ⟨hd, hde⟩ <;>
    rw [hce, hde] <;> exact hlead (by omega) (by omega) (by omega)

/-! ## Bytes of texts -/

theorem flatMap_encodeChar_lt {cs ds : List Char} (h : cs < ds) :
    cs.flatMap String.utf8EncodeChar < ds.flatMap String.utf8EncodeChar := by
  induction ds generalizing cs with
  | nil => exact absurd h (List.not_lt_nil cs)
  | cons d ds ih =>
    cases cs with
    | nil =>
      obtain ⟨b, more, hencode, -⟩ := firstChar_encodeChar d []
      simp [hencode]
    | cons c cs =>
      rw [List.flatMap_cons, List.flatMap_cons]
      rcases List.cons_lt_cons_iff.mp h with hlt | ⟨rfl, hrest⟩
      · exact (encodeChar_precedes hlt).append_lt _ _
      · exact List.append_left_lt (ih hrest)

/-- Texts are in the order of their bytes. -/
theorem toUTF8_lt_iff {s t : String} : s.toUTF8.data.toList < t.toUTF8.data.toList ↔ s < t := by
  have hlt {s t : String} (h : s < t) : s.toUTF8.data.toList < t.toUTF8.data.toList := by
    rw [toList_data_toUTF8, toList_data_toUTF8]
    exact flatMap_encodeChar_lt h
  refine ⟨fun h => ?_, hlt⟩
  rcases lt_trichotomy s t with hst | rfl | hts
  · exact hst
  · exact absurd h (List.lt_irrefl _)
  · exact absurd h (List.lt_asymm (hlt hts))

end CmsVariables.Text
