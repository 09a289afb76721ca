/-!
# Decoding bytes

A file holds bytes; its text is what they encode in UTF-8. `decode?` refuses bytes that encode no
text. `decodeLossy` puts a replacement character for each stretch of bytes that begins no character,
and such a stretch is as long as the beginning of some character.

* `decode?_eq_some_iff`: a text is decoded from its own bytes and from no others.
* `decodeLossy_toUTF8`: bytes that encode a text lose nothing.
-/

namespace CmsVariables.Text

/-- The text that bytes encode, if they do. -/
def decode? (bytes : ByteArray) : Option String := String.fromUTF8? bytes

theorem decode?_eq_some_iff {bytes : ByteArray} {s : String} :
    decode? bytes = some s ↔ bytes = s.toUTF8 := by
  unfold decode? String.fromUTF8?
  constructor
  · intro h
    split at h
    · cases h
      rfl
    · cases h
  · rintro rfl
    split
    · rfl
    · rename_i hvalid
      exact absurd s.isValidUTF8 (by simpa using hvalid)

/-- The character that stands for bytes that encode none. -/
def replacement : Char := '\ufffd'

/-- A first byte of several: how many have to follow, the least and the greatest that may come next,
and what it adds to the code point. -/
structure Lead where
  following : Nat
  least : Nat
  greatest : Nat
  value : Nat

/-- What a byte beyond ASCII says as a first byte. The narrower ranges leave out characters that fit
into fewer bytes, surrogates and what lies beyond the last code point. -/
def Lead.ofByte? (b : Nat) : Option Lead :=
  if 0xC2 ≤ b ∧ b ≤ 0xDF then some ⟨1, 0x80, 0xBF, b - 0xC0⟩
  else if b = 0xE0 then some ⟨2, 0xA0, 0xBF, 0⟩
  else if b = 0xED then some ⟨2, 0x80, 0x9F, 0xD⟩
  else if 0xE1 ≤ b ∧ b ≤ 0xEF then some ⟨2, 0x80, 0xBF, b - 0xE0⟩
  else if b = 0xF0 then some ⟨3, 0x90, 0xBF, 0⟩
  else if 0xF1 ≤ b ∧ b ≤ 0xF3 then some ⟨3, 0x80, 0xBF, b - 0xF0⟩
  else if b = 0xF4 then some ⟨3, 0x80, 0x8F, 4⟩
  else none

/-- Reads `following` further bytes, the first of them between `least` and `greatest`: the code point
if all are there, and the bytes after those that belong to it. -/
def readFollowing (following least greatest value : Nat) (bs : List UInt8) :
    Option Nat × List UInt8 :=
  match following, bs with
  | 0, bs => (some value, bs)
  | _ + 1, [] => (none, [])
  | n + 1, b :: bs =>
    if least ≤ b.toNat ∧ b.toNat ≤ greatest then
      readFollowing n 0x80 0xBF (value * 64 + b.toNat % 64) bs
    else (none, b :: bs)

theorem length_readFollowing_le (following least greatest value : Nat) (bs : List UInt8) :
    (readFollowing following least greatest value bs).2.length ≤ bs.length := by
  fun_induction readFollowing following least greatest value bs with
  | case1 => exact Nat.le_refl _
  | case2 => exact Nat.le_refl _
  | case3 _ _ _ _ _ _ _ ih => exact Nat.le_succ_of_le ih
  | case4 => exact Nat.le_refl _

/-- Decodes bytes; `done` holds the characters so far, last one first. -/
def decodeFrom (done : List Char) (bs : List UInt8) : List Char :=
  match bs with
  | [] => done.reverse
  | b :: bs =>
    if b.toNat < 0x80 then decodeFrom (Char.ofNat b.toNat :: done) bs
    else
      match Lead.ofByte? b.toNat with
      | none => decodeFrom (replacement :: done) bs
      | some lead =>
        let read := readFollowing lead.following lead.least lead.greatest lead.value bs
        decodeFrom ((read.1.map Char.ofNat).getD replacement :: done) read.2
termination_by bs.length
decreasing_by
  · exact Nat.lt_succ_self _
  · exact Nat.lt_succ_self _
  · exact Nat.lt_succ_of_le (length_readFollowing_le _ _ _ _ _)

/-- The text of bytes, with replacement characters where they encode none. -/
def decodeLossy (bytes : ByteArray) : String :=
  match decode? bytes with
  | some s => s
  | none => String.ofList (decodeFrom [] bytes.data.toList)

theorem decodeLossy_toUTF8 (s : String) : decodeLossy s.toUTF8 = s := by
  rw [decodeLossy, decode?_eq_some_iff.mpr rfl]

end CmsVariables.Text
