import CmsVariables.Text.Decoding

/-!
# Decoding piece by piece

Decoding takes one stretch of bytes after another, each for one character. A stretch is ended by the
byte after it or by the end of all bytes, so it stays the same if bytes are cut off behind it. Hence
bytes can be cut wherever their text can.

* `decodeFrom_cons`: the first character, and the bytes after it.
* `exists_cut`: bytes whose text is put together are themselves put together, of the bytes of
  its parts.
* `decodeLossy_eq`: bytes that encode a text are decoded like any others.
-/

namespace CmsVariables.Text

/-! ## One character -/

/-- The character that the byte `b` begins, and the bytes after it. -/
def firstChar (b : UInt8) (bs : List UInt8) : Char × List UInt8 :=
  if b.toNat < 0x80 then (Char.ofNat b.toNat, bs)
  else
    match Lead.ofByte? b.toNat with
    | none => (replacement, bs)
    | some lead =>
      let read := readFollowing lead.following lead.least lead.greatest lead.value bs
      ((read.1.map Char.ofNat).getD replacement, read.2)

theorem decodeFrom_step (done : List Char) (b : UInt8) (bs : List UInt8) :
    decodeFrom done (b :: bs) = decodeFrom ((firstChar b bs).1 :: done) (firstChar b bs).2 := by
  rw [decodeFrom, firstChar]
  split
  · rfl
  · cases Lead.ofByte? b.toNat with
    | none => rfl
    | some lead => rfl

theorem length_firstChar_le (b : UInt8) (bs : List UInt8) :
    (firstChar b bs).2.length ≤ bs.length := by
  rw [firstChar]
  split
  · exact Nat.le_refl _
  · split
    · exact Nat.le_refl _
    · exact length_readFollowing_le _ _ _ _ _

theorem decodeFrom_eq_append (done : List Char) (bs : List UInt8) :
    decodeFrom done bs = done.reverse ++ decodeFrom [] bs := by
  match bs with
  | [] => simp [decodeFrom]
  | b :: bs =>
    have := length_firstChar_le b bs
    rw [decodeFrom_step, decodeFrom_step [], decodeFrom_eq_append (_ :: done),
      decodeFrom_eq_append [_]]
    simp
termination_by bs.length

theorem decodeFrom_cons (b : UInt8) (bs : List UInt8) :
    decodeFrom [] (b :: bs) = (firstChar b bs).1 :: decodeFrom [] (firstChar b bs).2 := by
  rw [decodeFrom_step, decodeFrom_eq_append]
  rfl

/-! ## Cutting bytes -/

/-- The bytes that are read further belong to the character, however much is left after them. -/
theorem exists_used_readFollowing (following least greatest value : Nat) (bs : List UInt8) :
    ∃ used, bs = used ++ (readFollowing following least greatest value bs).2 ∧
      ∀ more, more <+: (readFollowing following least greatest value bs).2 →
        readFollowing following least greatest value (used ++ more) =
          ((readFollowing following least greatest value bs).1, more) := by
  fun_induction readFollowing following least greatest value bs with
  | case1 => exact ⟨[], rfl, fun _ _ => rfl⟩
  | case2 n least greatest value =>
    refine ⟨[], rfl, fun more hmore => ?_⟩
    rw [List.prefix_nil.mp hmore]
    rfl
  | case3 n least greatest value b bs hb ih =>
    obtain ⟨used, hbs, hused⟩ := ih
    refine ⟨b :: used, congrArg (b :: ·) hbs, fun more hmore => ?_⟩
    rw [List.cons_append, readFollowing, if_pos hb, hused more hmore]
  | case4 n least greatest value b bs hb =>
    refine ⟨[], rfl, fun more hmore => ?_⟩
    cases more with
    | nil => rfl
    | cons c more =>
      obtain ⟨rfl, -⟩ := List.cons_prefix_cons.mp hmore
      rw [List.nil_append, readFollowing, if_neg hb]

theorem exists_used_firstChar (b : UInt8) (bs : List UInt8) :
    ∃ used, bs = used ++ (firstChar b bs).2 ∧
      ∀ more, more <+: (firstChar b bs).2 →
        firstChar b (used ++ more) = ((firstChar b bs).1, more) := by
  simp only [firstChar]
  split
  · exact ⟨[], rfl, fun _ _ => rfl⟩
  · split
    · exact ⟨[], rfl, fun _ _ => rfl⟩
    · rename_i lead _
      obtain ⟨used, hbs, hused⟩ :=
        exists_used_readFollowing lead.following lead.least lead.greatest lead.value bs
      refine ⟨used, hbs, fun more hmore => ?_⟩
      rw [hused more hmore]

/-- Bytes can be cut where their text can. -/
theorem exists_cut {bs : List UInt8} {xs ys : List Char} (h : decodeFrom [] bs = xs ++ ys) :
    ∃ front back, bs = front ++ back ∧ decodeFrom [] front = xs ∧ decodeFrom [] back = ys := by
  induction xs generalizing bs with
  | nil => exact ⟨[], bs, rfl, by simp [decodeFrom], h⟩
  | cons x xs ih =>
    cases bs with
    | nil => simp [decodeFrom] at h
    | cons b bs =>
      rw [decodeFrom_cons] at h
      obtain ⟨rfl, htail⟩ := List.cons_eq_cons.mp h
      obtain ⟨front, back, hrest, hfront, hback⟩ := ih htail
      obtain ⟨used, hbs, hused⟩ := exists_used_firstChar b bs
      refine ⟨b :: (used ++ front), back, ?_, ?_, hback⟩
      · rw [List.cons_append, List.append_assoc, ← hrest, ← hbs]
      · rw [decodeFrom_cons, hused front ⟨back, hrest.symm⟩, hfront]

/-! ## Bytes that encode a text -/

theorem toNat_ofNat_of_lt {n : Nat} (h : n < 256) : (UInt8.ofNat n).toNat = n := by
  rw [UInt8.toNat_ofNat', Nat.mod_eq_of_lt h]

theorem readFollowing_ofNat {n least greatest value t : Nat} (bs : List UInt8) (ht : t < 256)
    (h : least ≤ t ∧ t ≤ greatest) :
    readFollowing (n + 1) least greatest value (UInt8.ofNat t :: bs) =
      readFollowing n 0x80 0xBF (value * 64 + t % 64) bs := by
  rw [readFollowing, toNat_ofNat_of_lt ht, if_pos h]

/-- A character of several bytes is read if its first byte is known as one. -/
theorem firstChar_of_lead {b following least greatest value : Nat} {c : Char}
    {bs rest : List UInt8} (hb : 0x80 ≤ b ∧ b < 256)
    (hlead : Lead.ofByte? b = some ⟨following, least, greatest, value⟩)
    (h : readFollowing following least greatest value bs = (some c.toNat, rest)) :
    firstChar (UInt8.ofNat b) bs = (c, rest) := by
  rw [firstChar, toNat_ofNat_of_lt hb.2, if_neg (Nat.not_lt.mpr hb.1)]
  simp only [hlead, h, Option.map_some, Option.getD_some, Char.ofNat_toNat]

theorem ofByte?_of_two {v : Nat} (h : 0x80 ≤ v ∧ v < 0x800) :
    Lead.ofByte? (v / 64 % 32 + 0xC0) = some ⟨1, 0x80, 0xBF, v / 64⟩ := by
  have hvalue : v / 64 % 32 + 0xC0 - 0xC0 = v / 64 := by omega
  rw [Lead.ofByte?, if_pos (by omega), hvalue]

theorem ofByte?_of_three {v : Nat} (h : 0x800 ≤ v ∧ v < 0x10000)
    (hchar : v < 0xD800 ∨ 0xE000 ≤ v) :
    ∃ least greatest, Lead.ofByte? (v / 4096 % 16 + 0xE0) =
        some ⟨2, least, greatest, v / 4096⟩ ∧
      least ≤ v / 64 % 64 + 0x80 ∧ v / 64 % 64 + 0x80 ≤ greatest := by
  by_cases hlow : v < 0x1000
  · have hvalue : v / 4096 = 0 := by omega
    rw [hvalue]
    exact ⟨0xA0, 0xBF, rfl, by omega, by omega⟩
  by_cases hsurrogates : v / 4096 = 0xD
  · rw [hsurrogates]
    exact ⟨0x80, 0x9F, rfl, by omega, by omega⟩
  · have hvalue : v / 4096 % 16 + 0xE0 - 0xE0 = v / 4096 := by omega
    refine ⟨0x80, 0xBF, ?_, by omega, by omega⟩
    rw [Lead.ofByte?, if_neg (by omega), if_neg (by omega), if_neg (by omega), if_pos (by omega),
      hvalue]

theorem ofByte?_of_four {v : Nat} (h : 0x10000 ≤ v ∧ v < 0x110000) :
    ∃ least greatest, Lead.ofByte? (v / 262144 % 8 + 0xF0) =
        some ⟨3, least, greatest, v / 262144⟩ ∧
      least ≤ v / 4096 % 64 + 0x80 ∧ v / 4096 % 64 + 0x80 ≤ greatest := by
  by_cases hlow : v < 0x40000
  · have hvalue : v / 262144 = 0 := by omega
    rw [hvalue]
    exact ⟨0x90, 0xBF, rfl, by omega, by omega⟩
  by_cases hhigh : v / 262144 = 4
  · rw [hhigh]
    exact ⟨0x80, 0x8F, rfl, by omega, by omega⟩
  · have hvalue : v / 262144 % 8 + 0xF0 - 0xF0 = v / 262144 := by omega
    refine ⟨0x80, 0xBF, ?_, by omega, by omega⟩
    rw [Lead.ofByte?, if_neg (by omega), if_neg (by omega), if_neg (by omega), if_neg (by omega),
      if_neg (by omega), if_pos (by omega), hvalue]

/-- A character is read from the bytes it is encoded in, whatever follows them. -/
theorem firstChar_encodeChar (c : Char) (bs : List UInt8) :
    ∃ b more, String.utf8EncodeChar c = b :: more ∧ firstChar b (more ++ bs) = (c, bs) := by
  have htoNat : c.val.toNat = c.toNat := rfl
  have hchar : c.toNat < 0xD800 ∨ 0xE000 ≤ c.toNat ∧ c.toNat < 0x110000 := by
    have hvalid := c.valid
    rw [UInt32.isValidChar, Nat.isValidChar, htoNat] at hvalid
    omega
  simp only [String.utf8EncodeChar, htoNat]
  split
  · refine ⟨_, _, rfl, ?_⟩
    rw [firstChar, toNat_ofNat_of_lt (by omega), if_pos (by omega), Char.ofNat_toNat,
      List.nil_append]
  split
  · refine ⟨_, _, rfl, firstChar_of_lead (by omega) (ofByte?_of_two (by omega)) ?_⟩
    rw [List.cons_append, readFollowing_ofNat _ (by omega) (by omega), List.nil_append,
      readFollowing]
    congr 2
    omega
  split
  · obtain ⟨least, greatest, hlead, hsecond⟩ :=
      ofByte?_of_three (v := c.toNat) (by omega) (by omega)
    refine ⟨_, _, rfl, firstChar_of_lead (by omega) hlead ?_⟩
    rw [List.cons_append, readFollowing_ofNat _ (by omega) hsecond, List.cons_append,
      readFollowing_ofNat _ (by omega) (by omega), List.nil_append, readFollowing]
    congr 2
    omega
  · obtain ⟨least, greatest, hlead, hsecond⟩ := ofByte?_of_four (v := c.toNat) (by omega)
    refine ⟨_, _, rfl, firstChar_of_lead (by omega) hlead ?_⟩
    rw [List.cons_append, readFollowing_ofNat _ (by omega) hsecond, List.cons_append,
      readFollowing_ofNat _ (by omega) (by omega), List.cons_append,
      readFollowing_ofNat _ (by omega) (by omega), List.nil_append, readFollowing]
    congr 2
    omega

theorem decodeFrom_encodeChar (c : Char) (bs : List UInt8) :
    decodeFrom [] (String.utf8EncodeChar c ++ bs) = c :: decodeFrom [] bs := by
  obtain ⟨b, more, hencode, hfirst⟩ := firstChar_encodeChar c bs
  rw [hencode, List.cons_append, decodeFrom_cons, hfirst]

theorem decodeFrom_encode (cs : List Char) :
    decodeFrom [] (cs.flatMap String.utf8EncodeChar) = cs := by
  induction cs with
  | nil => simp [decodeFrom]
  | cons c cs ih => rw [List.flatMap_cons, decodeFrom_encodeChar, ih]

theorem toList_data_toUTF8 (s : String) :
    s.toUTF8.data.toList = s.toList.flatMap String.utf8EncodeChar := by
  conv => lhs; rw [← String.ofList_toList (s := s)]
  exact List.toList_data_toByteArray

theorem decodeLossy_eq (bytes : ByteArray) :
    decodeLossy bytes = String.ofList (decodeFrom [] bytes.data.toList) := by
  rw [decodeLossy]
  split
  · rename_i s hs
    rw [decode?_eq_some_iff.mp hs, toList_data_toUTF8, decodeFrom_encode, String.ofList_toList]
  · rfl

end CmsVariables.Text
