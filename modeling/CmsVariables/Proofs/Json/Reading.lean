import CmsVariables.Proofs.Json.Grammar
import Mathlib.Data.List.DropRight

/-!
# Readers and the grammar

What the grammar derives the readers take, and they leave what follows it. After a value that has no
end of its own, such as a number, something else has to follow: a blank, a comma, a closing bracket
or the end of the text.

* `skipSpace_blank`: blanks do not count.
* `readString_characters`: a string is read as what it spells, and `skipString_passed` passes over it.
* `skipString_of_readString`: what is read is passed over alike.
* `skipFrom_spells`: values and their parts, by induction on the grammar.
* `skipValue_spells`: a value is passed over whole.
-/

namespace CmsVariables.Json

variable {cs rest body : List Char} {c : Char}

/-! ## Blanks -/

theorem isSpace_iff : isSpace c = true ↔ c = ' ' ∨ c = '\t' ∨ c = '\n' ∨ c = '\r' := by
  simp only [isSpace, Bool.or_eq_true, beq_iff_eq]
  tauto

theorem skipSpace_blank {b : List Char} (h : Blank b) (cs : List Char) :
    skipSpace (b ++ cs) = skipSpace cs :=
  List.dropWhile_append_of_pos fun c hc => isSpace_iff.mpr (h c hc)

theorem skipSpace_cons (hc : isSpace c = false) (cs : List Char) : skipSpace (c :: cs) = c :: cs :=
  List.dropWhile_cons_of_neg (by simp [hc])

/-- The first character after blanks that is none. -/
theorem skipSpace_part {b : List Char} (h : Blank b) (hc : isSpace c = false) (cs : List Char) :
    skipSpace (b ++ c :: cs) = c :: cs := by
  rw [skipSpace_blank h, skipSpace_cons hc]

/-! ## Escapes -/

theorem hexDigit?_of_hexDigit {n : ℕ} (h : HexDigit c n) : hexDigit? c = some n := by
  obtain ⟨hn, rfl | rfl⟩ := h
  · interval_cases n <;> rfl
  · interval_cases n <;> rfl

theorem hexUnit_of_hexUnit {us : List Char} {n : ℕ} (h : HexUnit us n) (rest : List Char) :
    hexUnit (us ++ rest) = .ok (n, rest) := by
  cases h with
  | @digits a b c d i j k l ha hb hc hd =>
    have hsize : ¬(String.ofList (a :: b :: c :: d :: rest)).utf8ByteSize < 4 := by
      have h1 := Char.utf8Size_pos a
      have h2 := Char.utf8Size_pos b
      have h3 := Char.utf8Size_pos c
      have h4 := Char.utf8Size_pos d
      simp only [String.ofList_cons, String.utf8ByteSize_append, String.utf8ByteSize_singleton]
      omega
    unfold hexUnit
    simp only [List.cons_append, List.nil_append, hsize, if_false, hexDigit?_of_hexDigit ha,
      hexDigit?_of_hexDigit hb, hexDigit?_of_hexDigit hc, hexDigit?_of_hexDigit hd]

theorem simpleEscape?_of_mem {e : Char} (h : (e, c) ∈ escapes) : simpleEscape? e = some c := by
  simp only [escapes, List.mem_cons, Prod.mk.injEq, List.not_mem_nil, or_false] at h
  rcases h with ⟨rfl, rfl⟩ | ⟨rfl, rfl⟩ | ⟨rfl, rfl⟩ | ⟨rfl, rfl⟩ | ⟨rfl, rfl⟩ | ⟨rfl, rfl⟩ |
    ⟨rfl, rfl⟩ | ⟨rfl, rfl⟩ <;> rfl

/-- No character is half of a pair. -/
theorem halves_of_char (c : Char) : isLowHalf c.toNat = false ∧ isHighHalf c.toNat = false := by
  have hvalid : c.toNat < 0xD800 ∨ 0xDFFF < c.toNat := by
    rcases c.valid with h | h
    · exact Or.inl h
    · exact Or.inr h.1
  simp only [isLowHalf, isHighHalf, Bool.and_eq_false_iff, decide_eq_false_iff_not]
  omega

theorem readEscape_letter {e : Char} (h : (e, c) ∈ escapes) (rest : List Char) :
    readEscape (e :: rest) = .ok (c, rest) := by
  rw [readEscape, simpleEscape?_of_mem h]

theorem readEscape_unit {us : List Char} (h : HexUnit us c.toNat) (rest : List Char) :
    readEscape ('u' :: (us ++ rest)) = .ok (c, rest) := by
  obtain ⟨hlow, hhigh⟩ := halves_of_char c
  have hnone : simpleEscape? 'u' = none := rfl
  unfold readEscape
  simp only [hnone, if_true, hexUnit_of_hexUnit h, hlow, hhigh, Bool.false_eq_true, if_false,
    Char.ofNat_toNat]

theorem readEscape_pair {high low : ℕ} {us vs : List Char} (hu : HexUnit us high)
    (hv : HexUnit vs low) (hhigh : 0xD800 ≤ high ∧ high < 0xDC00)
    (hlow : 0xDC00 ≤ low ∧ low < 0xE000)
    (hc : c.toNat = 0x10000 + (high - 0xD800) * 0x400 + (low - 0xDC00)) (rest : List Char) :
    readEscape ('u' :: (us ++ '\\' :: 'u' :: (vs ++ rest))) = .ok (c, rest) := by
  have hnone : simpleEscape? 'u' = none := rfl
  have hfirst : isLowHalf high = false ∧ isHighHalf high = true := by
    simp only [isLowHalf, isHighHalf, Bool.and_eq_false_iff, decide_eq_false_iff_not,
      Bool.and_eq_true, decide_eq_true_eq]
    omega
  have hsecond : isLowHalf low = true := by
    simp only [isLowHalf, Bool.and_eq_true, decide_eq_true_eq]
    omega
  have hpair : pairChar high low = c := by
    have hvalue : (high - 0xD800) * 0x400 + (low - 0xDC00) + 0x10000 = c.toNat := by omega
    rw [pairChar, hvalue, Char.ofNat_toNat]
  unfold readEscape
  simp only [hnone, if_true, hexUnit_of_hexUnit hu, hfirst.1, hfirst.2, Bool.false_eq_true, if_false]
  unfold readLowHalf
  simp only [and_self, if_true, hexUnit_of_hexUnit hv, hsecond, hpair]

/-! ## Strings -/

theorem readStringFrom_plain (hc : IsPlain c) (done cs : List Char) :
    readStringFrom done (c :: cs) = readStringFrom (c :: done) cs := by
  obtain ⟨hquote, hslash, hcontrol⟩ := hc
  rw [readStringFrom, if_neg hquote, if_neg hslash, if_neg (Nat.not_lt.mpr hcontrol)]

/-- An escape is read as the character that it stands for. -/
theorem readStringFrom_escape {done escape : List Char} (h : readEscape escape = .ok (c, rest)) :
    readStringFrom done ('\\' :: escape) = readStringFrom (c :: done) rest := by
  rw [readStringFrom, if_neg (by decide), if_pos rfl]
  split
  · rename_i hread
    rw [h] at hread
    cases hread
    rfl
  · rename_i hread
    rw [h] at hread
    cases hread

theorem readStringFrom_characters (h : Characters body cs) (done rest : List Char) :
    readStringFrom done (body ++ '"' :: rest) = .ok (done.reverse ++ cs, rest) := by
  induction h generalizing done with
  | nil => rw [List.nil_append, readStringFrom, if_pos rfl, List.append_nil]
  | plain hc _ ih =>
    rw [List.cons_append, readStringFrom_plain hc, ih]
    simp
  | letter he _ ih =>
    rw [List.cons_append, List.cons_append, readStringFrom_escape (readEscape_letter he _), ih]
    simp
  | unit hu _ ih =>
    rw [List.cons_append, List.cons_append, List.append_assoc,
      readStringFrom_escape (readEscape_unit hu _), ih]
    simp
  | pair hu hv hhigh hlow hc _ ih =>
    simp only [List.cons_append, List.append_assoc]
    rw [readStringFrom_escape (readEscape_pair hu hv hhigh hlow hc _), ih]
    simp

/-- A string is read as what it spells. -/
theorem readString_characters {s : String} (h : Characters body s.toList) (rest : List Char) :
    readString (body ++ '"' :: rest) = .ok (s, rest) := by
  unfold readString
  rw [readStringFrom_characters h]
  simp

theorem skipString_escape {escape : List Char} (h : skipEscape escape = .ok rest) :
    skipString ('\\' :: escape) = skipString rest := by
  rw [skipString, if_neg (by decide), if_pos rfl]
  split
  · rename_i hskip
    rw [h] at hskip
    cases hskip
    rfl
  · rename_i hskip
    rw [h] at hskip
    cases hskip

theorem skipEscape_letter {e : Char} (h : (e, c) ∈ escapes) (rest : List Char) :
    skipEscape (e :: rest) = .ok rest := by
  rw [skipEscape, simpleEscape?_of_mem h]

theorem skipEscape_unit {us : List Char} {n : ℕ} (h : HexUnit us n) (rest : List Char) :
    skipEscape ('u' :: (us ++ rest)) = .ok rest := by
  have hnone : simpleEscape? 'u' = none := rfl
  unfold skipEscape
  simp only [hnone, if_true, hexUnit_of_hexUnit h]

theorem skipString_passed (h : Passed body) (rest : List Char) :
    skipString (body ++ '"' :: rest) = .ok rest := by
  induction h with
  | nil => rw [List.nil_append, skipString, if_pos rfl]
  | plain hc _ ih =>
    obtain ⟨hquote, hslash, hcontrol⟩ := hc
    rw [List.cons_append, skipString, if_neg hquote, if_neg hslash,
      if_neg (Nat.not_lt.mpr hcontrol), ih]
  | letter he _ ih =>
    rw [List.cons_append, List.cons_append, skipString_escape (skipEscape_letter he _), ih]
  | unit hu _ ih =>
    rw [List.cons_append, List.cons_append, List.append_assoc,
      skipString_escape (skipEscape_unit hu _), ih]

/-- What is read as an escape is passed over as one, or as one and the escape for the second half of a
pair after it. -/
theorem skipEscape_of_readEscape {escape : List Char} (h : readEscape escape = .ok (c, rest)) :
    skipEscape escape = .ok rest ∨
      ∃ high after, skipEscape escape = .ok after ∧ readLowHalf high after = .ok (c, rest) := by
  cases escape with
  | nil => cases h
  | cons e escape =>
    rw [readEscape] at h
    rw [skipEscape]
    cases hletter : simpleEscape? e with
    | some d =>
      rw [hletter] at h
      cases h
      exact Or.inl rfl
    | none =>
      simp only [hletter] at h ⊢
      split at h
      · rename_i hu
        rw [if_pos hu]
        cases hunit : hexUnit escape with
        | error e =>
          rw [hunit] at h
          cases h
        | ok found =>
          obtain ⟨n, after⟩ := found
          simp only [hunit] at h
          split at h
          · cases h
          split at h
          · exact Or.inr ⟨n, after, rfl, h⟩
          · simp only [Except.ok.injEq, Prod.mk.injEq] at h
            exact Or.inl (congrArg Except.ok h.2)
      · cases h

theorem skipString_of_readLowHalf {high : ℕ} (h : readLowHalf high cs = .ok (c, rest)) :
    skipString cs = skipString rest := by
  unfold readLowHalf at h
  split at h
  · cases h
  · split at h <;> cases h
  · split at h
    · rename_i hmark
      obtain ⟨rfl, rfl⟩ := hmark
      split at h
      · rename_i low after hunit
        split at h
        · simp only [Except.ok.injEq, Prod.mk.injEq] at h
          obtain ⟨-, rfl⟩ := h
          have hnone : simpleEscape? 'u' = none := rfl
          refine skipString_escape ?_
          rw [skipEscape]
          simp only [hnone, if_true, hunit]
        · cases h
      · cases h
    · cases h

theorem skipString_of_readEscape {escape : List Char} (h : readEscape escape = .ok (c, rest)) :
    skipString ('\\' :: escape) = skipString rest := by
  rcases skipEscape_of_readEscape h with hskip | ⟨high, after, hskip, hlow⟩
  · exact skipString_escape hskip
  · rw [skipString_escape hskip, skipString_of_readLowHalf hlow]

theorem skipString_of_readStringFrom {done cs s : List Char}
    (h : readStringFrom done cs = .ok (s, rest)) : skipString cs = .ok rest := by
  fun_induction readStringFrom done cs with
  | case1 => cases h
  | case2 done cs =>
    cases h
    rw [skipString, if_pos rfl]
  | case3 done cs d after hread _ ih => rw [skipString_of_readEscape hread, ih h]
  | case4 => cases h
  | case5 => cases h
  | case6 done c cs hquote hslash hcontrol ih =>
    rw [skipString, if_neg hquote, if_neg hslash, if_neg hcontrol, ih h]

/-- A string that is read is passed over alike. -/
theorem skipString_of_readString {s : String} (h : readString cs = .ok (s, rest)) :
    skipString cs = .ok rest := by
  unfold readString at h
  split at h
  · rename_i hread
    cases h
    exact skipString_of_readStringFrom hread
  · cases h

/-! ## Numbers -/

/-- What can follow a value: a blank, a comma, a closing bracket or the end of the text. -/
def Stops (cs : List Char) : Prop :=
  ∀ c ∈ cs.head?, c = ',' ∨ c = ']' ∨ c = '}' ∨ c = ' ' ∨ c = '\t' ∨ c = '\n' ∨ c = '\r'

/-- What follows a value does not go on with a number. -/
theorem Stops.not_number (h : Stops (c :: cs)) : c.isDigit = false ∧ c ≠ '.' ∧ c ≠ 'e' ∧ c ≠ 'E' := by
  rcases h c rfl with rfl | rfl | rfl | rfl | rfl | rfl | rfl <;> decide

theorem Stops.append_blank {b : List Char} (hb : Blank b) (h : Stops cs) : Stops (b ++ cs) := by
  cases b with
  | nil => exact h
  | cons d b =>
    intro c hc
    obtain rfl := Option.some.inj hc
    have hblank := hb d List.mem_cons_self
    tauto

theorem dropWhile_digits {ds : List Char} (h : ∀ d ∈ ds, d.isDigit = true)
    (hrest : ∀ c ∈ rest.head?, c.isDigit = false) : (ds ++ rest).dropWhile Char.isDigit = rest := by
  rw [List.dropWhile_append_of_pos h]
  cases rest with
  | nil => rfl
  | cons c rest => exact List.dropWhile_cons_of_neg (by simp [hrest c rfl])

theorem Stops.head?_isDigit (h : Stops rest) : ∀ c ∈ rest.head?, c.isDigit = false := by
  cases rest with
  | nil => exact fun _ h => nomatch h
  | cons d rest =>
    intro c hc
    obtain rfl := Option.some.inj hc
    exact h.not_number.1

theorem skipExponent_digits {sign ds : List Char} (hsign : sign = [] ∨ sign = ['+'] ∨ sign = ['-'])
    (h : Digits ds) (hrest : Stops rest) : skipExponent (sign ++ (ds ++ rest)) = .ok rest := by
  obtain ⟨hne, hdigits⟩ := h
  obtain ⟨d, ds, rfl⟩ := List.exists_cons_of_ne_nil hne
  obtain ⟨hd, hds⟩ := List.forall_mem_cons.mp hdigits
  have hplus : d ≠ '+' := by
    rintro rfl
    cases hd
  have hminus : d ≠ '-' := by
    rintro rfl
    cases hd
  have hleft : (ds ++ rest).dropWhile Char.isDigit = rest := dropWhile_digits hds hrest.head?_isDigit
  rcases hsign with rfl | rfl | rfl
  · simp [skipExponent, hplus, hminus, hd, hleft]
  · simp [skipExponent, hd, hleft]
  · simp [skipExponent, hd, hleft]

theorem skipScale_exponent {exponent : List Char} (h : Exponent exponent) (hrest : Stops rest) :
    skipScale (exponent ++ rest) = .ok rest := by
  cases h with
  | none =>
    cases rest with
    | nil => rfl
    | cons c rest =>
      obtain ⟨-, -, he, hE⟩ := hrest.not_number
      simp [skipScale, he, hE]
  | digits hmark hsign hds =>
    rw [List.cons_append, List.append_assoc]
    rcases hmark with rfl | rfl
    · exact skipExponent_digits hsign hds hrest
    · exact skipExponent_digits hsign hds hrest

/-- Where an exponent or the end of a number stands there is no digit and no point. -/
theorem head?_exponent {exponent : List Char} (h : Exponent exponent) (hrest : Stops rest) :
    ∀ c ∈ (exponent ++ rest).head?, c.isDigit = false ∧ c ≠ '.' := by
  intro c hc
  cases h with
  | none =>
    cases rest with
    | nil => cases hc
    | cons d rest =>
      obtain rfl := Option.some.inj hc
      exact ⟨hrest.not_number.1, hrest.not_number.2.1⟩
  | digits hmark _ _ =>
    obtain rfl := Option.some.inj hc
    rcases hmark with rfl | rfl
    · exact ⟨rfl, by decide⟩
    · exact ⟨rfl, by decide⟩

theorem skipTail_of_ne (h : ∀ c ∈ cs.head?, c ≠ '.') : skipTail cs = skipScale cs := by
  cases cs with
  | nil => rfl
  | cons c cs =>
    have hc : c ≠ '.' := h c rfl
    unfold skipTail
    split
    · rename_i heq
      exact absurd (List.cons_eq_cons.mp heq).1 hc
    · rename_i heq
      exact absurd (List.cons_eq_cons.mp heq).1 hc
    · rfl

theorem skipTail_fraction {fraction exponent : List Char} (hfraction : Fraction fraction)
    (hexponent : Exponent exponent) (hrest : Stops rest) :
    skipTail (fraction ++ (exponent ++ rest)) = .ok rest := by
  have hhead := head?_exponent hexponent hrest
  cases hfraction with
  | none =>
    rw [List.nil_append, skipTail_of_ne fun c hc => (hhead c hc).2]
    exact skipScale_exponent hexponent hrest
  | digits h =>
    obtain ⟨hne, hdigits⟩ := h
    rename_i ds
    obtain ⟨d, ds, rfl⟩ := List.exists_cons_of_ne_nil hne
    obtain ⟨hd, hds⟩ := List.forall_mem_cons.mp hdigits
    rw [List.cons_append, List.cons_append, skipTail, if_pos hd,
      dropWhile_digits hds fun c hc => (hhead c hc).1]
    exact skipScale_exponent hexponent hrest

/-- Behind its sign a number is passed over. -/
theorem skipNumber_whole {whole fraction exponent : List Char} (hwhole : Whole whole)
    (hfraction : Fraction fraction) (hexponent : Exponent exponent) (hrest : Stops rest) :
    skipNumber (whole ++ (fraction ++ (exponent ++ rest))) = .ok rest := by
  have htail := skipTail_fraction hfraction hexponent hrest
  have hhead : ∀ c ∈ (fraction ++ (exponent ++ rest)).head?, c.isDigit = false := by
    cases hfraction with
    | none => exact fun c hc => (head?_exponent hexponent hrest c hc).1
    | digits _ =>
      intro c hc
      obtain rfl := Option.some.inj hc
      rfl
  cases hwhole with
  | zero =>
    generalize fraction ++ (exponent ++ rest) = after at htail hhead
    cases after with
    | nil =>
      cases htail
      rfl
    | cons c after => simpa [skipNumber, hhead c rfl] using htail
  | @digits c ds hc h =>
    obtain ⟨hd, hds⟩ := List.forall_mem_cons.mp h.2
    rw [List.cons_append, skipNumber.eq_def]
    simp only
    rw [if_neg hc, if_pos hd, dropWhile_digits hds hhead]
    exact htail

/-! ## Values -/

/-- What a value begins with: neither a blank nor a closing bracket. -/
def Begins (cs : List Char) : Prop :=
  ∃ c rest, cs = c :: rest ∧ isSpace c = false ∧ c ≠ ']' ∧ c ≠ '}'

theorem Whole.exists_digit {whole : List Char} (h : Whole whole) :
    ∃ c ds, whole = c :: ds ∧ c.isDigit = true := by
  cases h with
  | zero => exact ⟨'0', [], rfl, rfl⟩
  | @digits c ds _ h => exact ⟨c, ds, rfl, h.2 c List.mem_cons_self⟩

/-- A digit is no letter and no mark that a value begins with. -/
theorem ne_of_isDigit (h : c.isDigit = true) : isSpace c = false ∧ c ≠ ']' ∧ c ≠ '}' ∧ c ≠ '[' ∧
    c ≠ '{' ∧ c ≠ 'n' ∧ c ≠ 't' ∧ c ≠ 'f' ∧ c ≠ '"' ∧ c ≠ '-' := by
  have hspace : isSpace c = false := by
    rw [Bool.eq_false_iff]
    intro hblank
    rcases isSpace_iff.mp hblank with rfl | rfl | rfl | rfl <;> cases h
  refine ⟨hspace, ?_, ?_, ?_, ?_, ?_, ?_, ?_, ?_, ?_⟩ <;>
  · rintro rfl
    cases h

theorem Spells.begins {v : List Char} (h : Spells .value v) : Begins v := by
  cases h with
  | @word w hw =>
    simp only [List.mem_cons, List.not_mem_nil, or_false] at hw
    rcases hw with rfl | rfl | rfl <;> exact ⟨_, _, rfl, by decide⟩
  | number hnumber =>
    cases hnumber with
    | parts hsign hwhole _ _ =>
      rcases hsign with rfl | rfl
      · obtain ⟨c, ds, rfl, hc⟩ := hwhole.exists_digit
        obtain ⟨hspace, hlist, hobject, -⟩ := ne_of_isDigit hc
        exact ⟨c, _, rfl, hspace, hlist, hobject⟩
      · exact ⟨'-', _, rfl, by decide⟩
  | string _ => exact ⟨'"', _, rfl, by decide⟩
  | @empty level _ _ => cases level <;> exact ⟨_, _, rfl, by decide⟩
  | @full level _ _ => cases level <;> exact ⟨_, _, rfl, by decide⟩

/-! ## One step -/

theorem Level.isSpace_opening (level : Level) : isSpace level.opening = false := by
  cases level <;> rfl

theorem Level.isSpace_closing (level : Level) : isSpace level.closing = false := by
  cases level <;> rfl

theorem skipFrom_value_eq (levels : List Level) (cs : List Char) :
    skipFrom .value levels cs =
      match skipSpace cs with
      | [] => .error .unfinished
      | c :: rest =>
        if c = '[' then skipFrom .first (.list :: levels) rest
        else if c = '{' then skipFrom .first (.object :: levels) rest
        else (skipScalar (c :: rest)).bind (skipFrom .further levels) := by
  rw [skipFrom]
  split
  · rename_i h
    rw [h]
  · rename_i h
    rw [h]
    simp only
    congr 2
    split
    · rename_i hskip
      rw [hskip]
      rfl
    · rename_i hskip
      rw [hskip]
      rfl

theorem skipFrom_first_eq (level : Level) (outer : List Level) (cs : List Char) :
    skipFrom .first (level :: outer) cs =
      match skipSpace cs with
      | [] => .error .unfinished
      | c :: rest =>
        if c = level.closing then skipFrom .further outer rest
        else skipFrom level.part (level :: outer) (c :: rest) := by
  rw [skipFrom]
  split <;> rename_i h <;> rw [h]

theorem skipFrom_further_eq (level : Level) (outer : List Level) (cs : List Char) :
    skipFrom .further (level :: outer) cs =
      match skipSpace cs with
      | [] => .error .unfinished
      | c :: rest =>
        if c = ',' then skipFrom level.part (level :: outer) rest
        else if c = level.closing then skipFrom .further outer rest
        else .error .malformed := by
  rw [skipFrom]
  split <;> rename_i h <;> rw [h]

theorem skipFrom_member_eq (levels : List Level) (cs : List Char) :
    skipFrom .member levels cs = (skipName cs).bind (skipFrom .value levels) := by
  rw [skipFrom]
  split <;> rename_i h <;> rw [h] <;> rfl

/-- What is no list and no object is passed over in one step. -/
theorem skipFrom_of_skipScalar {left : List Char} (hspace : skipSpace cs = c :: left)
    (hlist : c ≠ '[') (hobject : c ≠ '{') (h : skipScalar (c :: left) = .ok rest)
    (levels : List Level) : skipFrom .value levels cs = skipFrom .further levels rest := by
  rw [skipFrom_value_eq, hspace]
  simp only
  rw [if_neg hlist, if_neg hobject, h]
  rfl

theorem skipFrom_scalar {levels : List Level} (hspace : isSpace c = false) (hlist : c ≠ '[')
    (hobject : c ≠ '{') (h : skipScalar (c :: cs) = .ok rest) :
    skipFrom .value levels (c :: cs) = skipFrom .further levels rest :=
  skipFrom_of_skipScalar (skipSpace_cons hspace cs) hlist hobject h levels

theorem skipFrom_value_skipSpace (levels : List Level) (cs : List Char) :
    skipFrom .value levels (skipSpace cs) = skipFrom .value levels cs := by
  have hskip : skipSpace (skipSpace cs) = skipSpace cs := List.dropWhile_idempotent _ _
  rw [skipFrom_value_eq, skipFrom_value_eq, hskip]

theorem skipFrom_word {w : String} (hw : w ∈ ["null", "true", "false"]) (levels : List Level)
    (rest : List Char) : skipFrom .value levels (w.toList ++ rest) = skipFrom .further levels rest := by
  simp only [List.mem_cons, List.not_mem_nil, or_false] at hw
  rcases hw with rfl | rfl | rfl
  · exact skipFrom_scalar (by decide) (by decide) (by decide) rfl
  · exact skipFrom_scalar (by decide) (by decide) (by decide) rfl
  · exact skipFrom_scalar (by decide) (by decide) (by decide) rfl

theorem skipFrom_number {v : List Char} (h : NumberText v) (levels : List Level)
    (hrest : Stops rest) : skipFrom .value levels (v ++ rest) = skipFrom .further levels rest := by
  cases h with
  | @parts sign whole fraction exponent hsign hwhole hfraction hexponent =>
    have hskip := skipNumber_whole hwhole hfraction hexponent hrest
    simp only [List.append_assoc]
    rcases hsign with rfl | rfl
    · obtain ⟨c, ds, rfl, hc⟩ := hwhole.exists_digit
      obtain ⟨hspace, -, -, hlist, hobject, hn, ht, hf, hquote, hminus⟩ := ne_of_isDigit hc
      refine skipFrom_scalar hspace hlist hobject ?_
      simpa [skipScalar, hn, ht, hf, hquote, hminus, hc] using hskip
    · exact skipFrom_scalar (by decide) (by decide) (by decide) hskip

theorem skipFrom_string (h : Passed body) (levels : List Level) (rest : List Char) :
    skipFrom .value levels ('"' :: (body ++ '"' :: rest)) = skipFrom .further levels rest :=
  skipFrom_scalar (by decide) (by decide) (by decide) (skipString_passed h rest)

/-! ## Open values -/

theorem skipFrom_value_blank {b : List Char} (hb : Blank b) (levels : List Level) (cs : List Char) :
    skipFrom .value levels (b ++ cs) = skipFrom .value levels cs := by
  rw [skipFrom_value_eq, skipFrom_value_eq, skipSpace_blank hb]

theorem skipFrom_further_blank {b : List Char} (hb : Blank b) (level : Level) (outer : List Level)
    (cs : List Char) :
    skipFrom .further (level :: outer) (b ++ cs) = skipFrom .further (level :: outer) cs := by
  rw [skipFrom_further_eq, skipFrom_further_eq, skipSpace_blank hb]

theorem skipFrom_opening (level : Level) (levels : List Level) (cs : List Char) :
    skipFrom .value levels (level.opening :: cs) = skipFrom .first (level :: levels) cs := by
  rw [skipFrom_value_eq, skipSpace_cons level.isSpace_opening]
  cases level <;> rfl

theorem skipFrom_first_end {b : List Char} (hb : Blank b) (level : Level) (outer : List Level)
    (cs : List Char) :
    skipFrom .first (level :: outer) (b ++ level.closing :: cs) = skipFrom .further outer cs := by
  rw [skipFrom_first_eq, skipSpace_part hb level.isSpace_closing]
  exact if_pos rfl

/-- The first part of an open value is looked for where its blanks end. -/
theorem skipFrom_first_part {a : List Char} (ha : Blank a) {level : Level} (outer : List Level)
    (hspace : isSpace c = false) (hc : c ≠ level.closing) (cs : List Char) :
    skipFrom .first (level :: outer) (a ++ c :: cs) =
      skipFrom level.part (level :: outer) (c :: cs) := by
  rw [skipFrom_first_eq, skipSpace_part ha hspace]
  exact if_neg hc

theorem skipFrom_further_end (level : Level) (outer : List Level) (cs : List Char) :
    skipFrom .further (level :: outer) (level.closing :: cs) = skipFrom .further outer cs := by
  rw [skipFrom_further_eq, skipSpace_cons level.isSpace_closing]
  cases level <;> rfl

theorem skipFrom_further_comma (level : Level) (outer : List Level) (cs : List Char) :
    skipFrom .further (level :: outer) (',' :: cs) = skipFrom level.part (level :: outer) cs := by
  rw [skipFrom_further_eq]
  rfl

/-- The name of a member and its colon, with blanks around them. -/
theorem skipFrom_name {a name b : List Char} (ha : Blank a) (hname : Passed name) (hb : Blank b)
    (levels : List Level) (cs : List Char) :
    skipFrom .member levels (a ++ '"' :: (name ++ '"' :: (b ++ ':' :: cs))) =
      skipFrom .value levels cs := by
  have hcolon : skipColon (b ++ ':' :: cs) = .ok cs := by
    unfold skipColon
    rw [skipSpace_part hb (by decide)]
    rfl
  have hskip : skipName (a ++ '"' :: (name ++ '"' :: (b ++ ':' :: cs))) = .ok cs := by
    unfold skipName
    rw [skipSpace_part ha (by decide)]
    simp only [if_true, skipString_passed hname, hcolon]
  rw [skipFrom_member_eq, hskip]
  rfl

theorem skipFrom_part_blank {b : List Char} (hb : Blank b) (level : Level) (levels : List Level)
    (cs : List Char) : skipFrom level.part levels (b ++ cs) = skipFrom level.part levels cs := by
  cases level with
  | list => exact skipFrom_value_blank hb levels cs
  | object =>
    have hname : skipName (b ++ cs) = skipName cs := by
      unfold skipName
      rw [skipSpace_blank hb]
    show skipFrom .member levels (b ++ cs) = skipFrom .member levels cs
    rw [skipFrom_member_eq, skipFrom_member_eq, hname]

/-! ## Values of any depth -/

/-- After its blanks a part begins with something else than the end of the open value. -/
theorem Spells.part_begins {level : Level} {p : List Char} (h : Spells (.part level) p) :
    ∃ a c rest, Blank a ∧ p = a ++ c :: rest ∧ isSpace c = false ∧ c ≠ level.closing := by
  cases h with
  | @item a v b ha hv hb =>
    obtain ⟨c, rest, rfl, hspace, hlist, -⟩ := hv.begins
    exact ⟨a, c, rest ++ b, ha, rfl, hspace, hlist⟩
  | @member a name b v ha hname hb hv => exact ⟨a, '"', _, ha, rfl, rfl, by decide⟩

theorem Spells.parts_begin {level : Level} {t : List Char} (h : Spells (.parts level) t) :
    ∃ a c rest, Blank a ∧ t = a ++ c :: rest ∧ isSpace c = false ∧ c ≠ level.closing := by
  cases h with
  | one hpart => exact hpart.part_begins
  | more hpart _ =>
    obtain ⟨a, c, rest, ha, rfl, hspace, hc⟩ := hpart.part_begins
    exact ⟨a, c, _, ha, by rw [List.append_assoc, List.cons_append], hspace, hc⟩

/-- Skipping passes over a text of the kind and leaves what follows it. -/
def Kind.Skips : Kind → List Char → Prop
  | value, v => ∀ levels rest, Stops rest →
    skipFrom .value levels (v ++ rest) = skipFrom .further levels rest
  | part level, p => ∀ inner outer rest, Stops rest →
    skipFrom level.part (inner :: outer) (p ++ rest) = skipFrom .further (inner :: outer) rest
  | parts level, t => ∀ outer rest,
    skipFrom level.part (level :: outer) (t ++ level.closing :: rest) = skipFrom .further outer rest

theorem stops_closing (level : Level) (cs : List Char) : Stops (level.closing :: cs) := by
  rintro c hc
  obtain rfl := Option.some.inj hc
  cases level with
  | list => exact Or.inr (Or.inl rfl)
  | object => exact Or.inr (Or.inr (Or.inl rfl))

theorem stops_comma (cs : List Char) : Stops (',' :: cs) := by
  rintro c hc
  exact Or.inl (Option.some.inj hc).symm

/-- Whatever the grammar derives is passed over. -/
theorem skipFrom_spells {kind : Kind} {cs : List Char} (h : Spells kind cs) : kind.Skips cs := by
  induction h with
  | word hw => exact fun levels rest _ => skipFrom_word hw levels rest
  | number hnumber => exact fun levels rest hrest => skipFrom_number hnumber levels hrest
  | string hbody =>
    intro levels rest _
    rw [List.cons_append, List.append_assoc, List.singleton_append, skipFrom_string hbody]
  | @empty level b hb =>
    intro levels rest _
    rw [List.cons_append, List.append_assoc, List.singleton_append, skipFrom_opening,
      skipFrom_first_end hb]
  | @full level t ht ih =>
    intro levels rest _
    obtain ⟨a, c, t', ha, rfl, hspace, hc⟩ := ht.parts_begin
    have hparts := ih levels rest
    rw [List.append_assoc, List.cons_append] at hparts
    rw [List.cons_append, List.append_assoc, List.append_assoc, List.cons_append,
      List.singleton_append, skipFrom_opening, skipFrom_first_part ha _ hspace hc,
      ← skipFrom_part_blank ha, hparts]
  | @item a v b ha hv hb ih =>
    intro inner outer rest hrest
    show skipFrom .value (inner :: outer) _ = _
    rw [List.append_assoc, List.append_assoc, skipFrom_value_blank ha,
      ih (inner :: outer) (b ++ rest) (hrest.append_blank hb), skipFrom_further_blank hb]
  | @member a name b v ha hname hb hv ih =>
    intro inner outer rest hrest
    have hvalue : skipFrom .value (inner :: outer) (v ++ rest) =
        skipFrom .further (inner :: outer) rest := ih inner outer rest hrest
    show skipFrom .member (inner :: outer) _ = _
    rw [← hvalue, ← skipFrom_name ha hname hb]
    simp
  | @one level p hp ih =>
    intro outer rest
    rw [ih level outer _ (stops_closing level rest), skipFrom_further_end]
  | @more level p t hp ht ihp iht =>
    intro outer rest
    rw [List.append_assoc, List.cons_append, ihp level outer _ (stops_comma _),
      skipFrom_further_comma, iht]

/-- A value with blanks before it is passed over whole. -/
theorem skipValue_spells {a v : List Char} (ha : Blank a) (hv : Spells .value v)
    (hrest : Stops rest) : skipValue (a ++ (v ++ rest)) = .ok rest := by
  have hskips : (Kind.value).Skips v := skipFrom_spells hv
  unfold skipValue
  rw [skipFrom_value_blank ha, hskips [] rest hrest, skipFrom]

end CmsVariables.Json
