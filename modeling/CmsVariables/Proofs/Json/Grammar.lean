import CmsVariables.Json.Value
import Mathlib.Tactic.IntervalCases

/-!
# The grammar of JSON texts

What a JSON text is, told without a reader. Blanks may stand around every part. A string may be
spelled in many ways: a character stands for itself, or for it stands an escape of one letter or of
four hexadecimal digits, of which those outside the first plane take two. Strings that are passed over
need not spell anything, so the two halves of a pair may stand alone there.

* `Characters`, `Passed`: what stands between the quotes of a string.
* `Spells`: values of any kind and any depth, with their parts.
* `Separated`, `Enclosed`: lists of parts that mean something.
-/

namespace CmsVariables.Json

/-! ## Blanks -/

/-- Blanks only. -/
def Blank (cs : List Char) : Prop := ∀ c ∈ cs, c = ' ' ∨ c = '\t' ∨ c = '\n' ∨ c = '\r'

instance : DecidablePred Blank := fun cs => cs.decidableBAll _

theorem blank_nil : Blank [] := List.forall_mem_nil _

/-! ## Strings -/

/-- The letters of escapes, and what they stand for. -/
def escapes : List (Char × Char) :=
  [('"', '"'), ('\\', '\\'), ('/', '/'), ('b', '\x08'), ('f', '\x0c'), ('n', '\n'), ('r', '\r'),
    ('t', '\t')]

/-- A hexadecimal digit, small or capital, and its value. -/
def HexDigit (c : Char) (n : ℕ) : Prop :=
  n < 16 ∧ (c = Nat.digitChar n ∨ c = (Nat.digitChar n).toUpper)

instance (c : Char) (n : ℕ) : Decidable (HexDigit c n) := inferInstanceAs (Decidable (_ ∧ _))

/-- Four hexadecimal digits and the number that they write. -/
inductive HexUnit : List Char → ℕ → Prop where
  | digits {a b c d : Char} {i j k l : ℕ} (ha : HexDigit a i) (hb : HexDigit b j) (hc : HexDigit c k)
      (hd : HexDigit d l) : HexUnit [a, b, c, d] (((i * 16 + j) * 16 + k) * 16 + l)

/-- The character stands for itself between quotes. -/
def IsPlain (c : Char) : Prop := c ≠ '"' ∧ c ≠ '\\' ∧ 0x20 ≤ c.toNat

instance : DecidablePred IsPlain := fun _ => inferInstanceAs (Decidable (_ ∧ _ ∧ _))

/-- A text between quotes without escapes. -/
def Unescaped (cs : List Char) : Prop := ∀ c ∈ cs, IsPlain c

instance : DecidablePred Unescaped := fun cs => cs.decidableBAll _

/-- A text between quotes and the characters that it spells. -/
inductive Characters : List Char → List Char → Prop where
  | nil : Characters [] []
  | plain {c : Char} {body cs : List Char} (hc : IsPlain c) (h : Characters body cs) :
      Characters (c :: body) (c :: cs)
  | letter {e c : Char} {body cs : List Char} (he : (e, c) ∈ escapes) (h : Characters body cs) :
      Characters ('\\' :: e :: body) (c :: cs)
  | unit {c : Char} {us body cs : List Char} (hu : HexUnit us c.toNat) (h : Characters body cs) :
      Characters ('\\' :: 'u' :: (us ++ body)) (c :: cs)
  | pair {c : Char} {high low : ℕ} {us vs body cs : List Char} (hu : HexUnit us high)
      (hv : HexUnit vs low) (hhigh : 0xD800 ≤ high ∧ high < 0xDC00)
      (hlow : 0xDC00 ≤ low ∧ low < 0xE000)
      (hc : c.toNat = 0x10000 + (high - 0xD800) * 0x400 + (low - 0xDC00)) (h : Characters body cs) :
      Characters ('\\' :: 'u' :: (us ++ '\\' :: 'u' :: (vs ++ body))) (c :: cs)

/-- Without escapes a text spells itself. -/
theorem Unescaped.characters {cs : List Char} (h : Unescaped cs) : Characters cs cs := by
  induction cs with
  | nil => exact .nil
  | cons c cs ih =>
    obtain ⟨hc, hcs⟩ := List.forall_mem_cons.mp h
    exact .plain hc (ih hcs)

/-- A text between quotes, whether or not it spells characters. -/
inductive Passed : List Char → Prop where
  | nil : Passed []
  | plain {c : Char} {body : List Char} (hc : IsPlain c) (h : Passed body) : Passed (c :: body)
  | letter {e c : Char} {body : List Char} (he : (e, c) ∈ escapes) (h : Passed body) :
      Passed ('\\' :: e :: body)
  | unit {n : ℕ} {us body : List Char} (hu : HexUnit us n) (h : Passed body) :
      Passed ('\\' :: 'u' :: (us ++ body))

theorem Characters.passed {body cs : List Char} (h : Characters body cs) : Passed body := by
  induction h with
  | nil => exact .nil
  | plain hc _ ih => exact .plain hc ih
  | letter he _ ih => exact .letter he ih
  | unit hu _ ih => exact .unit hu ih
  | pair hu hv _ _ _ _ ih => exact .unit hu (.unit hv ih)

/-- A string in quotes and what it spells. -/
inductive StringText : List Char → String → Prop where
  | quoted {body : List Char} {s : String} (h : Characters body s.toList) :
      StringText ('"' :: (body ++ ['"'])) s

/-! ## Numbers -/

/-- Digits, at least one. -/
def Digits (ds : List Char) : Prop := ds ≠ [] ∧ ∀ d ∈ ds, d.isDigit = true

instance : DecidablePred Digits := fun ds => @instDecidableAnd _ _ inferInstance (ds.decidableBAll _)

/-- The digits before the point: no zero stands in front of others. -/
inductive Whole : List Char → Prop where
  | zero : Whole ['0']
  | digits {c : Char} {ds : List Char} (hc : c ≠ '0') (h : Digits (c :: ds)) : Whole (c :: ds)

inductive Fraction : List Char → Prop where
  | none : Fraction []
  | digits {ds : List Char} (h : Digits ds) : Fraction ('.' :: ds)

inductive Exponent : List Char → Prop where
  | none : Exponent []
  | digits {mark : Char} {sign ds : List Char} (hmark : mark = 'e' ∨ mark = 'E')
      (hsign : sign = [] ∨ sign = ['+'] ∨ sign = ['-']) (h : Digits ds) :
      Exponent (mark :: (sign ++ ds))

/-- A number of any size. -/
inductive NumberText : List Char → Prop where
  | parts {sign whole fraction exponent : List Char} (hsign : sign = [] ∨ sign = ['-'])
      (hwhole : Whole whole) (hfraction : Fraction fraction) (hexponent : Exponent exponent) :
      NumberText (sign ++ (whole ++ (fraction ++ exponent)))

/-! ## Values -/

/-- The bracket that begins a list or an object. -/
def Level.opening : Level → Char
  | list => '['
  | object => '{'

/-- What a text is. -/
inductive Kind where
  | value
  /-- One part of a list or an object, with blanks around it. -/
  | part (level : Level)
  /-- All parts of a list or an object that is not empty, with a comma between each two. -/
  | parts (level : Level)

/-- The texts of each kind. -/
inductive Spells : Kind → List Char → Prop where
  | word {w : String} (h : w ∈ ["null", "true", "false"]) : Spells .value w.toList
  | number {v : List Char} (h : NumberText v) : Spells .value v
  | string {body : List Char} (h : Passed body) : Spells .value ('"' :: (body ++ ['"']))
  | empty {level : Level} {b : List Char} (h : Blank b) :
      Spells .value (level.opening :: (b ++ [level.closing]))
  | full {level : Level} {t : List Char} (h : Spells (.parts level) t) :
      Spells .value (level.opening :: (t ++ [level.closing]))
  | item {a v b : List Char} (ha : Blank a) (hv : Spells .value v) (hb : Blank b) :
      Spells (.part .list) (a ++ (v ++ b))
  | member {a name b v : List Char} (ha : Blank a) (hname : Passed name) (hb : Blank b)
      (hv : Spells (.part .list) v) :
      Spells (.part .object) (a ++ '"' :: (name ++ '"' :: (b ++ ':' :: v)))
  | one {level : Level} {p : List Char} (h : Spells (.part level) p) : Spells (.parts level) p
  | more {level : Level} {p t : List Char} (h : Spells (.part level) p)
      (hrest : Spells (.parts level) t) : Spells (.parts level) (p ++ ',' :: t)

/-! ## Parts that mean something -/

section Parts

variable {α : Type} (P : List Char → α → Prop)

/-- Parts with a comma between each two, and what they mean. -/
inductive Separated : List Char → List α → Prop where
  | one {p : List Char} {x : α} (h : P p x) : Separated p [x]
  | more {p t : List Char} {x : α} {xs : List α} (h : P p x) (hrest : Separated t xs) :
      Separated (p ++ ',' :: t) (x :: xs)

/-- Such parts between brackets, or blanks only. -/
inductive Enclosed (level : Level) : List Char → List α → Prop where
  | empty {b : List Char} (h : Blank b) : Enclosed level (level.opening :: (b ++ [level.closing])) []
  | full {t : List Char} {xs : List α} (h : Separated P t xs) :
      Enclosed level (level.opening :: (t ++ [level.closing])) xs

/-- A part with blanks around it. -/
inductive Padded : List Char → α → Prop where
  | blanks {a v b : List Char} {x : α} (ha : Blank a) (hv : P v x) (hb : Blank b) :
      Padded (a ++ (v ++ b)) x

end Parts

/-- A member of an object, with blanks around all parts: its name and the text of its value. -/
inductive MemberText : List Char → String × List Char → Prop where
  | named {a name b c v d : List Char} {s : String} (ha : Blank a) (hname : StringText name s)
      (hb : Blank b) (hc : Blank c) (hv : Spells .value v) (hd : Blank d) :
      MemberText (a ++ (name ++ (b ++ ':' :: (c ++ (v ++ d))))) (s, v)

/-! ## Parts of values -/

theorem StringText.spells {v : List Char} {s : String} (h : StringText v s) : Spells .value v := by
  cases h with
  | quoted hbody => exact .string hbody.passed

theorem Padded.spells {α : Type} {P : List Char → α → Prop} (hP : ∀ v x, P v x → Spells .value v)
    {p : List Char} {x : α} (h : Padded P p x) : Spells (.part .list) p := by
  cases h with
  | blanks ha hv hb => exact .item ha (hP _ _ hv) hb

theorem Separated.spells {α : Type} {P : List Char → α → Prop} {level : Level}
    (hP : ∀ p x, P p x → Spells (.part level) p) {t : List Char} {xs : List α}
    (h : Separated P t xs) : Spells (.parts level) t := by
  induction h with
  | one hp => exact .one (hP _ _ hp)
  | more hp _ ih => exact .more (hP _ _ hp) ih

theorem Separated.map {α β : Type} {P : List Char → β → Prop} {f : α → β} {t : List Char}
    {xs : List α} (h : Separated (fun p x => P p (f x)) t xs) : Separated P t (xs.map f) := by
  induction h with
  | one hp => exact .one hp
  | more hp _ ih => exact .more hp ih

/-- Parts that spell something between brackets are a value. -/
theorem Enclosed.spells {α : Type} {P : List Char → α → Prop} {level : Level}
    (hP : ∀ p x, P p x → Spells (.part level) p) {v : List Char} {xs : List α}
    (h : Enclosed P level v xs) : Spells .value v := by
  cases h with
  | empty hb => exact .empty hb
  | full ht => exact .full (ht.spells hP)

/-! ## Whole texts -/

/-- What stands between the brackets of a text that is enclosed. -/
theorem Padded.exists_inner {α : Type} {P : List Char → α → Prop} {level : Level} {cs : List Char}
    {xs : List α} (h : Padded (Enclosed P level) cs xs) :
    ∃ a t b, Blank a ∧ Blank b ∧ cs = a ++ level.opening :: (t ++ level.closing :: b) ∧
      (Blank t ∧ xs = [] ∨ Separated P t xs) := by
  cases h with
  | @blanks a v b _ ha hv hb =>
    cases hv with
    | @empty t ht => exact ⟨a, t, b, ha, hb, by simp, .inl ⟨ht, rfl⟩⟩
    | @full t _ ht => exact ⟨a, t, b, ha, hb, by simp, .inr ht⟩

end CmsVariables.Json
