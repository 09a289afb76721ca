import CmsVariables.Proofs.Annotations.Grammar
import CmsVariables.Proofs.Rewriting.Placeholder

/-!
# When two raw names name one variable

The name of a variable is a tag, an underscore and a text that can hold underscores itself. No tag
holds one, so the first underscore tells the tag from the text. Names of variables are then equal if
and only if both parts are, and the second part tells the raw name, up to letter case and hyphens if
the name has a tag, and up to nothing otherwise. The two kinds of names meet under the tag `std`.

* `Tagged`, `Untagged`: raw names with and without a tag, told from their text.
* `classify_eq_recognized_iff`, `classify_eq_unrecognized_iff`: these are the names that are
  recognized and the ones that are not.
* `canonicalName_eq_iff`: which raw names name one variable.
-/

namespace CmsVariables

open Annotations

/-! ## Tags -/

namespace TypeTag

theorem ofText?_text (tag : TypeTag) : ofText? tag.text = some tag := by
  cases tag <;> rfl

theorem text_injective : Function.Injective text := by
  intro s t h
  refine Option.some.inj ?_
  rw [← ofText?_text s, h, ofText?_text]

theorem ofText?_eq_some_iff {s : String} {tag : TypeTag} : ofText? s = some tag ↔ tag.text = s := by
  constructor
  · intro h
    have hfound := List.find?_some h
    exact beq_iff_eq.mp hfound
  · rintro rfl
    exact ofText?_text tag

theorem underscore_notMem_text (tag : TypeTag) : '_' ∉ tag.text.toList := by
  cases tag <;> decide

end TypeTag

/-! ## Raw names with and without a tag -/

namespace FieldName

variable {tag : TypeTag} {base raw : String}

/-- The raw name is the tag alone or goes on with an underscore after it, and `base` is the normal
form of the text after that. -/
def Tagged (tag : TypeTag) (base raw : String) : Prop :=
  ∃ rest, (raw = tag.text ∧ rest = "" ∨ raw = tag.text ++ "_" ++ rest) ∧ base = normalBase rest

/-- The raw name is written with no tag. -/
def Untagged (raw : String) : Prop := ∀ tag base, ¬Tagged tag base raw

theorem splitTag_of_notMem {front : String} (h : '_' ∉ front.toList) :
    splitTag front = (front, "") := by
  have hrun : ∀ c ∈ front.toList, (c != '_') = true := fun c hc =>
    bne_iff_ne.mpr fun heq => h (heq ▸ hc)
  rw [splitTag, List.takeWhile_eq_self_iff.mpr hrun, List.dropWhile_eq_nil_iff.mpr hrun,
    String.ofList_toList]
  rfl

theorem splitTag_append {front : String} (h : '_' ∉ front.toList) (rest : String) :
    splitTag (front ++ "_" ++ rest) = (front, rest) := by
  have hrun : ∀ c ∈ front.toList, (c != '_') = true := fun c hc =>
    bne_iff_ne.mpr fun heq => h (heq ▸ hc)
  have hstop : ∀ c ∈ ('_' :: rest.toList).head?, (c != '_') = false := by
    rintro _ ⟨⟩
    rfl
  have hchars : (front ++ "_" ++ rest).toList = front.toList ++ '_' :: rest.toList := by simp
  rw [splitTag, hchars, takeWhile_run hrun hstop, dropWhile_run hrun hstop, List.drop_one,
    List.tail_cons, String.ofList_toList, String.ofList_toList]

/-- The first underscore tells a tag from what follows. -/
theorem text_append_eq_iff {tag' : TypeTag} {base' : String} :
    tag.text ++ "_" ++ base = tag'.text ++ "_" ++ base' ↔ tag = tag' ∧ base = base' := by
  constructor
  · intro h
    have hcut := congrArg splitTag h
    rw [splitTag_append tag.underscore_notMem_text, splitTag_append tag'.underscore_notMem_text]
      at hcut
    obtain ⟨htag, hbase⟩ := Prod.mk.inj hcut
    exact ⟨TypeTag.text_injective htag, hbase⟩
  · rintro ⟨rfl, rfl⟩
    rfl

theorem splitTag_of_tagged {rest : String}
    (h : raw = tag.text ∧ rest = "" ∨ raw = tag.text ++ "_" ++ rest) :
    splitTag raw = (tag.text, rest) := by
  rcases h with ⟨rfl, rfl⟩ | rfl
  · exact splitTag_of_notMem tag.underscore_notMem_text
  · exact splitTag_append tag.underscore_notMem_text rest

/-- What stands around the first underscore makes up the name. -/
theorem eq_of_splitTag {front rest : String} (h : splitTag raw = (front, rest)) :
    raw = front ∧ rest = "" ∨ raw = front ++ "_" ++ rest := by
  have hcut := splitTag_eq raw.toList
  rw [String.ofList_toList, h] at hcut
  rcases hcut with ⟨after, hraw, hrest⟩ | ⟨hraw, hrest⟩
  · refine Or.inr (String.toList_inj.mp ?_)
    rw [hraw, show rest = String.ofList after from hrest]
    simp
  · exact Or.inl ⟨String.toList_inj.mp hraw, hrest⟩

theorem classify_eq_recognized_iff : classify raw = recognized tag base ↔ Tagged tag base raw := by
  constructor
  · intro h
    rw [classify] at h
    split at h
    · rename_i t ht
      cases h
      refine ⟨(splitTag raw).2, eq_of_splitTag ?_, rfl⟩
      rw [TypeTag.ofText?_eq_some_iff.mp ht]
    · cases h
  · rintro ⟨rest, hraw, rfl⟩
    rw [classify, splitTag_of_tagged hraw, TypeTag.ofText?_text]

theorem classify_of_untagged (h : Untagged raw) : classify raw = unrecognized raw := by
  cases hclass : classify raw with
  | recognized tag base => exact absurd (classify_eq_recognized_iff.mp hclass) (h tag base)
  | unrecognized token =>
    rw [classify] at hclass
    split at hclass
    · cases hclass
    · exact hclass.symm

theorem classify_eq_unrecognized_iff {token : String} :
    classify raw = unrecognized token ↔ token = raw ∧ Untagged raw := by
  constructor
  · intro h
    have huntagged : Untagged raw := fun tag base htagged => by
      rw [classify_eq_recognized_iff.mpr htagged] at h
      cases h
    rw [classify_of_untagged huntagged] at h
    cases h
    exact ⟨rfl, huntagged⟩
  · rintro ⟨rfl, h⟩
    exact classify_of_untagged h

theorem tagged_or_untagged (raw : String) : (∃ tag base, Tagged tag base raw) ∨ Untagged raw := by
  cases hclass : classify raw with
  | recognized tag base => exact Or.inl ⟨tag, base, classify_eq_recognized_iff.mp hclass⟩
  | unrecognized token => exact Or.inr (classify_eq_unrecognized_iff.mp hclass).2

theorem canonicalName_of_tagged (h : Tagged tag base raw) :
    canonicalName raw = tag.text ++ "_" ++ base := by
  rw [canonicalName, classify_eq_recognized_iff.mpr h, canonical]

theorem canonicalName_of_untagged (h : Untagged raw) :
    canonicalName raw = TypeTag.std.text ++ "_" ++ raw := by
  rw [canonicalName, classify_of_untagged h, canonical]

/-- How a raw name comes by the name of a variable. -/
theorem canonicalName_eq_append_iff :
    canonicalName raw = tag.text ++ "_" ++ base ↔
      Tagged tag base raw ∨ Untagged raw ∧ tag = .std ∧ base = raw := by
  constructor
  · intro h
    rcases tagged_or_untagged raw with ⟨tag', base', hraw⟩ | hraw
    · rw [canonicalName_of_tagged hraw, text_append_eq_iff] at h
      obtain ⟨rfl, rfl⟩ := h
      exact Or.inl hraw
    · rw [canonicalName_of_untagged hraw, text_append_eq_iff] at h
      exact Or.inr ⟨hraw, h.1.symm, h.2.symm⟩
  · rintro (hraw | ⟨hraw, rfl, rfl⟩)
    · exact canonicalName_of_tagged hraw
    · exact canonicalName_of_untagged hraw

end FieldName

open FieldName

/-! ## Names of one variable -/

/-- Two raw names name one variable if and only if they have the same tag and the same text after it,
up to letter case and hyphens; or neither has a tag and they are equal; or one has the tag `std` and
the normal form of its text is the other one, which has no tag. -/
theorem canonicalName_eq_iff (a b : String) :
    canonicalName a = canonicalName b ↔
      (∃ tag base, Tagged tag base a ∧ Tagged tag base b) ∨
      (Untagged a ∧ Untagged b ∧ a = b) ∨
      (Tagged .std b a ∧ Untagged b) ∨
      (Tagged .std a b ∧ Untagged a) := by
  constructor
  · intro h
    rcases tagged_or_untagged b with ⟨tag, base, hb⟩ | hb
    · rw [canonicalName_of_tagged hb] at h
      rcases canonicalName_eq_append_iff.mp h with ha | ⟨ha, rfl, rfl⟩
      · exact Or.inl ⟨tag, base, ha, hb⟩
      · exact Or.inr (Or.inr (Or.inr ⟨hb, ha⟩))
    · rw [canonicalName_of_untagged hb] at h
      rcases canonicalName_eq_append_iff.mp h with ha | ⟨ha, -, rfl⟩
      · exact Or.inr (Or.inr (Or.inl ⟨ha, hb⟩))
      · exact Or.inr (Or.inl ⟨ha, hb, rfl⟩)
  · rintro (⟨tag, base, ha, hb⟩ | ⟨-, -, rfl⟩ | ⟨ha, hb⟩ | ⟨hb, ha⟩)
    · rw [canonicalName_of_tagged ha, canonicalName_of_tagged hb]
    · rfl
    · rw [canonicalName_of_tagged ha, canonicalName_of_untagged hb]
    · rw [canonicalName_of_untagged ha, canonicalName_of_tagged hb]

/-- The two kinds of names meet: the first name has the tag `std`, the second one has none. -/
example : canonicalName "std_Hero-Image" = canonicalName "hero_image" := by decide +kernel

end CmsVariables
