import CmsVariables.Proofs.Annotations.Scan
import CmsVariables.Proofs.Rewriting.Stability

/-!
# The quotes that rewriting takes away

An annotation has two single quotes, around its content, and its placeholder has none. So two quotes
go with each annotation that is replaced, and a text with some of its annotations replaced is not
the text it was.

* `count_quote_marked`: how many quotes are left when some annotations are replaced.
* `marked_eq_iff`: when the text is the same.
* `count_quote_rewrite`, `text_rewrite_eq_iff`: the same for rewriting, which replaces them all.
-/

namespace CmsVariables

namespace Annotations

/-! ## Replacing some annotations -/

/-- The expression in the place of an annotation. -/
def Occurrence.placeholder (a : Occurrence) : String :=
  CmsVariables.placeholder (canonicalName a.rawName)

/-- The expression in the place of a chosen annotation, and any other one as it is written. -/
def Occurrence.replacedIf (chosen : Occurrence → Bool) (a : Occurrence) : String :=
  if chosen a then a.placeholder else a.full

/-- The characters of finds, the first one in a text that starts at byte `offset`, with something
else in the place of each annotation, and what follows. -/
def marked (mark : Occurrence → String) (tail : List Char) :
    (offset : Nat) → List Found → List Char
  | _, [] => tail
  | offset, f :: fs =>
    f.gap ++ ((mark (.ofFound offset f)).toList ++ marked mark tail (offset + bytes f.text) fs)

section Marks

variable {tail : List Char} {offset : Nat} {fs : List Found}

theorem marked_congr {mark mark' : Occurrence → String}
    (h : ∀ a ∈ locate offset fs, mark a = mark' a) :
    marked mark tail offset fs = marked mark' tail offset fs := by
  induction fs generalizing offset with
  | nil => rfl
  | cons f fs ih =>
    rw [locate] at h
    obtain ⟨hf, hfs⟩ := List.forall_mem_cons.mp h
    rw [marked, marked, hf, ih hfs]

theorem marked_full (tail : List Char) (offset : Nat) (fs : List Found) :
    marked Occurrence.full tail offset fs = fs.flatMap Found.text ++ tail := by
  induction fs generalizing offset with
  | nil => rfl
  | cons f fs ih => simp [marked, ih, Found.text, Occurrence.ofFound]

theorem marked_placeholder (tail : List Char) (offset : Nat) (fs : List Found) :
    marked Occurrence.placeholder tail offset fs = rewrittenText fs tail := by
  induction fs generalizing offset with
  | nil => rfl
  | cons f fs ih =>
    rw [marked, ih, rewrittenText_cons]
    rfl

theorem Form.WellFormed.count_quote {f : Form} (hf : f.WellFormed) : f.text.count '\'' = 2 := by
  have hnone {cs : List Char} {has : Char → Bool} (hcs : ∀ c ∈ cs, has c = true)
      (hquote : has '\'' = false) : cs.count '\'' = 0 := by
    refine List.count_eq_zero.mpr fun hmem => ?_
    have hhas := hcs _ hmem
    rw [hquote] at hhas
    cases hhas
  simp only [Form.text, List.count_append, List.count_cons_self, List.append_assoc,
    List.cons_append, hnone hf.opening_all (by decide), hnone hf.blank_all (by decide),
    hnone hf.tags_all (by decide), hnone hf.name_all (by decide), hnone hf.middle_all (by decide),
    hnone hf.content_all (by decide), hnone hf.closing_all (by decide)]

theorem count_quote_replacedIf {f : Found} (hf : f.form.WellFormed)
    (chosen : Occurrence → Bool) (offset : Nat) :
    ((Occurrence.ofFound offset f).replacedIf chosen).toList.count '\'' =
      if chosen (.ofFound offset f) then 0 else 2 := by
  rw [Occurrence.replacedIf]
  split
  · exact List.count_eq_zero.mpr (Form.quote_notMem_placeholder hf)
  · rw [Occurrence.ofFound, String.toList_ofList, hf.count_quote]

theorem count_quote_marked (hfs : ∀ f ∈ fs, f.form.WellFormed) (chosen : Occurrence → Bool)
    (tail : List Char) (offset : Nat) :
    (marked (Occurrence.replacedIf chosen) tail offset fs).count '\'' +
        2 * ((locate offset fs).filter chosen).length =
      (fs.flatMap Found.text ++ tail).count '\'' := by
  induction fs generalizing offset with
  | nil => simp [marked, locate]
  | cons f fs ih =>
    obtain ⟨hf, hfs⟩ := List.forall_mem_cons.mp hfs
    have hrest := ih hfs (offset + bytes f.text)
    have htext : f.text.count '\'' = f.gap.count '\'' + 2 := by
      rw [Found.text, List.count_append, hf.count_quote]
    rw [List.count_append] at hrest
    simp only [marked, locate, List.flatMap_cons, List.count_append, count_quote_replacedIf hf,
      htext]
    by_cases hchosen : chosen (.ofFound offset f) = true
    · rw [if_pos hchosen, List.filter_cons_of_pos hchosen, List.length_cons]
      omega
    · rw [if_neg hchosen, List.filter_cons_of_neg hchosen]
      omega

theorem marked_eq_iff (hfs : ∀ f ∈ fs, f.form.WellFormed) (chosen : Occurrence → Bool)
    (tail : List Char) (offset : Nat) :
    marked (Occurrence.replacedIf chosen) tail offset fs = fs.flatMap Found.text ++ tail ↔
      (locate offset fs).filter chosen = [] := by
  constructor
  · intro h
    have hcount := count_quote_marked hfs chosen tail offset
    rw [h] at hcount
    exact List.length_eq_zero_iff.mp (by omega)
  · intro h
    rw [← marked_full tail offset]
    exact marked_congr fun a ha => if_neg (List.filter_eq_nil_iff.mp h a ha)

end Marks

end Annotations

open Annotations

/-! ## Replacing all annotations -/

theorem count_eq_length_dissect (source : String) :
    (rewrite source).count = (dissect source.toList).1.length := by
  rw [rewrite]
  split
  · rename_i h
    rw [h]
    rfl
  · rename_i h
    rw [h]

theorem count_rewrite (text : String) : (rewrite text).count = (find text).length := by
  rw [find, length_locate, count_eq_length_dissect]

/-- Two quotes go with each annotation. -/
theorem count_quote_rewrite (source : String) :
    (rewrite source).text.toList.count '\'' + 2 * (rewrite source).count =
      source.toList.count '\'' := by
  have hforms : ∀ f ∈ (dissect source.toList).1, f.form.WellFormed := fun _ =>
    wellFormed_of_mem_dissect
  have hcount := count_quote_marked hforms (fun _ => true) (dissect source.toList).2 0
  rw [List.filter_eq_self.mpr fun _ _ => rfl, length_locate, text_dissect] at hcount
  rw [toList_text_rewrite, count_eq_length_dissect, ← hcount, ← marked_placeholder _ 0]
  rfl

theorem text_rewrite_eq_iff {source : String} :
    (rewrite source).text = source ↔ (rewrite source).count = 0 := by
  constructor
  · intro h
    have hcount := count_quote_rewrite source
    rw [h] at hcount
    omega
  · intro h
    rw [rewrite_of_count_eq_zero h]

end CmsVariables
