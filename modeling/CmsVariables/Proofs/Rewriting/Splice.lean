import CmsVariables.Proofs.Rewriting.Quotes

/-!
# Rewriting splices placeholders in

The places of the annotations cut the bytes of a text into gaps and annotations. A text is rewritten
by keeping the gaps and putting a placeholder where each annotation stood. Places count bytes, and
the search reads characters; `splice_toUTF8` is where the two meet.

* `splice`: a text with something else in the place of each annotation.
* `rewrite_eq_splice`: what rewriting gives, and when that is the text itself.
-/

namespace CmsVariables

namespace Annotations

/-- The text from byte `start` on, with something else in the place of each annotation. -/
def splice (mark : Occurrence → String) (text : ByteArray) :
    (start : Nat) → List Occurrence → ByteArray
  | start, [] => text.extract start text.size
  | start, a :: as => text.extract start a.start ++ (mark a).toUTF8 ++ splice mark text a.stop as

theorem extract_toUTF8_ofList (before word after : List Char) :
    (String.ofList (before ++ (word ++ after))).toUTF8.extract (bytes before)
      (bytes before + bytes word) = (String.ofList word).toUTF8 := by
  refine StandsAt.extract_eq (standsAt_iff.mpr ⟨before, after, ?_, rfl⟩)
  rw [String.toList_ofList, String.toList_ofList]

/-- The induction is on the finds that are left; `done` is the text before them, whose bytes are
the place where the splice goes on. -/
theorem splice_locate {mark : Occurrence → String} {text : String} {tail : List Char}
    {fs : List Found} (done : List Char) (h : text.toList = done ++ (fs.flatMap Found.text ++ tail)) :
    splice mark text.toUTF8 (bytes done) (locate (bytes done) fs) =
      (String.ofList (marked mark tail (bytes done) fs)).toUTF8 := by
  have htext : text = String.ofList (done ++ (fs.flatMap Found.text ++ tail)) := by
    rw [← h, String.ofList_toList]
  induction fs generalizing done with
  | nil =>
    have hsize : text.toUTF8.size = bytes done + bytes tail := by
      rw [htext, ← bytes_append]
      rfl
    have htail := extract_toUTF8_ofList done tail []
    rw [locate, splice, marked, ← htail, ← hsize, htext, List.append_nil]
    rfl
  | cons f fs ih =>
    have hassoc : done ++ ((f :: fs).flatMap Found.text ++ tail) =
        done ++ f.text ++ (fs.flatMap Found.text ++ tail) := by
      rw [List.flatMap_cons, List.append_assoc, List.append_assoc]
    have hrest := ih _ (h.trans hassoc) (htext.trans (congrArg String.ofList hassoc))
    have hgap : text.toUTF8.extract (bytes done) (bytes done + bytes f.gap) =
        (String.ofList f.gap).toUTF8 := by
      have hcut := extract_toUTF8_ofList done f.gap
        (f.form.text ++ (fs.flatMap Found.text ++ tail))
      rwa [← List.append_assoc f.gap, ← Found.text, ← List.append_assoc done, ← hassoc,
        ← htext] at hcut
    rw [bytes_append] at hrest
    rw [locate, splice, marked, toUTF8_ofList_append, toUTF8_ofList_append, String.ofList_toList,
      ← hrest, ← hgap, ByteArray.append_assoc]
    rfl

/-- The spliced bytes are the encoding of the characters with the same replacements. -/
theorem splice_toUTF8 (mark : Occurrence → String) (text : String) :
    splice mark text.toUTF8 0 (find text) =
      (String.ofList (marked mark (dissect text.toList).2 0 (dissect text.toList).1)).toUTF8 :=
  splice_locate [] (text_dissect text.toList).symm

theorem splice_full (text : String) :
    splice Occurrence.full text.toUTF8 0 (find text) = text.toUTF8 := by
  rw [splice_toUTF8, marked_full, text_dissect, String.ofList_toList]

theorem splice_replacedIf_eq_iff (text : String) (chosen : Occurrence → Bool) :
    splice (Occurrence.replacedIf chosen) text.toUTF8 0 (find text) = text.toUTF8 ↔
      (find text).filter chosen = [] := by
  have hforms : ∀ f ∈ (dissect text.toList).1, f.form.WellFormed := fun _ =>
    wellFormed_of_mem_dissect
  have hmarked := marked_eq_iff hforms chosen (dissect text.toList).2 0
  rw [text_dissect] at hmarked
  rw [splice_toUTF8, find, ← hmarked, ← String.ofList_inj, String.ofList_toList]
  exact String.toByteArray_inj

end Annotations

open Annotations

theorem toUTF8_text_rewrite (source : String) :
    (rewrite source).text.toUTF8 =
      splice Occurrence.placeholder source.toUTF8 0 (find source) := by
  rw [splice_toUTF8, marked_placeholder, ← toList_text_rewrite, String.ofList_toList]

/-- The places of the annotations cut a source into gaps and annotations. Rewriting counts the
annotations, keeps the gaps and puts the placeholder of each annotation in its place. The source is
given back if and only if it has no annotation: it would not be the same with any of its annotations
replaced. -/
theorem rewrite_eq_splice (source : String) :
    splice Occurrence.full source.toUTF8 0 (find source) = source.toUTF8 ∧
      (rewrite source).count = (find source).length ∧
      (rewrite source).text.toUTF8 =
        splice (fun a => placeholder (canonicalName a.rawName)) source.toUTF8 0 (find source) ∧
      ((rewrite source).isSource = true ↔ (find source).length = 0) ∧
      ((rewrite source).text = source ↔ (find source).length = 0) ∧
      ∀ chosen : Occurrence → Bool,
        splice (fun a => if chosen a then placeholder (canonicalName a.rawName) else a.full)
            source.toUTF8 0 (find source) = source.toUTF8 ↔
          (find source).filter chosen = [] := by
  have hcount := count_rewrite source
  refine ⟨splice_full source, hcount, toUTF8_text_rewrite source, ?_, ?_,
    splice_replacedIf_eq_iff source⟩
  · rw [Rewritten.isSource, beq_iff_eq, hcount]
  · rw [text_rewrite_eq_iff, hcount]

end CmsVariables
