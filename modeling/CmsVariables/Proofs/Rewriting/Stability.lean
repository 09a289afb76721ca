import CmsVariables.Proofs.Annotations.Dissection
import CmsVariables.Proofs.Rewriting.Placeholder

/-!
# Rewriting twice

Rewriting takes away two quotes with each annotation. So an annotation that was left open before a
find can reach over the placeholder there, up to a quote that no longer closes anything else. A
source in which this happens is *bridged*; the rewritten text of any other source holds no
annotation.

* `word_in_gap_or_rest`: what a placeholder cannot cut lies in the gap before it or in the text
  after it.
* `content_over_placeholder`: an annotation that begins in a gap has the placeholder behind the gap
  in its default text.
* `not_bare_rewrittenText_iff`: a rewritten text holds an annotation if and only if its source is
  bridged.
* `rewrite_text_rewrite_iff`: rewriting a second time changes nothing if and only if the source is
  not bridged.
-/

namespace CmsVariables

namespace Annotations

/-! ## Annotations without their ends -/

namespace Form

/-- An annotation up to its first quote. -/
def stem (f : Form) : List Char :=
  f.opening ++ f.blank ++ f.tags ++ f.name ++ f.middle ++ ['\'']

theorem quote_mem_stem (f : Form) : '\'' ∈ f.stem :=
  List.mem_append_right _ (List.mem_singleton.mpr rfl)

/-- An annotation up to the end of its default text, without the quote there. -/
def unclosed (f : Form) : List Char := f.stem ++ f.content

theorem text_eq_unclosed (f : Form) : f.text = f.unclosed ++ '\'' :: f.closing := by
  simp [text, unclosed, stem]

/-- The same annotation with another default text and end. -/
def endingIn (f : Form) (content closing : List Char) : Form :=
  { f with content := content, closing := closing }

theorem WellFormed.endingIn {f : Form} (hf : f.WellFormed) {content : List Char} {d : Char}
    (hcontent : ∀ c ∈ content, isContentChar c = true) (hd : isDelimiter d = true) :
    (f.endingIn content [d]).WellFormed :=
  { hf with
    content_all := hcontent
    closing_ne := List.cons_ne_nil d []
    closing_all := fun _ hc => List.mem_singleton.mp hc ▸ hd }

theorem text_endingIn (f : Form) (content : List Char) (d : Char) :
    (f.endingIn content [d]).text = f.stem ++ content ++ ['\'', d] := by
  simp [text, Form.endingIn, stem]

theorem ne_doubleQuote_of_isDelimiter {c : Char} (h : isDelimiter c = true) : c ≠ '"' := by
  rintro rfl
  revert h
  decide

theorem doubleQuote_notMem_close {cs : List Char} (hcs : ∀ c ∈ cs, isDelimiter c = true) :
    '"' ∉ '\'' :: cs := by
  have hnone : '"' ∉ cs := fun h => ne_doubleQuote_of_isDelimiter (hcs _ h) rfl
  simp [hnone]

theorem doubleQuote_notMem_stem {f : Form} (hf : f.WellFormed) : '"' ∉ f.stem := by
  have hopening : '"' ∉ f.opening := fun h => ne_doubleQuote_of_isDelimiter (hf.opening_all _ h) rfl
  have hblank : '"' ∉ f.blank := fun h => absurd (hf.blank_all _ h) (by decide)
  have htags : '"' ∉ f.tags := fun h => absurd (hf.tags_all _ h) (by decide)
  have hname : '"' ∉ f.name := fun h => absurd (hf.name_all _ h) (by decide)
  have hmiddle : '"' ∉ f.middle := fun h => ne_doubleQuote_of_isDelimiter (hf.middle_all _ h) rfl
  simp [stem, hopening, hblank, htags, hname, hmiddle]

end Form

/-! ## Cutting a text at a mark -/

section Marks

variable {mark : Char} {before word more xs ys : List Char}

/-- A stretch of text without the mark lies before the mark or after it. -/
theorem before_or_after_mark (h : before ++ (word ++ more) = xs ++ mark :: ys)
    (hword : mark ∉ word) :
    (∃ left, xs = before ++ (word ++ left) ∧ more = left ++ mark :: ys) ∨
      ∃ right, before = xs ++ mark :: right ∧ ys = right ++ (word ++ more) := by
  rcases List.append_eq_append_iff.mp h with ⟨left, hxs, hrest⟩ | ⟨right, hbefore, hys⟩
  · rcases List.append_eq_append_iff.mp hrest with ⟨more', hleft, hmore⟩ | ⟨cut, hcut, hmark⟩
    · exact Or.inl ⟨more', by rw [hxs, hleft], hmore⟩
    · cases cut with
      | nil =>
        refine Or.inl ⟨[], ?_, hmark.symm⟩
        rw [hxs, hcut, List.append_nil, List.append_nil]
      | cons c cut =>
        obtain ⟨rfl, -⟩ := List.cons_eq_cons.mp hmark
        exact absurd (hcut ▸ List.mem_append_right left List.mem_cons_self) hword
  · cases right with
    | nil =>
      cases word with
      | nil =>
        refine Or.inl ⟨[], ?_, hys.symm⟩
        rw [hbefore, List.append_nil, List.append_nil, List.append_nil]
      | cons c word =>
        obtain ⟨rfl, -⟩ := List.cons_eq_cons.mp hys
        exact absurd List.mem_cons_self hword
    | cons c right =>
      obtain ⟨rfl, hright⟩ := List.cons_eq_cons.mp hys
      exact Or.inr ⟨right, hbefore, hright⟩

end Marks

/-! ## Bridged sources -/

/-- The text ends in an annotation whose default text goes on. -/
def Opens (cs : List Char) : Prop := ∃ before, ∃ f : Form,
  f.WellFormed ∧ cs = before ++ f.unclosed

/-- A default text that goes on in this text ends in it, and an annotation with it. -/
def Closes (cs : List Char) : Prop :=
  ∃ content d after, cs = content ++ '\'' :: d :: after ∧
    (∀ c ∈ content, isContentChar c = true) ∧ isDelimiter d = true

/-- A default text that goes on after a placeholder ends in some gap after it, and all that lies
before that gap can belong to it. -/
def ClosesAlong (tail : List Char) : List Found → Prop
  | [] => Closes tail
  | f :: fs => Closes f.gap ∨
      (∀ c ∈ f.gap, isContentChar c = true) ∧ '\n' ∉ f.form.name ∧ ClosesAlong tail fs

/-- Some gap ends in an annotation that is closed only after the placeholder behind the gap. -/
def BridgedAlong (tail : List Char) : List Found → Prop
  | [] => False
  | f :: fs =>
    (Opens f.gap ∧ '\n' ∉ f.form.name ∧ ClosesAlong tail fs) ∨ BridgedAlong tail fs

/-- Gaps that belong together once the annotations between them are replaced. -/
def Bridged (source : String) : Prop :=
  BridgedAlong (dissect source.toList).2 (dissect source.toList).1

/-- The text of finds after rewriting, and what follows. -/
def rewrittenText (fs : List Found) (tail : List Char) : List Char :=
  fs.flatMap Found.rewritten ++ tail

theorem rewrittenText_cons (f : Found) (fs : List Found) (tail : List Char) :
    rewrittenText (f :: fs) tail = f.gap ++ (f.form.placeholder ++ rewrittenText fs tail) := by
  simp [rewrittenText, Found.rewritten]

/-- A stretch of text with a single quote and without a double quote lies in the gap before a
placeholder or in the text after it. -/
theorem word_in_gap_or_rest {f : Form} (hf : f.WellFormed) {gap rest before word more : List Char}
    (hdouble : '"' ∉ word) (hquote : '\'' ∈ word)
    (h : before ++ (word ++ more) = gap ++ (f.placeholder ++ rest)) :
    (∃ left, gap = before ++ (word ++ left) ∧ more = left ++ (f.placeholder ++ rest)) ∨
      ∃ right, before = gap ++ (f.placeholder ++ right) ∧ rest = right ++ (word ++ more) := by
  have hplaceholder (cs : List Char) :
      f.placeholder ++ cs = '"' :: (f.expression ++ '"' :: cs) := by
    rw [f.placeholder_eq]
    simp
  rw [hplaceholder] at h
  rcases before_or_after_mark h hdouble with ⟨left, hgap, hmore⟩ | ⟨inside, hbefore, hinside⟩
  · exact Or.inl ⟨left, hgap, by rw [hmore, hplaceholder]⟩
  · rcases before_or_after_mark hinside.symm hdouble with
      ⟨left, hexpression, -⟩ | ⟨right, hcut, hrest⟩
    · refine absurd ?_ (Form.quote_notMem_expression hf)
      rw [hexpression]
      simp [hquote]
    · exact Or.inr ⟨right, by rw [hbefore, hcut, hplaceholder], hrest⟩

/-- What closes an annotation after a placeholder does not depend on how the text is dissected. -/
theorem closesAlong_iff {fs : List Found} {tail : List Char}
    (hfs : ∀ f ∈ fs, f.form.WellFormed) :
    ClosesAlong tail fs ↔ Closes (rewrittenText fs tail) := by
  induction fs with
  | nil => exact Iff.rfl
  | cons f fs ih =>
    obtain ⟨hf, hfs⟩ := List.forall_mem_cons.mp hfs
    rw [ClosesAlong, ih hfs, rewrittenText_cons]
    constructor
    · rintro (⟨content, d, after, hgap, hcontent, hd⟩ |
        ⟨hgap, hline, content, d, after, hrest, hcontent, hd⟩)
      · exact ⟨content, d, after ++ (f.form.placeholder ++ rewrittenText fs tail),
          by simp [hgap], hcontent, hd⟩
      · refine ⟨f.gap ++ (f.form.placeholder ++ content), d, after, by simp [hrest], ?_, hd⟩
        have hplaceholder := (Form.isContentChar_placeholder_iff hf).mpr hline
        exact List.forall_mem_append.mpr
          ⟨hgap, List.forall_mem_append.mpr ⟨hplaceholder, hcontent⟩⟩
    · rintro ⟨content, d, after, htext, hcontent, hd⟩
      have hdouble := Form.doubleQuote_notMem_close (List.forall_mem_singleton.mpr hd)
      rcases word_in_gap_or_rest hf hdouble List.mem_cons_self htext.symm with
        ⟨left, hgap, -⟩ | ⟨last, rfl, hrest⟩
      · exact Or.inl ⟨content, d, left, hgap, hcontent, hd⟩
      · obtain ⟨hgap, hmarked⟩ := List.forall_mem_append.mp hcontent
        obtain ⟨hplaceholder, hlast⟩ := List.forall_mem_append.mp hmarked
        exact Or.inr ⟨hgap, (Form.isContentChar_placeholder_iff hf).mp hplaceholder,
          last, d, after, hrest, hlast, hd⟩

/-- An annotation that begins in a gap without annotations has the placeholder behind the gap in its
default text. -/
theorem content_over_placeholder {f g : Form} (hf : f.WellFormed) (hg : g.WellFormed)
    {gap rest before left after : List Char} (hbare : Bare gap)
    (hgap : gap = before ++ (g.stem ++ left))
    (h : g.content ++ ('\'' :: g.closing ++ after) = left ++ (f.placeholder ++ rest)) :
    ∃ last, g.content = left ++ (f.placeholder ++ last) ∧
      rest = last ++ ('\'' :: g.closing ++ after) := by
  have hdouble := Form.doubleQuote_notMem_close hg.closing_all
  rcases word_in_gap_or_rest hf hdouble List.mem_cons_self h with ⟨inside, hleft, -⟩ | hover
  · refine absurd ⟨before, inside, ?_⟩ (hbare _ ⟨g, hg, rfl⟩)
    rw [g.text_eq_unclosed, Form.unclosed, hgap, hleft]
    simp
  · exact hover

/-- Such an annotation is opened in the gap and closed after the placeholder. -/
theorem reaches_over_placeholder {f g : Form} (hf : f.WellFormed) (hg : g.WellFormed)
    {gap rest before left after : List Char} (hbare : Bare gap)
    (hgap : gap = before ++ (g.stem ++ left))
    (h : g.content ++ ('\'' :: g.closing ++ after) = left ++ (f.placeholder ++ rest)) :
    Opens gap ∧ '\n' ∉ f.name ∧ Closes rest := by
  obtain ⟨last, hcontent, hrest⟩ := content_over_placeholder hf hg hbare hgap h
  obtain ⟨d, closing, hclosing⟩ := List.exists_cons_of_ne_nil hg.closing_ne
  have hd : isDelimiter d = true := hg.closing_all d (hclosing ▸ List.mem_cons_self)
  have hall := hg.content_all
  rw [hcontent] at hall
  obtain ⟨hleft, hall⟩ := List.forall_mem_append.mp hall
  obtain ⟨hplaceholder, hlast⟩ := List.forall_mem_append.mp hall
  refine ⟨⟨before, g.endingIn left [d], hg.endingIn hleft hd, hgap⟩, ?_, ?_⟩
  · exact (Form.isContentChar_placeholder_iff hf).mp hplaceholder
  · exact ⟨last, d, closing ++ after, by rw [hrest, hclosing]; rfl, hlast, hd⟩

/-- A rewritten text holds an annotation if and only if gaps of the source are bridged. -/
theorem not_bare_rewrittenText_iff {fs : List Found} {tail : List Char}
    (hfs : ∀ f ∈ fs, Bare f.gap ∧ f.form.WellFormed) (htail : Bare tail) :
    ¬Bare (rewrittenText fs tail) ↔ BridgedAlong tail fs := by
  induction fs with
  | nil => exact iff_of_false (not_not_intro htail) id
  | cons f fs ih =>
    obtain ⟨⟨hgap, hf⟩, hfs⟩ := List.forall_mem_cons.mp hfs
    have hforms : ∀ g ∈ fs, g.form.WellFormed := fun g hg => (hfs g hg).2
    rw [BridgedAlong, ← ih hfs, closesAlong_iff hforms, rewrittenText_cons]
    constructor
    · intro hbare
      simp only [Bare, not_forall, not_not] at hbare
      obtain ⟨word, ⟨g, hg, rfl⟩, before, after, htext⟩ := hbare
      rw [g.text_eq_unclosed, Form.unclosed, List.append_assoc, List.append_assoc,
        List.append_assoc] at htext
      -- up to its first quote the annotation holds no double quote, so no placeholder cuts it
      rcases word_in_gap_or_rest hf (Form.doubleQuote_notMem_stem hg) g.quote_mem_stem htext with
        ⟨left, hleft, hmore⟩ | ⟨right, -, hrest⟩
      · exact Or.inl (reaches_over_placeholder hf hg hgap hleft hmore)
      · refine Or.inr fun hbare => hbare g.text ⟨g, hg, rfl⟩ ⟨right, after, ?_⟩
        rw [hrest, g.text_eq_unclosed, Form.unclosed]
        simp
    · rintro (⟨⟨before, g, hg, hopens⟩, hline, content, d, after, hrest, hcontent, hd⟩ | hrest)
      · have hplaceholder := (Form.isContentChar_placeholder_iff hf).mpr hline
        have hall : ∀ c ∈ g.content ++ (f.form.placeholder ++ content), isContentChar c = true :=
          List.forall_mem_append.mpr
            ⟨hg.content_all, List.forall_mem_append.mpr ⟨hplaceholder, hcontent⟩⟩
        have hword := hg.endingIn hall hd
        refine fun hbare => hbare _ ⟨_, hword, rfl⟩ ⟨before, after, ?_⟩
        rw [Form.text_endingIn, hopens, hrest, Form.unclosed]
        simp
      · refine fun hbare => hrest fun word hword hinfix => hbare word hword ?_
        exact hinfix.trans ⟨f.gap ++ f.form.placeholder, [], by simp⟩

end Annotations

open Annotations

/-! ## The second time -/

theorem rewrite_eq_source_iff {source : String} :
    rewrite source = ⟨source, 0⟩ ↔ Bare source.toList := by
  rw [← next?_eq_none_iff, rewrite]
  cases hnext : next? source.toList with
  | none => simp [dissect_of_none hnext]
  | some found =>
    obtain ⟨f, rest⟩ := found
    simp [dissect_of_some hnext]

theorem rewrite_of_count_eq_zero {source : String} (h : (rewrite source).count = 0) :
    rewrite source = ⟨source, 0⟩ := by
  rw [rewrite] at h ⊢
  cases hdissect : dissect source.toList with
  | mk fs tail =>
    cases fs with
    | nil => rfl
    | cons f fs =>
      rw [hdissect] at h
      cases h

theorem toList_text_rewrite (source : String) :
    (rewrite source).text.toList =
      rewrittenText (dissect source.toList).1 (dissect source.toList).2 := by
  rw [rewrite]
  split
  · rename_i tail h
    rw [h, (next?_eq_none_of_dissect h).2]
    rfl
  · rename_i fs tail hne h
    rw [h, String.toList_ofList]
    rfl

/-- A rewritten text holds annotations if and only if its source is bridged. -/
theorem bare_text_rewrite_iff {source : String} :
    Bare (rewrite source).text.toList ↔ ¬Bridged source := by
  have hdissect : dissect source.toList =
      ((dissect source.toList).1, (dissect source.toList).2) := rfl
  obtain ⟨hgaps, htail⟩ := bare_of_dissect hdissect
  rw [toList_text_rewrite, Bridged, ← not_bare_rewrittenText_iff hgaps htail, not_not]

/-- Rewriting a second time changes nothing, unless the source is bridged. -/
theorem rewrite_text_rewrite_iff {source : String} :
    rewrite (rewrite source).text = ⟨(rewrite source).text, 0⟩ ↔ ¬Bridged source := by
  rw [rewrite_eq_source_iff, bare_text_rewrite_iff]

theorem count_rewrite_rewrite_iff (source : String) :
    (rewrite (rewrite source).text).count = 0 ↔ ¬Bridged source := by
  rw [← rewrite_text_rewrite_iff]
  exact ⟨rewrite_of_count_eq_zero, congrArg Rewritten.count⟩

end CmsVariables
