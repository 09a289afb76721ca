import CmsVariables.Proofs.Rewriting.Quotes
import Mathlib.Logic.Function.Iterate

/-!
# What can still be found after rewriting

The gaps of a source hold no annotation, and a placeholder has neither the quotes of an annotation nor
anything that its delimiters, tags or name are written with on both sides of it. So the only
annotations in a rewritten text are those whose default text goes over whole placeholders. Each time
that something is found two quotes go, and so rewriting again and again comes to an end.

* `insertions`: where the placeholders are in a rewritten text.
* `keepsWhole_rewrittenText`: how an annotation of a rewritten text lies to them.
* `exists_last_rewrite`: after how many times nothing is found.
* `remaining_annotations`: all of it for one source.
-/

namespace CmsVariables

namespace Annotations

/-! ## Where the placeholders are -/

/-- The placeholder of an annotation in a rewritten text, from byte `start` to byte `stop`. -/
structure Insertion where
  annotation : Occurrence
  start : Nat
  stop : Nat
deriving DecidableEq, Repr

/-- The placeholders of annotations. The source has been rewritten up to byte `start`, which is byte
`place` of the rewritten text. -/
def insertionsFrom : (place start : Nat) → List Occurrence → List Insertion
  | _, _, [] => []
  | place, start, a :: as =>
    let first := place + (a.start - start)
    let last := first + a.placeholder.utf8ByteSize
    ⟨a, first, last⟩ :: insertionsFrom last a.stop as

/-- The placeholders of a rewritten source. -/
def insertions (source : String) : List Insertion := insertionsFrom 0 0 (find source)

theorem map_annotation_insertionsFrom (place start : Nat) (as : List Occurrence) :
    (insertionsFrom place start as).map Insertion.annotation = as := by
  induction as generalizing place start with
  | nil => rfl
  | cons a as ih => rw [insertionsFrom, List.map_cons, ih]

theorem insertionsFrom_locate (place start : Nat) (f : Found) (fs : List Found) :
    insertionsFrom place start (locate start (f :: fs)) =
      ⟨.ofFound start f, place + bytes f.gap, place + bytes f.gap + bytes f.form.placeholder⟩ ::
        insertionsFrom (place + bytes f.gap + bytes f.form.placeholder) (start + bytes f.text)
          (locate (start + bytes f.text) fs) := by
  have hgap : (Occurrence.ofFound start f).start - start = bytes f.gap :=
    Nat.add_sub_cancel_left start _
  have hsize : (Occurrence.ofFound start f).placeholder.utf8ByteSize = bytes f.form.placeholder :=
    utf8ByteSize_eq_bytes _
  rw [locate, insertionsFrom, hgap, hsize]
  rfl

/-- The induction is on the finds that are left; `done` is the rewritten text before them. -/
theorem standsAt_of_mem_insertionsFrom {text : String} {tail : List Char} {fs : List Found}
    {start : Nat} {i : Insertion} (done : List Char) (htext : text.toList = done ++ rewrittenText fs tail)
    (hi : i ∈ insertionsFrom (bytes done) start (locate start fs)) :
    StandsAt text i.annotation.placeholder i.start ∧
      i.stop = i.start + i.annotation.placeholder.utf8ByteSize := by
  induction fs generalizing done start with
  | nil => cases hi
  | cons f fs ih =>
    rw [rewrittenText_cons] at htext
    rw [insertionsFrom_locate] at hi
    rcases List.mem_cons.mp hi with rfl | hi
    · refine ⟨standsAt_iff.mpr ⟨done ++ f.gap, rewrittenText fs tail, ?_, bytes_append _ _⟩, ?_⟩
      · rw [htext, List.append_assoc]
        rfl
      · rw [utf8ByteSize_eq_bytes]
        rfl
    · rw [← bytes_append, ← bytes_append] at hi
      exact ih _ (by rw [htext]; simp) hi

/-! ## How an annotation lies to them -/

/-- The placeholder is part of the default text of an annotation that is written from byte `start`
on. -/
def Insertion.Within (i : Insertion) (f : Form) (start : Nat) : Prop :=
  start + bytes f.stem ≤ i.start ∧ i.stop ≤ start + bytes f.unclosed

/-- An annotation that is written from byte `start` on has some placeholder in its default text, and
it shares no part with any placeholder that is not wholly there. -/
structure KeepsWhole (f : Form) (start : Nat) (is : List Insertion) : Prop where
  within : ∃ i ∈ is, i.Within f start
  apart : ∀ i ∈ is, i.stop ≤ start ∨ start + bytes f.text ≤ i.start ∨ i.Within f start

theorem le_start_of_mem_insertionsFrom {place start : Nat} {fs : List Found} {i : Insertion}
    (hi : i ∈ insertionsFrom place start (locate start fs)) : place ≤ i.start := by
  induction fs generalizing place start with
  | nil => cases hi
  | cons f fs ih =>
    rw [insertionsFrom_locate] at hi
    rcases List.mem_cons.mp hi with rfl | hi
    · exact Nat.le_add_right _ _
    · have hle := ih hi
      omega

/-- A placeholder lies before the end of an annotation or after it. -/
theorem apart_of_close {fs : List Found} {content closing after tail : List Char}
    {place start : Nat} (hclosing : ∀ c ∈ closing, isDelimiter c = true)
    (hfs : ∀ f ∈ fs, f.form.WellFormed)
    (htext : rewrittenText fs tail = content ++ ('\'' :: closing ++ after)) {i : Insertion}
    (hi : i ∈ insertionsFrom place start (locate start fs)) :
    i.stop ≤ place + bytes content ∨ place + bytes (content ++ '\'' :: closing) ≤ i.start := by
  induction fs generalizing place start content with
  | nil => cases hi
  | cons f fs ih =>
    obtain ⟨hf, hfs⟩ := List.forall_mem_cons.mp hfs
    rw [rewrittenText_cons] at htext
    rw [insertionsFrom_locate] at hi
    rcases word_in_gap_or_rest hf (Form.doubleQuote_notMem_close hclosing) List.mem_cons_self
      htext.symm with ⟨left, hgap, -⟩ | ⟨last, rfl, hrest⟩
    · -- the end lies in the gap, and so before all placeholders
      have hle : place + bytes f.gap ≤ i.start := by
        rcases List.mem_cons.mp hi with rfl | hi
        · exact Nat.le_refl _
        · have hle := le_start_of_mem_insertionsFrom hi
          omega
      rw [hgap, ← List.append_assoc, bytes_append] at hle
      exact Or.inr (by omega)
    · rcases List.mem_cons.mp hi with rfl | hi
      · refine Or.inl ?_
        simp only [bytes_append]
        omega
      · have hapart := ih hfs hrest hi
        simp only [bytes_append] at hapart ⊢
        omega

/-- An annotation that begins in a gap goes over the placeholder behind the gap, and over others as
far as its default text goes. -/
theorem keepsWhole_of_content {fs : List Found} {f : Found} {g : Form}
    {before left last after tail : List Char} {place start : Nat}
    (hfs : ∀ f ∈ fs, f.form.WellFormed) (hg : g.WellFormed)
    (hgap : f.gap = before ++ (g.stem ++ left))
    (hcontent : g.content = left ++ (f.form.placeholder ++ last))
    (hrest : rewrittenText fs tail = last ++ ('\'' :: g.closing ++ after)) :
    KeepsWhole g (place + bytes before) (insertionsFrom place start (locate start (f :: fs))) := by
  have hover : bytes (before ++ g.unclosed) = bytes (f.gap ++ (f.form.placeholder ++ last)) := by
    rw [Form.unclosed, hcontent, hgap]
    simp
  have hstem := congrArg bytes hgap
  have htext := congrArg bytes g.text_eq_unclosed
  simp only [bytes_append] at hover hstem htext
  rw [insertionsFrom_locate]
  have hfirst : Insertion.Within ⟨.ofFound start f, place + bytes f.gap,
      place + bytes f.gap + bytes f.form.placeholder⟩ g (place + bytes before) :=
    ⟨by dsimp only; omega, by dsimp only; omega⟩
  refine ⟨⟨_, List.mem_cons_self, hfirst⟩, List.forall_mem_cons.mpr
    ⟨Or.inr (Or.inr hfirst), fun i hi => ?_⟩⟩
  have hbelow := le_start_of_mem_insertionsFrom hi
  rcases apart_of_close hg.closing_all hfs hrest hi with hle | hle
  · exact Or.inr (Or.inr ⟨by omega, by omega⟩)
  · rw [bytes_append] at hle
    exact Or.inr (Or.inl (by omega))

/-- An annotation of a rewritten text goes over whole placeholders. The induction is on the finds of
the source: the annotation begins in the gap of the first one, or after its placeholder. -/
theorem keepsWhole_rewrittenText {fs : List Found} {g : Form} {before after tail : List Char}
    (place start : Nat) (hfs : ∀ f ∈ fs, Bare f.gap ∧ f.form.WellFormed) (htail : Bare tail)
    (hg : g.WellFormed) (htext : rewrittenText fs tail = before ++ (g.text ++ after)) :
    KeepsWhole g (place + bytes before) (insertionsFrom place start (locate start fs)) := by
  induction fs generalizing place start before with
  | nil =>
    refine absurd ⟨before, after, ?_⟩ (htail _ ⟨g, hg, rfl⟩)
    rw [List.append_assoc, ← htext]
    rfl
  | cons f fs ih =>
    obtain ⟨⟨hgap, hf⟩, hfs⟩ := List.forall_mem_cons.mp hfs
    have hsplit (more : List Char) :
        g.text ++ more = g.stem ++ (g.content ++ ('\'' :: g.closing ++ more)) := by
      rw [g.text_eq_unclosed, Form.unclosed]
      simp
    rw [rewrittenText_cons, hsplit] at htext
    rcases word_in_gap_or_rest hf (Form.doubleQuote_notMem_stem hg) g.quote_mem_stem htext.symm with
      ⟨left, hleft, hmore⟩ | ⟨right, rfl, hrest⟩
    · obtain ⟨last, hcontent, hrest⟩ := content_over_placeholder hf hg hgap hleft hmore
      exact keepsWhole_of_content (fun f hf => (hfs f hf).2) hg hleft hcontent hrest
    · have hlater : rewrittenText fs tail = right ++ (g.text ++ after) := by rw [hrest, hsplit]
      obtain ⟨⟨i, hi, hwithin⟩, hapart⟩ :=
        ih (place + bytes f.gap + bytes f.form.placeholder) (start + bytes f.text) hfs hlater
      simp only [bytes_append, insertionsFrom_locate, ← Nat.add_assoc]
      refine ⟨⟨i, List.mem_cons_of_mem _ hi, hwithin⟩, List.forall_mem_cons.mpr
        ⟨Or.inl ?_, hapart⟩⟩
      exact Nat.le_add_right _ _

end Annotations

open Annotations

/-- An annotation of a rewritten text has a whole placeholder in its default text, and no placeholder
lies across its ends or within its delimiters, tags or name. -/
theorem keepsWhole_of_mem_find_rewrite {source : String} {a : Occurrence}
    (ha : a ∈ find (rewrite source).text) :
    ∃ f : Form, f.WellFormed ∧ f.text = a.full.toList ∧ f.name = a.rawName.toList ∧
      f.content = a.content.toList ∧ KeepsWhole f a.start (insertions source) := by
  obtain ⟨f, hf, htext, hname, hcontent⟩ := (find_scan _).grammar a ha
  obtain ⟨before, after, hbefore, hstart⟩ := standsAt_iff.mp (standsAt_of_mem_find ha).1
  obtain ⟨hgaps, htail⟩ := bare_of_dissect (rfl : dissect source.toList = (_, _))
  rw [toList_text_rewrite, ← htext] at hbefore
  have hkeeps := keepsWhole_rewrittenText 0 0 hgaps htail hf hbefore
  rw [Nat.zero_add, hstart] at hkeeps
  exact ⟨f, hf, htext, hname, hcontent, hkeeps⟩

theorem standsAt_of_mem_insertions {source : String} {i : Insertion} (hi : i ∈ insertions source) :
    StandsAt (rewrite source).text i.annotation.placeholder i.start ∧
      i.stop = i.start + i.annotation.placeholder.utf8ByteSize :=
  standsAt_of_mem_insertionsFrom [] (toList_text_rewrite source) hi

/-! ## Rewriting again and again -/

/-- A source that was rewritten some number of times. -/
def rewrites (n : Nat) (source : String) : String := (fun text => (rewrite text).text)^[n] source

theorem rewrites_succ (n : Nat) (source : String) :
    rewrites (n + 1) source = rewrites n (rewrite source).text := rfl

theorem rewrites_succ' (n : Nat) (source : String) :
    rewrites (n + 1) source = (rewrite (rewrites n source)).text :=
  Function.iterate_succ_apply' _ n source

theorem find_eq_nil_iff {source : String} :
    find source = [] ↔ (rewrite source).text = source := by
  rw [text_rewrite_eq_iff, count_rewrite, List.length_eq_zero_iff]

theorem rewrites_eq_of_find_eq_nil {source : String} (h : find source = []) (n : Nat) :
    rewrites n source = source :=
  Function.iterate_fixed (find_eq_nil_iff.mp h) n

/-- Some number of rewrites, at most half the number of quotes, is the first after which nothing is
found. The induction is on the quotes. -/
theorem exists_last_rewrite (source : String) :
    ∃ n ≤ source.toList.count '\'' / 2, ∀ m, find (rewrites m source) = [] ↔ n ≤ m := by
  generalize hquotes : source.toList.count '\'' = quotes
  induction quotes using Nat.strongRecOn generalizing source with
  | ind quotes ih =>
    by_cases hnone : find source = []
    · refine ⟨0, Nat.zero_le _, fun m => ?_⟩
      rw [rewrites_eq_of_find_eq_nil hnone]
      exact iff_of_true hnone (Nat.zero_le m)
    · have hcount := count_quote_rewrite source
      have hpos : 0 < (rewrite source).count := by
        rw [count_rewrite]
        exact List.length_pos_iff.mpr hnone
      obtain ⟨n, hn, hlast⟩ := ih _ (by omega) (rewrite source).text rfl
      refine ⟨n + 1, by omega, fun m => ?_⟩
      cases m with
      | zero => exact iff_of_false hnone (Nat.not_succ_le_zero n)
      | succ m => rw [rewrites_succ, hlast, Nat.succ_le_succ_iff]

/-- What rewriting leaves to be found. Two quotes go with each annotation. An annotation that can
still be found has whole placeholders in its default text, and no other part of it meets one. So
rewriting again changes the text at most half as often as it has quotes, and then there is no
annotation in it. -/
theorem remaining_annotations (source : String) :
    (rewrite source).text.toList.count '\'' + 2 * (rewrite source).count =
        source.toList.count '\'' ∧
      (insertions source).map Insertion.annotation = find source ∧
      (∀ i ∈ insertions source,
        StandsAt (rewrite source).text (placeholder (canonicalName i.annotation.rawName)) i.start ∧
          i.stop =
            i.start + (placeholder (canonicalName i.annotation.rawName)).utf8ByteSize) ∧
      (∀ a ∈ find (rewrite source).text, ∃ f : Form, f.WellFormed ∧ f.text = a.full.toList ∧
        f.name = a.rawName.toList ∧ f.content = a.content.toList ∧
        KeepsWhole f a.start (insertions source)) ∧
      ∃ n ≤ source.toList.count '\'' / 2, ∀ m,
        (rewrites (m + 1) source = rewrites m source ↔ n ≤ m) ∧
          (find (rewrites m source) = [] ↔ n ≤ m) := by
  obtain ⟨n, hn, hlast⟩ := exists_last_rewrite source
  refine ⟨count_quote_rewrite source, map_annotation_insertionsFrom 0 0 _,
    fun _ => standsAt_of_mem_insertions, fun _ => keepsWhole_of_mem_find_rewrite, n, hn, ?_⟩
  intro m
  rw [rewrites_succ', ← find_eq_nil_iff]
  exact ⟨hlast m, hlast m⟩

/-- An annotation in the default text of another one, which is found after it is replaced. -/
def nested : String := "/*r:a*/'x/*r:b*/'y'/**/'/**/"

theorem remaining_annotations_nested :
    (find (rewrite nested).text).map Occurrence.rawName = ["a"] ∧
      (∀ a ∈ find (rewrite nested).text, ∃ f : Form, f.WellFormed ∧ f.text = a.full.toList ∧
        f.name = a.rawName.toList ∧ f.content = a.content.toList ∧
        KeepsWhole f a.start (insertions nested)) ∧
      ∃ n ≤ 2, ∀ m, (rewrites (m + 1) nested = rewrites m nested ↔ n ≤ m) ∧
        (find (rewrites m nested) = [] ↔ n ≤ m) := by
  obtain ⟨-, -, -, hkeeps, hlast⟩ := remaining_annotations nested
  exact ⟨by decide +kernel, hkeeps, hlast⟩

end CmsVariables
