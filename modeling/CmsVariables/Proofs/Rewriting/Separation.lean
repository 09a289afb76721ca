import CmsVariables.Proofs.Rewriting.Quotes

/-!
# Finished statements

A semicolon can stand in the default text of an annotation only, and a line end only before that. So
no annotation goes over a semicolon at the end of a line: what is found in two texts with these
between them is what is found in each, however the first one ends and the second one begins.

* `before_or_after_separator`: on which side of the separator an annotation is written.
* `Form.read?_append_separator`: reading an annotation before the separator takes no notice of it.
* `dissect_append_separator`: how the two texts are dissected together.
* `statements_apart`: what is written and found in both texts, and their rewriting.
-/

namespace CmsVariables

namespace Annotations

/-- The end of a statement at the end of a line. -/
def separator : List Char := [';', '\n']

/-! ## No annotation goes over a separator -/

namespace Form

variable {f : Form}

theorem WellFormed.semicolon_notMem_stem (hf : f.WellFormed) : ';' ∉ f.stem := by
  have hopening : ';' ∉ f.opening := fun h => absurd (hf.opening_all _ h) (by decide)
  have hblank : ';' ∉ f.blank := fun h => absurd (hf.blank_all _ h) (by decide)
  have htags : ';' ∉ f.tags := fun h => absurd (hf.tags_all _ h) (by decide)
  have hname : ';' ∉ f.name := fun h => absurd (hf.name_all _ h) (by decide)
  have hmiddle : ';' ∉ f.middle := fun h => absurd (hf.middle_all _ h) (by decide)
  simp [stem, hopening, hblank, htags, hname, hmiddle]

theorem WellFormed.newline_notMem_content_closing (hf : f.WellFormed) :
    '\n' ∉ f.content ++ '\'' :: f.closing := by
  have hcontent : '\n' ∉ f.content := fun h => absurd (hf.content_all _ h) (by decide)
  have hclosing : '\n' ∉ f.closing := fun h => absurd (hf.closing_all _ h) (by decide)
  simp [hcontent, hclosing]

/-- An annotation begins with a delimiter. -/
theorem WellFormed.exists_first (hf : f.WellFormed) :
    ∃ c cs, f.stem = c :: cs ∧ isDelimiter c = true := by
  obtain ⟨c, cs, hopening⟩ := List.exists_cons_of_ne_nil hf.opening_ne
  refine ⟨c, cs ++ f.blank ++ f.tags ++ f.name ++ f.middle ++ ['\''], ?_, ?_⟩
  · rw [stem, hopening]
    simp
  · exact hf.opening_all c (hopening ▸ List.mem_cons_self)

/-- An annotation ends with a delimiter. -/
theorem WellFormed.isDelimiter_of_concat (hf : f.WellFormed) {cs : List Char} {c : Char}
    (h : f.content ++ '\'' :: f.closing = cs ++ [c]) : isDelimiter c = true := by
  obtain ⟨front, last, hconcat⟩ := (List.eq_nil_or_concat f.closing).resolve_left hf.closing_ne
  have hclosing : f.closing = front ++ [last] := hconcat.trans List.concat_eq_append
  rw [hclosing, ← List.cons_append, ← List.append_assoc] at h
  obtain ⟨-, hlast⟩ := List.append_inj' h rfl
  obtain rfl : last = c := List.singleton_inj.mp hlast
  exact hf.closing_all last (hclosing ▸ List.mem_append_right front (List.mem_singleton_self last))

end Form

/-- An annotation is written before a separator or after it: up to its first quote it holds no
semicolon, and from there on no line end. -/
theorem before_or_after_separator {f : Form} (hf : f.WellFormed) {before after xs ys : List Char}
    (h : before ++ (f.text ++ after) = xs ++ (separator ++ ys)) :
    (∃ left, xs = before ++ (f.text ++ left)) ∨
      ∃ right, before = xs ++ (separator ++ right) ∧ ys = right ++ (f.text ++ after) := by
  have hsplit (more : List Char) :
      f.text ++ more = f.stem ++ (f.content ++ '\'' :: f.closing ++ more) := by
    rw [f.text_eq_unclosed, Form.unclosed]
    simp
  rw [hsplit] at h
  rcases before_or_after_mark h hf.semicolon_notMem_stem with
    ⟨left, hxs, hend⟩ | ⟨right, hbefore, hys⟩
  · -- the annotation begins before the semicolon, and its end cannot reach the line end
    rcases List.append_eq_append_iff.mp hend with ⟨more, hmore, -⟩ | ⟨cut, hcut, hrest⟩
    · exact Or.inl ⟨more, by rw [hxs, hsplit, hmore]⟩
    · cases cut with
      | nil =>
        rw [List.append_nil] at hcut
        exact Or.inl ⟨[], by rw [hxs, hsplit, hcut, List.append_nil]⟩
      | cons c cut =>
        obtain ⟨rfl, hline⟩ := List.cons_eq_cons.mp hrest
        cases cut with
        | nil => exact absurd (hf.isDelimiter_of_concat hcut) (by decide)
        | cons d cut =>
          obtain ⟨rfl, -⟩ := List.cons_eq_cons.mp hline
          exact absurd (by simp [hcut]) hf.newline_notMem_content_closing
  · obtain ⟨c, cs, hstem, hc⟩ := hf.exists_first
    cases right with
    | nil =>
      rw [hstem] at hys
      obtain ⟨rfl, -⟩ := List.cons_eq_cons.mp hys
      exact absurd hc (by decide)
    | cons d right =>
      obtain ⟨rfl, hrest⟩ := List.cons_eq_cons.mp hys
      exact Or.inr ⟨right, hbefore, by rw [hsplit]; exact hrest⟩

/-! ## Searching before a separator -/

/-- Reading an annotation takes no notice of what follows a separator. -/
theorem Form.read?_append_separator (xs ys : List Char) :
    read? (xs ++ (separator ++ ys)) =
      (read? xs).map fun p => (p.1, p.2 ++ (separator ++ ys)) := by
  cases hxs : read? xs with
  | some p =>
    obtain ⟨f, rest⟩ := p
    obtain ⟨hf, rfl, hstop, hshortest⟩ := read?_eq_some_iff.mp hxs
    refine read?_eq_some_iff.mpr ⟨hf, List.append_assoc _ _ _, ?_, hshortest⟩
    intro c hc
    cases rest with
    | nil =>
      obtain rfl : ';' = c := Option.some.inj hc
      rfl
    | cons d rest => exact hstop c hc
  | none =>
    rw [Option.map_none, Option.eq_none_iff_forall_ne_some]
    rintro ⟨f, rest⟩ h
    obtain ⟨hf, htext, -, -⟩ := read?_eq_some_iff.mp h
    have hfront : [] ++ (f.text ++ rest) = xs ++ (separator ++ ys) := htext.symm
    rcases before_or_after_separator hf hfront with ⟨left, rfl⟩ | ⟨right, hnil, -⟩
    · exact read?_ne_none ⟨f, hf, rfl⟩ hxs
    · simp [separator] at hnil

/-- The same find with more text before it. -/
def Found.after (before : List Char) (f : Found) : Found := { f with gap := before ++ f.gap }

@[simp]
theorem Found.text_after (before : List Char) (f : Found) :
    (f.after before).text = before ++ f.text := List.append_assoc _ _ _

@[simp]
theorem Found.rewritten_after (before : List Char) (f : Found) :
    (f.after before).rewritten = before ++ f.rewritten := List.append_assoc _ _ _

/-- What was passed over before goes into the gap. -/
theorem nextFrom_eq_map (passed cs : List Char) :
    nextFrom passed cs = (next? cs).map fun p => (p.1.after passed.reverse, p.2) := by
  have hmore (more : List Char) :
      nextFrom (more ++ passed) cs =
        (nextFrom more cs).map fun p => (p.1.after passed.reverse, p.2) := by
    induction cs generalizing more with
    | nil => rfl
    | cons c cs ih =>
      rw [nextFrom, nextFrom]
      cases Form.read? (c :: cs) with
      | some p => simp [Found.after]
      | none => exact ih (c :: more)
  exact hmore []

/-- A search finds what stands before the separator, or else it goes on after the separator. -/
theorem nextFrom_append_separator (passed xs ys : List Char) :
    nextFrom passed (xs ++ (separator ++ ys)) =
      ((nextFrom passed xs).map fun p => (p.1, p.2 ++ (separator ++ ys))).or
        (nextFrom (separator.reverse ++ (xs.reverse ++ passed)) ys) := by
  induction xs generalizing passed with
  | nil => rfl
  | cons c xs ih =>
    have hread := Form.read?_append_separator (c :: xs) ys
    rw [List.cons_append] at hread ⊢
    rw [nextFrom, nextFrom, hread]
    cases Form.read? (c :: xs) with
    | some p => rfl
    | none =>
      rw [List.reverse_cons, List.append_assoc]
      exact ih (c :: passed)

theorem next?_append_separator (xs ys : List Char) :
    next? (xs ++ (separator ++ ys)) =
      ((next? xs).map fun p => (p.1, p.2 ++ (separator ++ ys))).or
        ((next? ys).map fun p => (p.1.after (xs ++ separator), p.2)) := by
  rw [next?, nextFrom_append_separator, nextFrom_eq_map _ ys]
  simp [next?]

/-! ## Dissecting both texts -/

/-- A dissection with more text before it, which goes into the first gap. -/
def dissectionAfter (before : List Char) : List Found × List Char → List Found × List Char
  | ([], tail) => ([], before ++ tail)
  | (f :: fs, tail) => (f.after before :: fs, tail)

/-- Both texts are dissected apart, and the separator lies in the gap between their finds. The
induction is on the length of the first text. -/
theorem dissect_append_separator (xs ys : List Char) :
    dissect (xs ++ (separator ++ ys)) =
      ((dissect xs).1 ++ (dissectionAfter ((dissect xs).2 ++ separator) (dissect ys)).1,
        (dissectionAfter ((dissect xs).2 ++ separator) (dissect ys)).2) := by
  have hnext := next?_append_separator xs ys
  cases hxs : next? xs with
  | none =>
    rw [hxs, Option.map_none, Option.none_or] at hnext
    rw [dissect_of_none hxs]
    cases hys : next? ys with
    | none =>
      rw [hys] at hnext
      rw [dissect_of_none hnext, dissect_of_none hys]
      simp [dissectionAfter]
    | some p =>
      rw [hys] at hnext
      rw [dissect_of_some hnext, dissect_of_some hys]
      rfl
  | some p =>
    obtain ⟨f, rest⟩ := p
    have hshorter := length_lt_of_next? hxs
    rw [hxs] at hnext
    rw [dissect_of_some hnext, dissect_of_some hxs, dissect_append_separator rest ys]
    rfl
termination_by xs.length

theorem rewrittenText_dissectionAfter (before : List Char) (d : List Found × List Char) :
    rewrittenText (dissectionAfter before d).1 (dissectionAfter before d).2 =
      before ++ rewrittenText d.1 d.2 := by
  obtain ⟨fs, tail⟩ := d
  cases fs with
  | nil => rfl
  | cons f fs => simp [dissectionAfter, rewrittenText]

theorem locate_dissectionAfter (offset : Nat) (before : List Char) (d : List Found × List Char) :
    locate offset (dissectionAfter before d).1 = locate (offset + bytes before) d.1 := by
  obtain ⟨fs, tail⟩ := d
  cases fs with
  | nil => rfl
  | cons f fs =>
    rw [dissectionAfter, locate, locate, Found.text_after, bytes_append, Nat.add_assoc]
    simp [Occurrence.ofFound, Found.after, Found.text, bytes_append, Nat.add_assoc]

/-- The same annotation in a text with `n` more bytes before it. -/
def Occurrence.shifted (n : Nat) (a : Occurrence) : Occurrence :=
  { a with start := a.start + n, stop := a.stop + n }

theorem locate_shifted (n offset : Nat) (fs : List Found) :
    locate (offset + n) fs = (locate offset fs).map (Occurrence.shifted n) := by
  induction fs generalizing offset with
  | nil => rfl
  | cons f fs ih =>
    have hfirst : Occurrence.ofFound (offset + n) f = (Occurrence.ofFound offset f).shifted n := by
      simp only [Occurrence.ofFound, Occurrence.shifted, Nat.add_right_comm offset n]
    rw [locate, locate, List.map_cons, hfirst, Nat.add_right_comm, ih]

end Annotations

open Annotations

/-! ## Finding and rewriting in both texts -/

theorem toList_append_separator (s t : String) :
    (s ++ ";\n" ++ t).toList = s.toList ++ (separator ++ t.toList) := by
  rw [String.toList_append, String.toList_append, List.append_assoc]
  rfl

/-- An annotation is written in both texts together where it is written in one of them. -/
theorem standsAt_append_separator {word : String} (hword : Written word.toList) (s t : String)
    (p : Nat) :
    StandsAt (s ++ ";\n" ++ t) word p ↔
      StandsAt s word p ∨ ∃ q, p = s.utf8ByteSize + 2 + q ∧ StandsAt t word q := by
  have hsize (before : List Char) :
      bytes (s.toList ++ (separator ++ before)) = s.utf8ByteSize + 2 + bytes before := by
    rw [bytes_append, bytes_append, ← Nat.add_assoc, utf8ByteSize_eq_bytes]
    rfl
  simp only [standsAt_iff, toList_append_separator]
  constructor
  · rintro ⟨before, after, htext, rfl⟩
    obtain ⟨f, hf, hfull⟩ := hword
    rw [← hfull] at htext ⊢
    rcases before_or_after_separator hf htext.symm with ⟨left, hs⟩ | ⟨right, rfl, ht⟩
    · exact Or.inl ⟨before, left, hs, rfl⟩
    · exact Or.inr ⟨bytes right, hsize right, right, after, ht, rfl⟩
  · rintro (⟨before, after, hs, rfl⟩ | ⟨q, rfl, before, after, ht, rfl⟩)
    · exact ⟨before, after ++ (separator ++ t.toList), by simp [hs], rfl⟩
    · exact ⟨s.toList ++ (separator ++ before), after, by simp [ht], hsize before⟩

/-- What is found in both texts is what is found in each, the second one being moved on. -/
theorem find_append_separator (s t : String) :
    find (s ++ ";\n" ++ t) =
      find s ++ (find t).map (Occurrence.shifted (s.utf8ByteSize + 2)) := by
  have hsize : bytes ((dissect s.toList).1.flatMap Found.text) +
      bytes ((dissect s.toList).2 ++ separator) = s.utf8ByteSize + 2 := by
    rw [← bytes_append, ← List.append_assoc, text_dissect, bytes_append, utf8ByteSize_eq_bytes]
    rfl
  have hsecond := locate_shifted (s.utf8ByteSize + 2) 0 (dissect t.toList).1
  rw [Nat.zero_add] at hsecond
  rw [find, toList_append_separator, dissect_append_separator, locate_append,
    locate_dissectionAfter, Nat.zero_add, hsize, hsecond]
  rfl

/-- Rewriting both texts is rewriting each. -/
theorem rewrite_append_separator (s t : String) :
    rewrite (s ++ ";\n" ++ t) =
      ⟨(rewrite s).text ++ ";\n" ++ (rewrite t).text, (rewrite s).count + (rewrite t).count⟩ := by
  have hcount : (rewrite (s ++ ";\n" ++ t)).count = (rewrite s).count + (rewrite t).count := by
    rw [count_rewrite, find_append_separator, List.length_append, List.length_map, count_rewrite,
      count_rewrite]
  have htext : (rewrite (s ++ ";\n" ++ t)).text =
      (rewrite s).text ++ ";\n" ++ (rewrite t).text := by
    apply String.toList_inj.mp
    rw [toList_append_separator, toList_text_rewrite, toList_append_separator,
      dissect_append_separator, toList_text_rewrite, toList_text_rewrite, rewrittenText,
      List.flatMap_append, List.append_assoc]
    refine (congrArg _ (rewrittenText_dissectionAfter _ _)).trans ?_
    simp [rewrittenText]
  rw [← hcount, ← htext]

/-- Whatever two texts are, a semicolon at the end of a line keeps them apart. The annotations of
both are those of each, those of the second one at places moved on by the first one and the
separator; rewriting both is rewriting each; and no annotation is written in both together that is
not written in one of them, so none is cut short, swallowed or made up by what an annotation left
open in the other text. -/
theorem statements_apart (s t : String) :
    find (s ++ ";\n" ++ t) = find s ++ (find t).map (Occurrence.shifted (s.utf8ByteSize + 2)) ∧
      rewrite (s ++ ";\n" ++ t) = ⟨(rewrite s).text ++ ";\n" ++ (rewrite t).text,
        (rewrite s).count + (rewrite t).count⟩ ∧
      ∀ word : String, Written word.toList → ∀ p, StandsAt (s ++ ";\n" ++ t) word p ↔
        StandsAt s word p ∨ ∃ q, p = s.utf8ByteSize + 2 + q ∧ StandsAt t word q :=
  ⟨find_append_separator s t, rewrite_append_separator s t,
    fun _ hword p => standsAt_append_separator hword s t p⟩

/-- A text that leaves an annotation open. -/
def leftOpen : String := "/*r:a*/'x"

/-- A text with the end of an annotation in front of another one. -/
def endFirst : String := "'/**/ /*r:b*/'y'/**/"

/-- Without the line end the first annotation would go on behind the semicolon. -/
theorem statements_apart_leftOpen :
    (find (leftOpen ++ ";" ++ endFirst)).map Occurrence.content = ["x;", "y"] ∧
      (find (leftOpen ++ ";\n" ++ endFirst)).map Occurrence.content = ["y"] ∧
      (find (leftOpen ++ ";\n" ++ endFirst)).map Occurrence.start = [17] ∧
      (rewrite (leftOpen ++ ";\n" ++ endFirst)).text =
        leftOpen ++ ";\n" ++ (rewrite endFirst).text ∧
      Written "/*r:b*/'y'/**/".toList ∧
      StandsAt (leftOpen ++ ";\n" ++ endFirst) "/*r:b*/'y'/**/" 17 := by
  obtain ⟨hfind, hrewrite, hstands⟩ := statements_apart leftOpen endFirst
  have hopen : find leftOpen = [] := by decide +kernel
  have hread : Form.read? "/*r:b*/'y'/**/".toList =
      some (⟨['/', '*'], [], ['r', ':'], ['b'], ['*', '/'], ['y'], "/**/".toList⟩, []) := by
    decide +kernel
  have hword : Written "/*r:b*/'y'/**/".toList :=
    ⟨_, Form.wellFormed_of_read? hread, by decide +kernel⟩
  refine ⟨by decide +kernel, ?_, ?_, ?_, hword, ?_⟩
  · rw [hfind, hopen]
    decide +kernel
  · rw [hfind, hopen]
    decide +kernel
  · rw [hrewrite]
    decide +kernel
  · exact (hstands _ hword 17).mpr (Or.inr ⟨6, by decide, "'/**/ ", "", by decide, by decide⟩)

end CmsVariables
