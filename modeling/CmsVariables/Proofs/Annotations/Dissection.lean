import CmsVariables.Annotations.Dissection
import CmsVariables.Proofs.Annotations.Grammar

/-!
# What a dissection leaves in the gaps

A search passes over a place only if no annotation can be read there. So a gap holds no written
annotation, not even one that begins in the gap and ends after it.

* `next?_eq_some`: where the next annotation stands, and that none can be read before it.
* `next?_eq_none_iff`: a text without a next annotation is one in which none is written.
* `exists_found_of_written`: each written annotation shares a part with one that is found.
-/

namespace CmsVariables.Annotations

/-! ## Passing over a gap -/

theorem nextFrom_eq_none {passed cs before after : List Char} (h : nextFrom passed cs = none)
    (hcs : cs = before ++ after) : Form.read? after = none := by
  induction cs generalizing passed before with
  | nil =>
    obtain ⟨rfl, rfl⟩ := List.nil_eq_append_iff.mp hcs
    rfl
  | cons c cs ih =>
    rw [nextFrom] at h
    split at h
    · cases h
    · rename_i hread
      cases before with
      | nil =>
        rw [List.nil_append] at hcs
        rw [← hcs]
        exact hread
      | cons b before =>
        obtain ⟨-, htail⟩ := List.cons_eq_cons.mp hcs
        exact ih h htail

/-- In a text without a next annotation none can be read anywhere. -/
theorem next?_eq_none {cs before after : List Char} (h : next? cs = none)
    (hcs : cs = before ++ after) : Form.read? after = none :=
  nextFrom_eq_none h hcs

theorem nextFrom_eq_some {passed cs rest : List Char} {f : Found}
    (h : nextFrom passed cs = some (f, rest)) :
    ∃ skipped, f.gap = passed.reverse ++ skipped ∧ cs = skipped ++ (f.form.text ++ rest) ∧
      Form.read? (f.form.text ++ rest) = some (f.form, rest) ∧
      ∀ before after, skipped = before ++ after → after ≠ [] →
        Form.read? (after ++ (f.form.text ++ rest)) = none := by
  induction cs generalizing passed with
  | nil => cases h
  | cons c cs ih =>
    rw [nextFrom] at h
    split at h
    · rename_i form tail hread
      cases h
      have htext := Form.text_of_read? hread
      refine ⟨[], (List.append_nil _).symm, htext, htext ▸ hread, ?_⟩
      intro before after hnil hne
      exact absurd (List.nil_eq_append_iff.mp hnil).2 hne
    · rename_i hread
      obtain ⟨skipped, hgap, hcs, hform, hskipped⟩ := ih h
      refine ⟨c :: skipped, by simpa using hgap, by rw [hcs, List.cons_append], hform, ?_⟩
      intro before after hsplit hne
      cases before with
      | nil =>
        rw [List.nil_append] at hsplit
        rw [← hsplit, List.cons_append, ← hcs]
        exact hread
      | cons b before =>
        obtain ⟨-, htail⟩ := List.cons_eq_cons.mp hsplit
        exact hskipped before after htail hne

/-- The next annotation is the one that is read after the gap, and none can be read within it. -/
theorem next?_eq_some {cs rest : List Char} {f : Found} (h : next? cs = some (f, rest)) :
    cs = f.gap ++ (f.form.text ++ rest) ∧
      Form.read? (f.form.text ++ rest) = some (f.form, rest) ∧
      ∀ before after, f.gap = before ++ after → after ≠ [] →
        Form.read? (after ++ (f.form.text ++ rest)) = none := by
  obtain ⟨skipped, hgap, hcs, hform, hskipped⟩ := nextFrom_eq_some h
  rw [List.reverse_nil, List.nil_append] at hgap
  subst hgap
  exact ⟨hcs, hform, hskipped⟩

/-- An annotation that is written somewhere does not begin before the next one. -/
theorem gap_prefix_of_written {cs rest before word after : List Char} {f : Found}
    (h : next? cs = some (f, rest)) (hcs : cs = before ++ (word ++ after))
    (hword : Written word) : f.gap <+: before := by
  obtain ⟨htext, -, hgap⟩ := next?_eq_some h
  rcases List.prefix_or_prefix_of_prefix ⟨_, htext.symm⟩ ⟨_, hcs.symm⟩ with hle | ⟨skipped, hsplit⟩
  · exact hle
  · by_cases hne : skipped = []
    · have heq : f.gap = before := by rw [← hsplit, hne, List.append_nil]
      exact heq ▸ List.prefix_refl before
    · have hread := hgap before skipped hsplit.symm hne
      rw [htext, ← hsplit, List.append_assoc] at hcs
      rw [List.append_cancel_left hcs] at hread
      exact absurd hread (Form.read?_ne_none hword)

/-! ## Dissections -/

/-- The finds that come after some others are those of the text after them. -/
theorem dissect_append {cs : List Char} {fs gs : List Found} (h : (dissect cs).1 = fs ++ gs) :
    ∃ rest, cs = fs.flatMap Found.text ++ rest ∧ dissect rest = (gs, (dissect cs).2) := by
  induction fs generalizing cs with
  | nil => exact ⟨cs, rfl, Prod.ext h rfl⟩
  | cons f fs ih =>
    cases hnext : next? cs with
    | none =>
      rw [dissect_of_none hnext] at h
      cases h
    | some found =>
      obtain ⟨g, rest⟩ := found
      rw [dissect_of_some hnext] at h ⊢
      obtain ⟨rfl, htail⟩ := List.cons_eq_cons.mp h
      obtain ⟨after, hrest, hafter⟩ := ih htail
      refine ⟨after, ?_, hafter⟩
      rw [text_of_next? hnext, hrest, List.flatMap_cons, List.append_assoc]

theorem next?_of_dissect {cs : List Char} {f : Found} {fs : List Found} {tail : List Char}
    (h : dissect cs = (f :: fs, tail)) :
    ∃ rest, next? cs = some (f, rest) ∧ dissect rest = (fs, tail) := by
  cases hnext : next? cs with
  | none =>
    rw [dissect_of_none hnext] at h
    cases h
  | some found =>
    obtain ⟨g, rest⟩ := found
    rw [dissect_of_some hnext] at h
    cases h
    exact ⟨rest, rfl, rfl⟩

theorem next?_eq_none_of_dissect {cs tail : List Char} (h : dissect cs = ([], tail)) :
    next? cs = none ∧ tail = cs := by
  cases hnext : next? cs with
  | none =>
    rw [dissect_of_none hnext] at h
    cases h
    exact ⟨rfl, rfl⟩
  | some found =>
    rw [dissect_of_some hnext] at h
    cases h

/-- Every written annotation shares a part with one that is found. -/
theorem exists_found_of_written {cs before word after : List Char} (hword : Written word)
    (hcs : cs = before ++ (word ++ after)) :
    ∃ fs f gs, (dissect cs).1 = fs ++ f :: gs ∧
      (fs.flatMap Found.text ++ f.gap).length < (before ++ word).length ∧
      before.length < (fs.flatMap Found.text ++ f.text).length := by
  cases hnext : next? cs with
  | none => exact absurd (next?_eq_none hnext hcs) (Form.read?_ne_none hword)
  | some found =>
    obtain ⟨f, rest⟩ := found
    have hgap := (gap_prefix_of_written hnext hcs hword).length_le
    rw [dissect_of_some hnext]
    by_cases hlt : before.length < f.text.length
    · have hne := List.length_pos_iff.mpr hword.ne_nil
      refine ⟨[], f, (dissect rest).1, rfl, ?_, ?_⟩
      · simp only [List.flatMap_nil, List.nil_append, List.length_append]
        omega
      · simpa using hlt
    · have htext := text_of_next? hnext
      have hshorter := length_lt_of_next? hnext
      obtain ⟨passed, rfl⟩ : f.text <+: before :=
        List.prefix_of_prefix_length_le ⟨_, htext.symm⟩ ⟨_, hcs.symm⟩ (Nat.le_of_not_lt hlt)
      rw [htext, List.append_assoc] at hcs
      obtain ⟨fs, g, gs, hdissect, hstart, hstop⟩ :=
        exists_found_of_written hword (List.append_cancel_left hcs)
      refine ⟨f :: fs, g, gs, by rw [hdissect, List.cons_append], ?_, ?_⟩
      · simp only [List.flatMap_cons, List.length_append] at hstart ⊢
        omega
      · simp only [List.flatMap_cons, List.length_append] at hstop ⊢
        omega
termination_by cs.length

/-! ## Texts without annotations -/

/-- No annotation is written anywhere in the text. -/
def Bare (cs : List Char) : Prop := ∀ word, Written word → ¬word <:+: cs

theorem next?_eq_none_iff {cs : List Char} : next? cs = none ↔ Bare cs := by
  constructor
  · rintro h word hword ⟨before, after, hcs⟩
    rw [List.append_assoc] at hcs
    exact Form.read?_ne_none hword (next?_eq_none h hcs.symm)
  · intro h
    cases hnext : next? cs with
    | none => rfl
    | some found =>
      obtain ⟨f, rest⟩ := found
      obtain ⟨hcs, hread, -⟩ := next?_eq_some hnext
      refine absurd ⟨f.gap, rest, ?_⟩ (h f.form.text ⟨f.form, Form.wellFormed_of_read? hread, rfl⟩)
      rw [hcs, List.append_assoc]

theorem bare_gap_of_next? {cs rest : List Char} {f : Found} (h : next? cs = some (f, rest)) :
    Bare f.gap := by
  rintro word hword ⟨before, after, hgap⟩
  have htext : cs = before ++ (word ++ (after ++ (f.form.text ++ rest))) := by
    rw [(next?_eq_some h).1, ← hgap]
    simp
  have hle := (gap_prefix_of_written h htext hword).length_le
  have hpos := List.length_pos_iff.mpr hword.ne_nil
  rw [← hgap, List.length_append, List.length_append] at hle
  omega

/-- A dissection leaves no annotation in the gaps and in the text after the last find. -/
theorem bare_of_dissect {cs tail : List Char} {fs : List Found} (h : dissect cs = (fs, tail)) :
    (∀ f ∈ fs, Bare f.gap ∧ f.form.WellFormed) ∧ Bare tail := by
  induction fs generalizing cs with
  | nil =>
    obtain ⟨hnext, rfl⟩ := next?_eq_none_of_dissect h
    exact ⟨List.forall_mem_nil _, next?_eq_none_iff.mp hnext⟩
  | cons f fs ih =>
    obtain ⟨rest, hnext, hrest⟩ := next?_of_dissect h
    obtain ⟨hgaps, htail⟩ := ih hrest
    have hform := Form.wellFormed_of_read? (next?_eq_some hnext).2.1
    exact ⟨List.forall_mem_cons.mpr ⟨⟨bare_gap_of_next? hnext, hform⟩, hgaps⟩, htail⟩

theorem wellFormed_of_mem_dissect {cs : List Char} {f : Found} (h : f ∈ (dissect cs).1) :
    f.form.WellFormed :=
  ((bare_of_dissect rfl).1 f h).2

end CmsVariables.Annotations
