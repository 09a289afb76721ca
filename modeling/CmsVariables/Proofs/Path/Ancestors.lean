import CmsVariables.Proofs.Path.Ascent
import CmsVariables.Proofs.Path.Normal
import Mathlib.Data.List.TakeWhile

/-!
# Paths above a path

The path above another one is spelled with its first segments and lacks its last component. So going
up comes to an end, from the root on it passes one path for each beginning of the components, and of
the paths that it passes each lies above those before it.

* `segments_of_parent?`, `components_of_parent?`: the path above another one;
  `exists_parent?_child`: that of the entry of a directory.
* `ancestors_induction`: what passes on from the path above another one to that holds of all paths.
* `components_ancestors`, `pairwise_above_ancestors`: all paths above a path, nearest first.
-/

namespace CmsVariables.Path

variable {p q r : Path}

/-! ## The path above another one -/

theorem reverse_dropWhile_reverse_prefix (f : String → Bool) (ss : List String) :
    (ss.reverse.dropWhile f).reverse <+: ss := by
  have h := List.reverse_prefix.mpr (List.dropWhile_suffix (l := ss.reverse) f)
  rwa [List.reverse_reverse] at h

theorem trimEnd_prefix (ss : List String) : trimEnd ss <+: ss :=
  reverse_dropWhile_reverse_prefix _ ss

/-- What is left before the last step comes before something. -/
theorem exists_rest_of_trimEnd {ss : List String} (h : trimEnd ss ≠ []) :
    ∃ rest, rest ≠ [] ∧ ss = trimEnd (trimEnd ss).dropLast ++ rest := by
  obtain ⟨inner, hinner⟩ := trimEnd_prefix (trimEnd ss).dropLast
  obtain ⟨outer, houter⟩ := trimEnd_prefix ss
  refine ⟨inner ++ ((trimEnd ss).getLast h :: outer), by simp, ?_⟩
  rw [← List.append_assoc, hinner, List.append_cons, List.dropLast_append_getLast, houter]

theorem isStep_getLast_trimEnd {ss : List String} (h : trimEnd ss ≠ []) :
    isStep ((trimEnd ss).getLast h) = true := by
  have hne : ss.reverse.dropWhile (fun s => !isStep s) ≠ [] := fun hnil =>
    h (congrArg List.reverse hnil)
  have hhead := List.head_dropWhile_not (fun s => !isStep s) hne
  rw [Bool.not_eq_false'] at hhead
  simpa [trimEnd, List.getLast_reverse] using hhead

theorem segments_of_startsAtCurrent (h : p.startsAtCurrent = true) :
    p.rooted = false ∧ p.segments = "." :: p.body := by
  obtain ⟨rooted, segments⟩ := p
  simp only [startsAtCurrent, Bool.and_eq_true, Bool.not_eq_true', beq_iff_eq] at h
  obtain ⟨rfl, hhead⟩ := h
  obtain ⟨tail, rfl⟩ := List.head?_eq_some_iff.mp hhead
  exact ⟨rfl, rfl⟩

theorem start_of_startsAtCurrent (h : p.startsAtCurrent = true) : p.start = [.current] := by
  rw [start, (segments_of_startsAtCurrent h).1, if_neg Bool.false_ne_true, if_pos h]

/-- The segments of the path above another one begin that path. -/
theorem segments_of_parent? {above : Path} (h : p.parent? = some above) :
    above.rooted = p.rooted ∧
      (above.segments = [""] ∨ ∃ rest, rest ≠ [] ∧ p.segments = above.segments ++ rest) := by
  rw [parent?] at h
  split at h
  · split at h
    · rename_i hcurrent
      cases h
      exact ⟨(segments_of_startsAtCurrent hcurrent).1.symm, Or.inl rfl⟩
    · cases h
  · rename_i s ss hbody
    have hsteps : trimEnd p.body ≠ [] := by simp [hbody]
    obtain ⟨rest, hne, hrest⟩ := exists_rest_of_trimEnd hsteps
    rw [hbody] at hrest
    split at h
    · rename_i hcurrent
      cases h
      obtain ⟨hrooted, hsegments⟩ := segments_of_startsAtCurrent hcurrent
      exact ⟨hrooted.symm, Or.inr ⟨rest, hne, by rw [hsegments, hrest, List.cons_append]⟩⟩
    · rename_i hcurrent
      cases h
      refine ⟨rfl, ?_⟩
      by_cases habove : trimEnd (s :: ss).dropLast = []
      · exact Or.inl (if_pos habove)
      · refine Or.inr ⟨rest, hne, ?_⟩
        rw [ofSegments, if_neg habove, ← hrest, body, if_neg hcurrent]

/-- A path with steps has one above it. -/
theorem exists_parent? (h : p.steps ≠ []) : ∃ above, p.parent? = some above := by
  have hbody : trimEnd p.body ≠ [] := by
    intro hnil
    apply h
    rw [← filter_body, ← filter_trimEnd, hnil]
    rfl
  unfold parent?
  split
  · rename_i hnil
    exact absurd hnil hbody
  · split
    · exact ⟨_, rfl⟩
    · exact ⟨_, rfl⟩

/-- The path above another one begins as that does, unless that begins with a dot. -/
theorem start_of_parent? (h : p.parent? = some q) (hcurrent : p.startsAtCurrent = false) :
    q.start = p.start := by
  obtain ⟨hrooted, hsegments⟩ := segments_of_parent? h
  have hq : q.startsAtCurrent = false := by
    rw [startsAtCurrent] at hcurrent
    rw [startsAtCurrent, hrooted]
    rcases hsegments with hnil | ⟨rest, -, hrest⟩
    · simp [hnil]
    · rw [hrest] at hcurrent
      cases hq : q.segments with
      | nil => simp
      | cons s ss =>
        rw [hq] at hcurrent
        exact hcurrent
  rw [start, start, hrooted, hq, hcurrent]

theorem steps_eq_concat (h : trimEnd p.body ≠ []) :
    p.steps =
      (trimEnd (trimEnd p.body).dropLast).filter isStep ++ [(trimEnd p.body).getLast h] := by
  have hlast : [(trimEnd p.body).getLast h].filter isStep = [(trimEnd p.body).getLast h] :=
    List.filter_cons_of_pos (isStep_getLast_trimEnd h)
  rw [filter_trimEnd, ← hlast, ← List.filter_append, List.dropLast_append_getLast, filter_trimEnd,
    filter_body]

/-- The path above another one lacks its last component. -/
theorem components_of_parent? (h : p.parent? = some q) :
    ∃ c, p.components = q.components ++ [c] := by
  have hparent := h
  rw [parent?] at h
  split at h
  · rename_i hnil
    split at h
    · rename_i hcurrent
      cases h
      have hsteps : p.steps = [] := by
        rw [← filter_body, ← filter_trimEnd, hnil, List.filter_nil]
      refine ⟨.current, ?_⟩
      rw [components_eq, hsteps, start_of_startsAtCurrent hcurrent]
      rfl
    · cases h
  · rename_i s ss hbody
    have hne : trimEnd p.body ≠ [] := by simp [hbody]
    have hq : q.start = p.start ∧
        q.steps = (trimEnd (trimEnd p.body).dropLast).filter isStep := by
      rw [← hbody] at h
      split at h
      · rename_i hcurrent
        cases h
        rw [start_of_startsAtCurrent hcurrent]
        exact ⟨rfl, rfl⟩
      · rename_i hcurrent
        refine ⟨start_of_parent? hparent (Bool.eq_false_iff.mpr hcurrent), ?_⟩
        cases h
        exact steps_ofSegments _ _
    refine ⟨stepOf ((trimEnd p.body).getLast hne), ?_⟩
    rw [components_eq, components_eq, hq.1, hq.2, steps_eq_concat hne, List.map_append,
      ← List.append_assoc]
    rfl

/-- The path above an entry of a directory is that of the directory, but for its spelling. -/
theorem exists_parent?_child (p : Path) (n : EntryName) :
    ∃ above, (p.child n.text).parent? = some above ∧ above.components = p.components := by
  have hsteps : (p.child n.text).steps ≠ [] := by
    rw [← filterMap_components, components_child, List.filterMap_append]
    exact List.append_ne_nil_of_right_ne_nil _ (List.cons_ne_nil _ _)
  obtain ⟨above, habove⟩ := exists_parent? hsteps
  obtain ⟨c, hc⟩ := components_of_parent? habove
  rw [components_child] at hc
  exact ⟨above, habove, (List.append_inj' hc rfl).1.symm⟩

theorem components_eq_nil (hrooted : p.rooted = false) (h : ∀ s ∈ p.segments, s = "") :
    p.components = [] := by
  obtain ⟨rooted, segments⟩ := p
  obtain rfl : rooted = false := hrooted
  have hcurrent : startsAtCurrent ⟨false, segments⟩ = false := by
    cases segments with
    | nil => rfl
    | cons s ss =>
      obtain rfl : s = "" := h s List.mem_cons_self
      rfl
  have hsteps : segments.filter isStep = [] := by
    rw [List.filter_eq_nil_iff]
    intro s hs
    rw [h s hs]
    decide
  simp [components, body, hcurrent, hsteps]

/-! ## What lies above -/

theorem above_of_parent? (h : p.parent? = some q) : q.Above p := by
  obtain ⟨c, hc⟩ := components_of_parent? h
  refine ⟨⟨[c], hc.symm⟩, fun heq => ?_⟩
  rw [heq] at hc
  exact List.cons_ne_nil c [] (List.append_right_eq_self.mp hc.symm)

namespace Above

theorem trans (h : p.Above q) (h' : q.Above r) : p.Above r := by
  refine ⟨h.1.trans h'.1, fun heq => h'.2 ?_⟩
  exact h'.1.eq_of_length_le (heq ▸ h.1.length_le)

theorem asymm (h : p.Above q) : ¬q.Above p := fun h' =>
  h.2 (h.1.eq_of_length_le h'.1.length_le)

end Above

/-! ## All paths above a path -/

/-- The paths above a path begin with itself and go on with those above its parent. -/
theorem ancestors_of_parent? (h : p.parent? = some q) : p.ancestors = p :: q.ancestors := by
  obtain ⟨c, hc⟩ := components_of_parent? h
  rw [ancestors, hc, List.length_append, List.length_singleton, ancestorsUpTo, h]
  rfl

theorem ancestors_of_parent?_eq_none (h : p.parent? = none) : p.ancestors = [p] := by
  rw [ancestors]
  cases p.components.length with
  | zero => rfl
  | succ n => rw [ancestorsUpTo, h]

/-- What holds of a path without one above it, and passes on from the path above another one to that,
holds of all paths. -/
theorem ancestors_induction {motive : Path → Prop}
    (outermost : ∀ p, p.parent? = none → motive p)
    (below : ∀ p q, p.parent? = some q → motive q → motive p) (p : Path) : motive p := by
  -- the number of components gets less on the way up
  generalize hn : p.components.length = n
  induction n using Nat.strong_induction_on generalizing p with
  | h n ih =>
    cases hparent : p.parent? with
    | none => exact outermost p hparent
    | some q =>
      obtain ⟨c, hc⟩ := components_of_parent? hparent
      refine below p q hparent (ih q.components.length ?_ q rfl)
      rw [← hn, hc, List.length_append, List.length_singleton]
      exact Nat.lt_succ_self _

/-- The paths above a path begin with itself. -/
theorem exists_ancestors_eq (p : Path) : ∃ above, p.ancestors = p :: above := by
  cases h : p.parent? with
  | none => exact ⟨[], ancestors_of_parent?_eq_none h⟩
  | some q => exact ⟨q.ancestors, ancestors_of_parent? h⟩

/-- What holds of a path and passes on to its parent holds of all paths above it. -/
theorem forall_mem_ancestors {Good : Path → Prop}
    (hparent : ∀ p q : Path, Good p → p.parent? = some q → Good q) {p : Path} (hp : Good p) :
    ∀ q ∈ p.ancestors, Good q := by
  induction p using ancestors_induction with
  | outermost p h =>
    rw [ancestors_of_parent?_eq_none h]
    exact List.forall_mem_singleton.mpr hp
  | below p q h ih =>
    rw [ancestors_of_parent? h]
    exact List.forall_mem_cons.mpr ⟨hp, ih (hparent p q hp h)⟩

theorem rooted_of_mem_ancestors (h : p.rooted = true) (hq : q ∈ p.ancestors) : q.rooted = true := by
  have hpass : ∀ r above : Path, r.rooted = true → r.parent? = some above → above.rooted = true :=
    fun r above hr hparent => (segments_of_parent? hparent).1.trans hr
  exact forall_mem_ancestors hpass h q hq

theorem above_of_mem_ancestors (h : p.parent? = some q) (hr : r ∈ q.ancestors) : r.Above p := by
  have hpass : ∀ above higher : Path, above.Above p → above.parent? = some higher →
      higher.Above p := fun above higher habove hparent => (above_of_parent? hparent).trans habove
  exact forall_mem_ancestors hpass (above_of_parent? h) r hr

/-- Of the paths above a path each lies above those before it. -/
theorem pairwise_above_ancestors (p : Path) : p.ancestors.Pairwise fun q r => r.Above q := by
  induction p using ancestors_induction with
  | outermost p h =>
    rw [ancestors_of_parent?_eq_none h]
    exact List.pairwise_singleton _ _
  | below p q h ih =>
    rw [ancestors_of_parent? h, List.pairwise_cons]
    exact ⟨fun r hr => above_of_mem_ancestors h hr, ih⟩

/-- Up to the root there is one path for each beginning of the components, the longest first. -/
theorem components_ancestors (h : p.rooted = true) :
    p.ancestors.map components = p.components.inits.tail.reverse := by
  induction p using ancestors_induction with
  | outermost p hparent =>
    have hsteps : p.steps = [] := by
      by_contra hne
      obtain ⟨q, hq⟩ := exists_parent? hne
      rw [hparent] at hq
      cases hq
    rw [ancestors_of_parent?_eq_none hparent, List.map_singleton, components_of_rooted h, hsteps]
    rfl
  | below p q hparent ih =>
    obtain ⟨c, hc⟩ := components_of_parent? hparent
    have hrooted := (segments_of_parent? hparent).1.trans h
    have hinits : (q.components ++ [c]).inits = q.components.inits ++ [q.components ++ [c]] := by
      rw [List.inits_append]
      rfl
    rw [ancestors_of_parent? hparent, List.map_cons, ih hrooted, hc, hinits,
      List.tail_append_of_ne_nil (List.ne_nil_of_length_pos (by simp)), List.reverse_append]
    rfl

end CmsVariables.Path
