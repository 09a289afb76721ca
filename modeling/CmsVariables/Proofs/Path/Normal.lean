import CmsVariables.Proofs.Path.Spelling

/-!
# Normal paths

A path from the root that is spelled without detours can be told from its text, and the path of a
directory above it, spelled in the same way, is the front part of that text up to some slash.

* `ofText_text`: a path is read back from its text.
* `IsNormal`, `Above`: paths without detours, and the directories above a path by their components.
* `IsNormal.above_of_text`, `IsNormal.exists_text_of_above`: a directory above a path, told from the
  texts of both.
-/

namespace CmsVariables.Path

variable {p q : Path} {s r : String} {ss ts : List String}

/-! ## Segments and texts -/

theorem toList_joinSegments_cons (s : String) (h : ss ≠ []) :
    (joinSegments (s :: ss)).toList = s.toList ++ '/' :: (joinSegments ss).toList := by
  rw [joinSegments_cons h, String.toList_append, String.toList_append, List.append_assoc]
  rfl

theorem joinSegments_append (hss : ss ≠ []) (hts : ts ≠ []) :
    joinSegments (ss ++ ts) = joinSegments ss ++ "/" ++ joinSegments ts := by
  induction ss with
  | nil => exact absurd rfl hss
  | cons s ss ih =>
    rw [List.cons_append, joinSegments_cons (List.append_ne_nil_of_right_ne_nil _ hts)]
    by_cases hnil : ss = []
    · rw [hnil, List.nil_append, joinSegments]
    · rw [ih hnil, joinSegments_cons hnil]
      simp only [String.append_assoc]

theorem segmentsOf_of_notMem {cs : List Char} (h : '/' ∉ cs) : segmentsOf cs = [cs] := by
  induction cs with
  | nil => rfl
  | cons c cs ih =>
    rw [segmentsOf, if_neg fun hc : c = '/' => h (hc ▸ List.mem_cons_self),
      ih fun hmem => h (List.mem_cons_of_mem _ hmem)]

theorem segmentsOf_append_slash (cs ds : List Char) :
    segmentsOf (cs ++ '/' :: ds) = segmentsOf cs ++ segmentsOf ds := by
  induction cs with
  | nil => rfl
  | cons c cs ih =>
    obtain ⟨first, rest, hcs⟩ := List.exists_cons_of_ne_nil (segmentsOf_ne_nil cs)
    rw [List.cons_append, segmentsOf, segmentsOf, ih, hcs]
    split <;> rfl

theorem segmentsOf_joinSegments (hne : ss ≠ []) (hss : ∀ s ∈ ss, '/' ∉ s.toList) :
    segmentsOf (joinSegments ss).toList = ss.map String.toList := by
  induction ss with
  | nil => exact absurd rfl hne
  | cons s ss ih =>
    obtain ⟨hs, hrest⟩ := List.forall_mem_cons.mp hss
    by_cases hnil : ss = []
    · rw [hnil, joinSegments, segmentsOf_of_notMem hs]
      rfl
    · rw [toList_joinSegments_cons s hnil, segmentsOf_append_slash, segmentsOf_of_notMem hs,
        ih hnil hrest]
      rfl

theorem toList_text (h : p.rooted = true) :
    p.text.toList = '/' :: (joinSegments p.segments).toList := by
  rw [text, if_pos h]
  exact String.toList_append

theorem ofText_of_slash {cs : List Char} (h : s.toList = '/' :: cs) :
    ofText s = ⟨true, (segmentsOf cs).map String.ofList⟩ := by
  unfold ofText
  rw [h]
  rfl

/-- A path from the root is read back from its text. -/
theorem ofText_text (hrooted : p.rooted = true) (hne : p.segments ≠ [])
    (hspelled : ∀ s ∈ p.segments, '/' ∉ s.toList) : ofText p.text = p := by
  have hsegments : (p.segments.map String.toList).map String.ofList = p.segments := by
    simp [List.map_map, Function.comp_def]
  rw [ofText_of_slash (toList_text hrooted), segmentsOf_joinSegments hne hspelled, hsegments,
    ← hrooted]

/-! ## Paths without detours -/

/-- The path leads from the root over names alone to something other than the root. -/
@[mk_iff]
structure IsNormal (p : Path) : Prop where
  rooted : p.rooted = true
  ne_nil : p.segments ≠ []
  names : ∀ s ∈ p.segments, isStep s = true ∧ s ≠ ".." ∧ '/' ∉ s.toList

instance (p : Path) : Decidable p.IsNormal := decidable_of_iff _ (isNormal_iff p).symm

/-- The directory `p` lies above `q`, as their components tell. -/
def Above (p q : Path) : Prop := p.components <+: q.components ∧ p.components ≠ q.components

instance (p q : Path) : Decidable (p.Above q) := inferInstanceAs (Decidable (_ ∧ _))

namespace IsNormal

theorem ofText_text (h : p.IsNormal) : ofText p.text = p :=
  Path.ofText_text h.rooted h.ne_nil fun s hs => (h.names s hs).2.2

theorem text_injective (hp : p.IsNormal) (hq : q.IsNormal) (h : p.text = q.text) : p = q := by
  rw [← hp.ofText_text, h, hq.ofText_text]

theorem components_eq (h : p.IsNormal) : p.components = .root :: p.segments.map stepOf := by
  rw [components_of_rooted h.rooted, steps, List.filter_eq_self.mpr fun s hs => (h.names s hs).1]

/-- What stands in front of a slash in the text of a path spells a directory above it. -/
theorem above_of_text (hq : q.IsNormal) (hroot : s.toList.head? = some '/')
    (h : q.text = s ++ "/" ++ r) : (ofText s).Above q := by
  obtain ⟨cs, hs⟩ : ∃ cs, s.toList = '/' :: cs := List.head?_eq_some_iff.mp hroot
  have htext : q.text.toList = '/' :: (cs ++ '/' :: r.toList) := by
    simp [h, hs]
  have hsegments : q.segments =
      (ofText s).segments ++ (segmentsOf r.toList).map String.ofList := by
    have hread := ofText_of_slash htext
    rw [hq.ofText_text, segmentsOf_append_slash, List.map_append] at hread
    rw [hread, ofText_of_slash hs]
  have hnames : ∀ t ∈ (ofText s).segments, isStep t = true := fun t ht =>
    (hq.names t (hsegments ▸ List.mem_append_left _ ht)).1
  have hcomponents : q.components = (ofText s).components ++
      ((segmentsOf r.toList).map String.ofList).map stepOf := by
    have hrooted : (ofText s).rooted = true := by rw [ofText_of_slash hs]
    rw [hq.components_eq, components_of_rooted hrooted, steps, List.filter_eq_self.mpr hnames,
      hsegments, List.map_append, List.cons_append]
  refine ⟨hcomponents ▸ List.prefix_append _ _, fun heq => ?_⟩
  rw [heq] at hcomponents
  have hnil := List.append_right_eq_self.mp hcomponents.symm
  exact segmentsOf_ne_nil r.toList (by simpa using hnil)

theorem exists_text_of_above (hp : p.IsNormal) (hq : q.IsNormal) (h : p.Above q) :
    ∃ r, q.text = p.text ++ "/" ++ r := by
  obtain ⟨hstart, hne⟩ := h
  rw [hp.components_eq, hq.components_eq] at hstart hne
  obtain ⟨more, hmore⟩ : p.segments <+: q.segments :=
    (List.prefix_map_iff_of_injective stepOf_injective).mp (List.cons_prefix_cons.mp hstart).2
  have hnil : more ≠ [] := by
    rintro rfl
    exact hne (by rw [← hmore, List.append_nil])
  refine ⟨joinSegments more, ?_⟩
  rw [text, text, hp.rooted, hq.rooted, ← hmore, joinSegments_append hp.ne_nil hnil]
  simp only [String.append_assoc]

end IsNormal

end CmsVariables.Path
