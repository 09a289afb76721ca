import CmsVariables.Proofs.Path.Order
import CmsVariables.Proofs.Path.Spelling
import Mathlib.Data.List.Forall2

/-!
# Paths below a directory

The path of a place below a directory has the names above the directory in front. If segments lead
down, the file name is told by them alone, and so is how two such paths compare.

* `SlashFree`: segments that are what stands between slashes.
* `under`, `child_under`, `join_ofAddress`: paths below a directory, and how they are built;
  `parent?_child_ofAddress` leads back.
* `Descends`, `depth`: segments that lead down, and how far.
* `extension?_under`, `before_under`, `sameSteps_under`: what the names above do not change.
* `Moved`: a path from a directory and one from the root with the same segments below.
-/

namespace CmsVariables

namespace EntryName

theorem ofText?_text (n : EntryName) : ofText? n.text = some n := dif_pos n.valid

theorem slash_notMem (n : EntryName) : '/' ∉ n.text.toList := by
  have hvalid := n.valid
  simp only [isEntryName, Bool.and_eq_true, Bool.not_eq_true', List.contains_eq_mem,
    decide_eq_false_iff_not] at hvalid
  exact hvalid.1.1.2

theorem nul_notMem (n : EntryName) : '\x00' ∉ n.text.toList := by
  have hvalid := n.valid
  simp only [isEntryName, Bool.and_eq_true, Bool.not_eq_true', List.contains_eq_mem,
    decide_eq_false_iff_not] at hvalid
  exact hvalid.1.2

theorem not_current (n : EntryName) : ¬(n.text = "" ∨ n.text = ".") := by
  rw [← Path.isStep_eq_false_iff, n.isStep.1]
  exact Bool.true_eq_false.mp

end EntryName

namespace Path

variable {a : Address} {r : List String} {s : String}

/-! ## Segments of a text -/

theorem slash_notMem_of_mem_segmentsOf {cs s : List Char} (h : s ∈ segmentsOf cs) : '/' ∉ s := by
  induction cs generalizing s with
  | nil =>
    rw [List.mem_singleton.mp h]
    exact List.not_mem_nil
  | cons c cs ih =>
    rw [segmentsOf] at h
    split at h
    · rcases List.mem_cons.mp h with rfl | h
      · exact List.not_mem_nil
      · exact ih h
    · rename_i hc
      split at h
      · rename_i first rest hcs
        rw [hcs] at ih
        rcases List.mem_cons.mp h with rfl | h
        · exact fun hmem => (List.mem_cons.mp hmem).elim (fun heq => hc heq.symm)
            (ih List.mem_cons_self)
        · exact ih (List.mem_cons_of_mem _ h)
      · rw [List.mem_singleton.mp h]
        exact fun hmem => hc (List.mem_singleton.mp hmem).symm

theorem slash_notMem_segments (text : String) : ∀ s ∈ (ofText text).segments, '/' ∉ s.toList := by
  intro s hs
  unfold ofText at hs
  split at hs
  · rw [List.mem_singleton.mp hs]
    decide
  · split at hs <;>
    · obtain ⟨cs, hcs, rfl⟩ := List.mem_map.mp hs
      rw [String.toList_ofList]
      exact slash_notMem_of_mem_segmentsOf hcs

theorem segments_ofText_ne_nil (text : String) : (ofText text).segments ≠ [] := by
  unfold ofText
  split
  · exact List.cons_ne_nil _ _
  · split <;> exact fun h => segmentsOf_ne_nil _ (List.map_eq_nil_iff.mp h)

/-- The segments are what stands between slashes: none of them holds one. -/
def SlashFree (p : Path) : Prop := ∀ s ∈ p.segments, '/' ∉ s.toList

theorem slashFree_ofText (text : String) : (ofText text).SlashFree := slash_notMem_segments text

namespace SlashFree

variable {p q : Path}

theorem join (hp : p.SlashFree) (hq : q.SlashFree) : (p.join q).SlashFree := by
  intro s hs
  unfold Path.join at hs
  split at hs
  · exact hq s hs
  · split at hs
    · rcases List.mem_append.mp hs with hs | hs
      · exact hp s (List.mem_of_mem_dropLast hs)
      · exact hq s hs
    · exact (List.mem_append.mp hs).elim (hp s) (hq s)

theorem child (hp : p.SlashFree) (hs : '/' ∉ s.toList) : (p.child s).SlashFree :=
  hp.join (List.forall_mem_singleton.mpr hs)

theorem below (hp : p.SlashFree) (ns : List EntryName) : (p.below ns).SlashFree := by
  induction ns generalizing p with
  | nil => exact hp
  | cons n ns ih => exact ih (hp.child n.slash_notMem)

end SlashFree

/-! ## Building paths -/

/-- The path of the place that segments lead to from a directory. -/
def under (a : Address) (r : List String) : Path :=
  .ofSegments true (a.reverse.map EntryName.text ++ r)

/-- Segments and one more. An empty segment at the end gives way to it. -/
def extend (r : List String) (s : String) : List String :=
  if r.getLast? = some "" then r.dropLast ++ [s] else r ++ [s]

/-- Segments with names after them. -/
def extendAll (r : List String) (ns : List EntryName) : List String :=
  ns.foldl (fun r n => extend r n.text) r

theorem under_nil (a : Address) : under a [] = ofAddress a := by
  rw [under, List.append_nil, ofAddress]

theorem under_of_ne_nil (a : Address) (h : r ≠ []) :
    under a r = ⟨true, a.reverse.map EntryName.text ++ r⟩ := by
  rw [under, ofSegments, if_neg (List.append_ne_nil_of_right_ne_nil _ h)]

theorem under_ne_empty (a : Address) (r : List String) : under a r ≠ empty := fun h => by
  cases congrArg rooted h

theorem getLast?_names_ne (a : Address) : (a.reverse.map EntryName.text).getLast? ≠ some "" := by
  intro hlast
  obtain ⟨n, -, hn⟩ := List.mem_map.mp (List.mem_of_getLast? hlast)
  exact n.not_current (Or.inl hn)

theorem join_ofAddress (a : Address) {q : Path} (hrooted : q.rooted = false)
    (hq : q.segments ≠ []) : (ofAddress a).join q = under a q.segments := by
  rw [join, if_neg (by rw [hrooted]; exact Bool.false_ne_true), under_of_ne_nil a hq, ofAddress,
    ofSegments]
  by_cases hnil : a.reverse.map EntryName.text = []
  · rw [if_pos hnil, hnil]
    rfl
  · rw [if_neg hnil, if_neg (getLast?_names_ne a)]

theorem child_under (a : Address) (r : List String) (s : String) :
    (under a r).child s = under a (extend r s) := by
  by_cases hr : r = []
  · subst hr
    rw [under_nil, child, join_ofAddress a rfl (List.cons_ne_nil s [])]
    rfl
  · have hlast : (a.reverse.map EntryName.text ++ r).getLast? = r.getLast? :=
      List.getLast?_append_of_ne_nil _ hr
    rw [under_of_ne_nil a hr, child, join, if_neg Bool.false_ne_true, extend]
    simp only [hlast]
    split
    · rw [under_of_ne_nil a (by simp), List.dropLast_append_of_ne_nil hr, List.append_assoc]
    · rw [under_of_ne_nil a (by simp), List.append_assoc]

theorem below_under (a : Address) (r : List String) (ns : List EntryName) :
    (under a r).below ns = under a (extendAll r ns) := by
  induction ns generalizing r with
  | nil => rfl
  | cons n ns ih =>
    rw [below_cons, child_under, ih]
    rfl

theorem trimEnd_concat {s : String} (hs : isStep s = true) (ss : List String) :
    trimEnd (ss ++ [s]) = ss ++ [s] := by
  unfold trimEnd
  rw [List.reverse_concat, List.dropWhile_cons_of_neg (by simp [hs]), List.reverse_cons,
    List.reverse_reverse]

theorem trimEnd_names (b : Address) :
    trimEnd (b.reverse.map EntryName.text) = b.reverse.map EntryName.text := by
  cases b with
  | nil => rfl
  | cons n b =>
    rw [List.reverse_cons, List.map_append]
    exact trimEnd_concat n.isStep.1 _

/-- The entry of a directory lies in that directory. -/
theorem parent?_child_ofAddress (b : Address) (n : EntryName) :
    ((ofAddress b).child n.text).parent? = some (ofAddress b) := by
  have hchild : (ofAddress b).child n.text = ⟨true, b.reverse.map EntryName.text ++ [n.text]⟩ := by
    rw [child, join_ofAddress b rfl (List.cons_ne_nil _ _), under_of_ne_nil b (List.cons_ne_nil _ _)]
  have hbody : trimEnd ((ofAddress b).child n.text).body =
      b.reverse.map EntryName.text ++ [n.text] := by
    rw [hchild]
    exact trimEnd_concat n.isStep.1 _
  unfold parent?
  rw [hbody, hchild]
  split
  · rename_i hnil
    cases List.append_ne_nil_of_right_ne_nil _ (List.cons_ne_nil _ _) hnil
  · rename_i s ss hcons
    rw [← hcons, List.dropLast_concat, trimEnd_names]
    rfl

/-! ## Segments that lead down -/

/-- The segments lead down or stay, and none of them holds a slash. -/
def Descends (r : List String) : Prop := ∀ s ∈ r, s ≠ ".." ∧ '/' ∉ s.toList

/-- How far down segments lead. -/
def depth (r : List String) : ℕ := (r.filter isStep).length

theorem filter_extend (r : List String) (s : String) :
    (extend r s).filter isStep = r.filter isStep ++ [s].filter isStep := by
  rw [extend]
  split
  · rename_i hlast
    obtain ⟨front, rfl⟩ := List.getLast?_eq_some_iff.mp hlast
    have hnone : [""].filter isStep = [] := rfl
    rw [List.dropLast_concat, List.filter_append, List.filter_append, hnone, List.append_nil]
  · exact List.filter_append _ _

theorem depth_le_extend (r : List String) (s : String) : depth r ≤ depth (extend r s) := by
  rw [depth, depth, filter_extend, List.length_append]
  exact Nat.le_add_right _ _

theorem depth_extend_name (r : List String) (n : EntryName) :
    depth (extend r n.text) = depth r + 1 := by
  rw [depth, filter_extend, List.filter_cons_of_pos n.isStep.1, List.filter_nil,
    List.length_append, List.length_singleton, depth]

theorem depth_extendAll (r : List String) (ns : List EntryName) :
    depth (extendAll r ns) = depth r + ns.length := by
  induction ns generalizing r with
  | nil => rfl
  | cons n ns ih =>
    rw [extendAll, List.foldl_cons, ← extendAll, ih, depth_extend_name, List.length_cons]
    omega

namespace Descends

theorem extend (h : Descends r) (hup : s ≠ "..") (hslash : '/' ∉ s.toList) :
    Descends (Path.extend r s) := by
  have hmem : ∀ x ∈ Path.extend r s, x ∈ r ∨ x = s := by
    intro x hx
    rw [Path.extend] at hx
    split at hx <;> simp only [List.mem_append, List.mem_singleton] at hx
    · exact hx.imp_left List.mem_of_mem_dropLast
    · exact hx
  intro x hx
  rcases hmem x hx with hx | rfl
  · exact h x hx
  · exact ⟨hup, hslash⟩

theorem extend_name (h : Descends r) (n : EntryName) : Descends (Path.extend r n.text) :=
  h.extend n.isStep.2 n.slash_notMem

theorem extendAll (h : Descends r) (ns : List EntryName) : Descends (Path.extendAll r ns) := by
  induction ns generalizing r with
  | nil => exact h
  | cons n ns ih => exact ih (h.extend_name n)

theorem namesFrom (h : Descends r) (here : List String) :
    Path.namesFrom here r = (r.filter isStep).reverse ++ here :=
  namesFrom_of_notMem (fun hmem => (h _ hmem).1 rfl) here

end Descends

/-! ## What the names above do not change -/

theorem hasNul_under (a : Address) (r : List String) :
    (under a r).hasNul = (under [] r).hasNul := by
  have hnames : (a.reverse.map EntryName.text).any (fun s => s.toList.contains '\x00') = false := by
    simpa using fun n _ => n.nul_notMem
  by_cases hr : r = []
  · subst hr
    rw [under_nil, hasNul, ofAddress, ofSegments]
    split
    · rfl
    · exact hnames
  · rw [under_of_ne_nil a hr, under_of_ne_nil [] hr, hasNul, hasNul, List.any_append, hnames,
      Bool.false_or]
    rfl

theorem steps_under (a : Address) (r : List String) :
    (under a r).steps = a.reverse.map EntryName.text ++ r.filter isStep := by
  rw [under, steps_ofSegments, List.filter_append, ← steps_ofSegments true, ← ofAddress,
    steps_ofAddress]

theorem components_under (a : Address) (r : List String) : (under a r).components =
    (.root :: (a.reverse.map EntryName.text).map stepOf) ++ (r.filter isStep).map stepOf := by
  rw [components_of_rooted rfl, steps_under, List.map_append, List.cons_append]

/-- The name of a place that lies deeper than the directory is the last segment that leads down. -/
theorem fileName?_under (a : Address) (h : 0 < depth r) :
    (under a r).fileName? = (under [] r).fileName? := by
  have hne : (r.filter isStep).map stepOf ≠ [] := by
    simpa using List.ne_nil_of_length_pos h
  rw [fileName?, fileName?, components_under, components_under,
    List.getLast?_append_of_ne_nil _ hne, List.getLast?_append_of_ne_nil _ hne]

theorem extension?_under (a : Address) (h : 0 < depth r) :
    (under a r).extension? = (under [] r).extension? := by
  rw [extension?, extension?, fileName?_under a h]

theorem before_under (a : Address) (r r' : List String) :
    (under a r).before (under a r') = (under [] r).before (under [] r') := by
  rw [before, before, components_under, components_under, components_under, components_under,
    lex_append, lex_append]

theorem sameSteps_under (a : Address) (r r' : List String) :
    (under a r).sameSteps (under a r') = (under [] r).sameSteps (under [] r') := by
  rw [Bool.eq_iff_iff, sameSteps, sameSteps, beq_iff_eq, beq_iff_eq]
  simp only [components_under, List.append_cancel_left_eq]

/-! ## Paths in two places -/

/-- The path `q` leads from the directory `a` where `p` leads from the root. -/
def Moved (a : Address) (p q : Path) : Prop :=
  ∃ r, Descends r ∧ p = under [] r ∧ q = under a r

theorem exists_of_forall₂_moved {ps qs : List Path} (h : List.Forall₂ (Moved a) ps qs) :
    ∃ rs : List (List String), (∀ r ∈ rs, Descends r) ∧ ps = rs.map (under []) ∧
      qs = rs.map (under a) := by
  induction h with
  | nil => exact ⟨[], List.forall_mem_nil _, rfl, rfl⟩
  | cons hmoved _ ih =>
    obtain ⟨r, hr, rfl, rfl⟩ := hmoved
    obtain ⟨rs, hrs, rfl, rfl⟩ := ih
    exact ⟨r :: rs, List.forall_mem_cons.mpr ⟨hr, hrs⟩, rfl, rfl⟩

end Path

end CmsVariables
