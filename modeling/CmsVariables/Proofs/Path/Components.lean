import CmsVariables.FileTree.Basic

/-!
# The steps of paths below a path

A path built from another one by adding names takes the steps of that one and then a step for each
name, however the first path is spelled.

* `components_child`, `components_below`: the steps of paths below a path.
-/

namespace CmsVariables

/-- A name is a step, and no step up. -/
theorem EntryName.isStep (n : EntryName) : Path.isStep n.text = true ∧ n.text ≠ ".." := by
  have hvalid := n.valid
  simp only [isEntryName, Bool.and_eq_true, bne_iff_ne] at hvalid
  exact ⟨by simp [Path.isStep, hvalid], hvalid.1.1.1.2⟩

theorem EntryName.text_injective : ∀ ⦃m n : EntryName⦄, m.text = n.text → m = n := by
  rintro ⟨m, hm⟩ ⟨n, hn⟩ rfl
  rfl

namespace Path

theorem components_concat (rooted : Bool) (ss : List String) {s : String} (hs : s ≠ ".") :
    components ⟨rooted, ss ++ [s]⟩ =
      components ⟨rooted, ss⟩ ++ ([s].filter isStep).map stepOf := by
  cases rooted with
  | true => simp [components, body, startsAtCurrent]
  | false =>
    cases ss with
    | nil => simp [components, body, startsAtCurrent, hs]
    | cons x xs =>
      by_cases hx : x = "."
      · simp [components, body, startsAtCurrent, hx]
      · have hfilter : (x :: (xs ++ [s])).filter isStep =
          (x :: xs).filter isStep ++ [s].filter isStep := by
          rw [← List.filter_append, List.cons_append]
        simp [components, body, startsAtCurrent, hx, hfilter]

theorem components_child (p : Path) (n : EntryName) :
    (p.child n.text).components = p.components ++ [.name n.text] := by
  obtain ⟨hstep, hup⟩ := n.isStep
  have hdot : n.text ≠ "." := by
    intro hdot
    rw [hdot] at hstep
    revert hstep
    decide
  have hname : ([n.text].filter isStep).map stepOf = [.name n.text] := by
    simp [hstep, stepOf, hup]
  rw [child, join, if_neg (by simp)]
  split
  · rename_i hlast
    obtain ⟨ss, hss⟩ := List.getLast?_eq_some_iff.mp hlast
    have hp : p.components = components ⟨p.rooted, ss⟩ := by
      rw [show p = ⟨p.rooted, ss ++ [""]⟩ from hss ▸ rfl, components_concat _ _ (by decide)]
      exact List.append_nil _
    rw [components_concat _ _ hdot, hname, hp, hss, List.dropLast_concat]
  · rw [components_concat _ _ hdot, hname]

theorem below_nil (p : Path) : p.below [] = p := rfl

theorem below_cons (p : Path) (n : EntryName) (ns : List EntryName) :
    p.below (n :: ns) = (p.child n.text).below ns := rfl

theorem below_concat (p : Path) (ns : List EntryName) (n : EntryName) :
    p.below (ns ++ [n]) = (p.below ns).child n.text :=
  List.foldl_append

theorem components_below (p : Path) (ns : List EntryName) :
    (p.below ns).components = p.components ++ ns.map fun n => .name n.text := by
  induction ns generalizing p with
  | nil => rw [below_nil, List.map_nil, List.append_nil]
  | cons n ns ih => rw [below_cons, ih, components_child, List.append_assoc]; rfl

end Path

end CmsVariables
