import CmsVariables.Proofs.Path.Order
import CmsVariables.Proofs.Path.Spelling

/-!
# Spellings of one place

Paths are compared by their components, and a component that leads up stands for itself. So two paths
can spell one place and not be the same, one of them with a detour. Where they begin in the same way
and neither leads up after the steps that they share, there is no detour: then the components tell
the places, and what lies under a place has its path under the path of the place.

* `namesTo_congr`: the components of a path tell its place.
* `UpAlike.prefix_iff`: where paths go up alike, the places tell the components.
-/

namespace CmsVariables.Path

variable {p q : Path}

/-! ## Components and steps -/

/-- The segment of a step, if there is one. -/
def Component.segment? : Component → Option String
  | .root => none
  | .current => none
  | .up => some ".."
  | .name s => some s

theorem segment?_stepOf (s : String) : (stepOf s).segment? = some s := by
  rw [stepOf]
  split
  · rename_i h
    rw [h]
    rfl
  · rfl

/-- How the components begin: with the root, a dot or nothing. -/
def start (p : Path) : List Component :=
  if p.rooted then [.root] else if p.startsAtCurrent then [.current] else []

theorem components_eq (p : Path) : p.components = p.start ++ p.steps.map stepOf := by
  rw [components, filter_body, start]

theorem filterMap_components (p : Path) : p.components.filterMap Component.segment? = p.steps := by
  have hstart : p.start.filterMap Component.segment? = [] := by
    rw [start]
    split
    · rfl
    · split <;> rfl
  have hsteps : (Component.segment? ∘ stepOf) = some := funext segment?_stepOf
  rw [components_eq, List.filterMap_append, hstart, List.filterMap_map, hsteps,
    List.filterMap_some, List.nil_append]

theorem steps_congr (h : p.components = q.components) : p.steps = q.steps := by
  rw [← filterMap_components, h, filterMap_components]

theorem rooted_congr (h : p.components = q.components) : p.rooted = q.rooted := by
  have hroot (p : Path) : p.rooted = true ↔ .root ∈ p.components :=
    ⟨fun hp => components_of_rooted hp ▸ List.mem_cons_self, rooted_of_root_mem_components⟩
  rw [Bool.eq_iff_iff, hroot, hroot, h]

/-- Paths with the same components spell the same place. -/
theorem namesTo_congr (h : p.components = q.components) (here : List String) :
    p.namesTo here = q.namesTo here := by
  rw [namesTo_eq, namesTo_eq, rooted_congr h, steps_congr h]

/-- In a sorted list paths with the same components are one. -/
theorem eq_of_mem_distinct {ps : List Path} (hp : p ∈ distinct ps) (hq : q ∈ distinct ps)
    (h : p.components = q.components) : p = q := by
  have hsame : p.sameSteps = q.sameSteps := funext fun r => by rw [sameSteps, sameSteps, h]
  have hp' := mem_distinct_iff.mp hp
  rw [hsame] at hp'
  exact Option.some.inj (hp'.symm.trans (mem_distinct_iff.mp hq))

/-! ## Paths that go up alike -/

/-- The paths begin in the same way, and neither leads up after the steps that they share. -/
structure UpAlike (p q : Path) : Prop where
  start : p.start = q.start
  steps : ∃ shared r s, p.steps = shared ++ r ∧ q.steps = shared ++ s ∧ ".." ∉ r ∧ ".." ∉ s

theorem UpAlike.symm (h : UpAlike p q) : UpAlike q p := by
  obtain ⟨shared, r, s, hp, hq, hr, hs⟩ := h.steps
  exact ⟨h.start.symm, shared, s, r, hq, hp, hs, hr⟩

/-- Paths that begin in the same way and never lead up. -/
theorem upAlike_of_notMem (h : p.start = q.start) (hp : ".." ∉ p.steps) (hq : ".." ∉ q.steps) :
    UpAlike p q :=
  ⟨h, [], p.steps, q.steps, rfl, rfl, hp, hq⟩

theorem rooted_of_start (h : p.start = q.start) : p.rooted = q.rooted := by
  have hroot (p : Path) : p.rooted = true ↔ .root ∈ p.start := by
    rw [Path.start]
    split
    · simpa
    · split <;> simp_all
  rw [Bool.eq_iff_iff, hroot, hroot, h]

/-- Where paths go up alike, one lies under another if their places do. -/
theorem UpAlike.prefix_iff (h : UpAlike p q) (here : List String) :
    p.components <+: q.components ↔ p.namesTo here <:+ q.namesTo here := by
  obtain ⟨shared, r, s, hp, hq, hr, hs⟩ := h.steps
  have hfilter {p : Path} {r : List String} (hp : p.steps = shared ++ r) :
      r.filter isStep = r := by
    refine List.filter_eq_self.mpr fun x hx => ?_
    have hmem : x ∈ p.steps := hp ▸ List.mem_append_right _ hx
    exact (List.mem_filter.mp hmem).2
  rw [components_eq, components_eq, h.start, List.prefix_append_right_inj,
    List.prefix_map_iff_of_injective stepOf_injective, namesTo_eq, namesTo_eq,
    rooted_of_start h.start, hp, hq, List.prefix_append_right_inj, namesFrom_append,
    namesFrom_append, namesFrom_of_notMem hr, namesFrom_of_notMem hs, hfilter hp, hfilter hq,
    List.suffix_append_inj_of_length_eq rfl, and_iff_left rfl, List.reverse_suffix]

theorem UpAlike.components_eq (h : UpAlike p q) {here : List String}
    (hplace : p.namesTo here = q.namesTo here) : p.components = q.components := by
  have hforward := (h.prefix_iff here).mpr (hplace ▸ List.suffix_rfl)
  have hback := (h.symm.prefix_iff here).mpr (hplace ▸ List.suffix_rfl)
  exact hforward.eq_of_length_le hback.length_le

end CmsVariables.Path
