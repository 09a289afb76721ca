import CmsVariables.FileTree.Basic
import CmsVariables.Proofs.Path.Components
import Mathlib.Data.List.Infix
import Mathlib.Data.List.Induction

/-!
# The place that a path spells

Dots can be resolved without looking at files: a single dot stays, a double dot goes up, and a name
goes down. `namesTo` gives the names on the way to the place that a path spells, the last name first,
as in an address. So what is spelled below a directory has names that end in those of the directory.

* `steps_join`, `namesTo_join`: the steps and the places of joined paths.
* `steps_of_stripPrefix?`: what is left of a path after the steps of another one.
* `Inward.suffix_namesTo`: where no more steps lead up than down, a path stays below its start.
-/

namespace CmsVariables

namespace Path

/-- The names on the way after one more segment. -/
def nameStep (here : List String) (s : String) : List String :=
  if s = "" ∨ s = "." then here else if s = ".." then here.tail else s :: here

/-- The names on the way to the place that segments spell. -/
def namesFrom (here ss : List String) : List String := ss.foldl nameStep here

/-- The names on the way to the place that a path spells. -/
def namesTo (here : List String) (p : Path) : List String :=
  namesFrom (if p.rooted then [] else here) p.segments

/-- The segments that lead somewhere. -/
def steps (p : Path) : List String := p.segments.filter isStep

theorem isStep_eq_false_iff {s : String} : isStep s = false ↔ s = "" ∨ s = "." := by
  simp [isStep, Decidable.or_iff_not_imp_left]

theorem namesFrom_cons (here : List String) (s : String) (ss : List String) :
    namesFrom here (s :: ss) = namesFrom (nameStep here s) ss := rfl

theorem namesFrom_append (here ss ts : List String) :
    namesFrom here (ss ++ ts) = namesFrom (namesFrom here ss) ts := List.foldl_append

theorem namesFrom_filter (here ss : List String) :
    namesFrom here (ss.filter isStep) = namesFrom here ss := by
  induction ss generalizing here with
  | nil => rfl
  | cons s ss ih =>
    cases hs : isStep s with
    | true =>
      rw [List.filter_cons_of_pos hs]
      exact ih _
    | false =>
      rw [List.filter_cons_of_neg (by rw [hs]; exact Bool.false_ne_true), ih]
      exact congrArg (namesFrom · ss) (if_pos (isStep_eq_false_iff.mp hs)).symm

theorem namesTo_eq (here : List String) (p : Path) :
    p.namesTo here = namesFrom (if p.rooted then [] else here) p.steps :=
  (namesFrom_filter _ _).symm

theorem rooted_join (p q : Path) : (p.join q).rooted = (q.rooted || p.rooted) := by
  rw [join]
  cases hq : q.rooted with
  | true => rw [if_pos rfl, hq, Bool.true_or]
  | false =>
    rw [if_neg Bool.false_ne_true, Bool.false_or]
    split <;> rfl

theorem rooted_child (p : Path) (name : String) : (p.child name).rooted = p.rooted :=
  (p.rooted_join ⟨false, [name]⟩).trans (Bool.false_or _)

theorem rooted_below (p : Path) (ns : List EntryName) :
    (p.below ns).rooted = p.rooted := by
  induction ns generalizing p with
  | nil => rfl
  | cons n ns ih => exact (ih (p.child n.text)).trans (p.rooted_child n.text)

theorem steps_join (p q : Path) :
    (p.join q).steps = if q.rooted then q.steps else p.steps ++ q.steps := by
  rw [join]
  cases hq : q.rooted with
  | true => rfl
  | false =>
    rw [if_neg Bool.false_ne_true, if_neg Bool.false_ne_true]
    split
    · rename_i hlast
      obtain ⟨ss, hss⟩ := List.getLast?_eq_some_iff.mp hlast
      rw [steps, steps, steps, hss, List.dropLast_concat, List.filter_append, List.filter_append,
        List.filter_cons_of_neg (by decide), List.filter_nil, List.append_nil]
    · exact List.filter_append _ _

theorem namesTo_join (here : List String) (p q : Path) :
    (p.join q).namesTo here = q.namesTo (p.namesTo here) := by
  rw [namesTo_eq, namesTo_eq, namesTo_eq, rooted_join, steps_join]
  cases q.rooted with
  | true => rfl
  | false => exact namesFrom_append _ _ _

theorem steps_below (p : Path) (ns : List EntryName) :
    (p.below ns).steps = p.steps ++ ns.map EntryName.text := by
  induction ns generalizing p with
  | nil => rw [below_nil, List.map_nil, List.append_nil]
  | cons n ns ih =>
    have hchild : (p.child n.text).steps = p.steps ++ [n.text] := by
      rw [child, steps_join, if_neg Bool.false_ne_true, steps, steps,
        List.filter_cons_of_pos n.isStep.1, List.filter_nil]
    rw [below_cons, ih, hchild, List.append_assoc, List.singleton_append, List.map_cons]

/-- Without double dots each step adds its name. -/
theorem namesFrom_of_notMem {ss : List String} (h : ".." ∉ ss) (here : List String) :
    namesFrom here ss = (ss.filter isStep).reverse ++ here := by
  induction ss generalizing here with
  | nil => rfl
  | cons s ss ih =>
    obtain ⟨hup, hrest⟩ := not_or.mp (List.mem_cons.not.mp h)
    rw [namesFrom_cons, ih hrest, nameStep]
    cases hs : isStep s with
    | true =>
      have hstay : ¬(s = "" ∨ s = ".") := by
        rw [← isStep_eq_false_iff, hs]
        exact Bool.true_eq_false.mp
      rw [if_neg hstay, if_neg (Ne.symm hup), List.filter_cons_of_pos hs, List.reverse_cons,
        List.append_assoc, List.singleton_append]
    | false =>
      rw [if_pos (isStep_eq_false_iff.mp hs), List.filter_cons_of_neg (by simp [hs])]

theorem namesFrom_names (here : List String) (ns : List EntryName) :
    namesFrom here (ns.map EntryName.text) = (ns.map EntryName.text).reverse ++ here := by
  have hup : ".." ∉ ns.map EntryName.text := by
    simpa using fun n _ => n.isStep.2
  have hsteps : (ns.map EntryName.text).filter isStep = ns.map EntryName.text := by
    simpa using fun n _ => n.isStep.1
  rw [namesFrom_of_notMem hup, hsteps]

theorem steps_ofSegments (rooted : Bool) (ss : List String) :
    (ofSegments rooted ss).steps = ss.filter isStep := by
  rw [ofSegments, steps]
  split
  · rename_i hnil
    rw [hnil]
    rfl
  · rfl

theorem steps_ofAddress (a : Address) : (ofAddress a).steps = a.reverse.map EntryName.text := by
  rw [ofAddress, steps_ofSegments]
  refine List.filter_eq_self.mpr ?_
  intro s hs
  obtain ⟨n, -, rfl⟩ := List.mem_map.mp hs
  exact n.isStep.1

theorem namesTo_ofAddress (here : List String) (a : Address) :
    (ofAddress a).namesTo here = a.map EntryName.text := by
  rw [namesTo_eq, steps_ofAddress, namesFrom_names, List.map_reverse, List.reverse_reverse]
  exact List.append_nil _

/-! ## Steps after those of another path -/

theorem filter_body (p : Path) : p.body.filter isStep = p.steps := by
  rw [body, steps]
  split
  · rename_i hdot
    cases hss : p.segments with
    | nil => rfl
    | cons s ss =>
      have hs : s = "." := by
        simp only [startsAtCurrent, hss, Bool.and_eq_true] at hdot
        simpa using hdot.2
      rw [List.tail_cons, hs, List.filter_cons_of_neg (by decide)]
  · rfl

theorem filter_dropWhile (ss : List String) :
    (ss.dropWhile fun s => !isStep s).filter isStep = ss.filter isStep := by
  induction ss with
  | nil => rfl
  | cons s ss ih =>
    cases hs : isStep s with
    | true => rw [List.dropWhile_cons_of_neg (by simp [hs])]
    | false =>
      rw [List.dropWhile_cons_of_pos (by simp [hs]), ih, List.filter_cons_of_neg (by simp [hs])]

theorem filter_trimEnd (ss : List String) : (trimEnd ss).filter isStep = ss.filter isStep := by
  rw [trimEnd, List.filter_reverse, filter_dropWhile, ← List.filter_reverse, List.reverse_reverse]

theorem filter_dropSteps (n : Nat) (ss : List String) :
    (dropSteps n ss).filter isStep = (ss.filter isStep).drop n := by
  induction ss generalizing n with
  | nil => cases n <;> rfl
  | cons s ss ih =>
    cases n with
    | zero => rfl
    | succ n =>
      rw [dropSteps]
      cases hs : isStep s with
      | true => rw [if_pos rfl, ih, List.filter_cons_of_pos hs, List.drop_succ_cons]
      | false =>
        rw [if_neg Bool.false_ne_true, ih, List.filter_cons_of_neg (by simp [hs])]

theorem stepOf_injective : Function.Injective stepOf := by
  intro s t h
  by_cases hs : s = ".." <;> by_cases ht : t = ".." <;> simp_all [stepOf]

theorem components_of_rooted {p : Path} (h : p.rooted = true) :
    p.components = .root :: p.steps.map stepOf := by
  rw [components, if_pos h, filter_body, List.singleton_append]

theorem rooted_of_root_mem_components {p : Path} (h : .root ∈ p.components) : p.rooted = true := by
  by_contra hp
  have hstep : ∀ s, stepOf s ≠ .root := by
    intro s
    rw [stepOf]
    split <;> exact Component.noConfusion
  rw [components, if_neg hp, List.mem_append, List.mem_map] at h
  rcases h with hfirst | ⟨s, -, hs⟩
  · split at hfirst <;> simp at hfirst
  · exact hstep s hs

/-- A path that starts with the steps of a directory has these steps, and then those that are
left. -/
theorem steps_of_stripPrefix? {p q rest : Path} (hq : q.rooted = true)
    (h : p.stripPrefix? q = some rest) :
    p.rooted = true ∧ rest.rooted = false ∧ p.steps = q.steps ++ rest.steps := by
  have hcomponents := components_of_rooted hq
  rw [stripPrefix?] at h
  split at h
  · rename_i hstarts
    rw [if_neg (by simp [hcomponents]), filter_body] at h
    obtain rfl := Option.some.inj h
    have hbegin : q.components <+: p.components := List.isPrefixOf_iff_prefix.mp hstarts
    have hp : p.rooted = true := rooted_of_root_mem_components
      (hbegin.subset (hcomponents ▸ List.mem_cons_self))
    rw [hcomponents, components_of_rooted hp, List.cons_prefix_cons,
      List.prefix_map_iff_of_injective stepOf_injective] at hbegin
    obtain ⟨left, hleft⟩ := hbegin.2
    refine ⟨hp, rfl, ?_⟩
    rw [steps_ofSegments, filter_trimEnd, filter_dropWhile, filter_dropSteps, filter_body, ← hleft,
      List.drop_left]
  · cases h

/-! ## Steps that lead inward -/

/-- At no point have more of the steps gone up than down. -/
def Inward (p : Path) : Prop := ∀ pre ∈ p.steps.inits, 2 * pre.count ".." ≤ pre.length

instance : DecidablePred Inward := fun p =>
  inferInstanceAs (Decidable (∀ pre ∈ p.steps.inits, 2 * pre.count ".." ≤ pre.length))

theorem inward_of_notMem {p : Path} (h : ".." ∉ p.steps) : p.Inward := by
  intro pre hpre
  have hcount : pre.count ".." = 0 :=
    List.count_eq_zero.mpr fun hmem => h (((List.mem_inits _ _).mp hpre).subset hmem)
  rw [hcount]
  exact Nat.zero_le _

theorem exists_namesFrom_eq {ss : List String} (hsteps : ∀ s ∈ ss, isStep s = true)
    (h : ∀ pre ∈ ss.inits, 2 * pre.count ".." ≤ pre.length) (here : List String) :
    ∃ below, below.length = ss.length - 2 * ss.count ".." ∧ namesFrom here ss = below ++ here := by
  induction ss using List.reverseRecOn with
  | nil => exact ⟨[], rfl, rfl⟩
  | append_singleton ss s ih =>
    have hss : ∀ pre ∈ ss.inits, 2 * pre.count ".." ≤ pre.length := fun pre hpre =>
      h pre ((List.mem_inits _ _).mpr
        (((List.mem_inits _ _).mp hpre).trans (List.prefix_append ss [s])))
    obtain ⟨below, hlength, hnames⟩ := ih (fun t ht => hsteps t (List.mem_append_left _ ht)) hss
    have hbefore := hss ss ((List.mem_inits _ _).mpr (List.prefix_refl ss))
    have hafter := h (ss ++ [s]) ((List.mem_inits _ _).mpr (List.prefix_refl _))
    have hstep : ¬(s = "" ∨ s = ".") := by
      rw [← isStep_eq_false_iff, hsteps s (List.mem_append_right _ List.mem_cons_self)]
      exact Bool.true_eq_false.mp
    rw [namesFrom_append, hnames]
    simp only [List.count_append, List.length_append, List.length_singleton] at hafter ⊢
    by_cases hup : s = ".."
    · rw [hup, List.count_singleton_self] at hafter ⊢
      -- the names below have not been used up, as one more step up is allowed
      cases below with
      | nil =>
        rw [List.length_nil] at hlength
        omega
      | cons name below =>
        rw [List.length_cons] at hlength
        exact ⟨below, by omega, rfl⟩
    · have hdown : [s].count ".." = 0 := List.count_eq_zero.mpr (by simpa using Ne.symm hup)
      refine ⟨s :: below, by rw [List.length_cons]; omega, ?_⟩
      exact (if_neg hstep).trans (if_neg hup)

/-- Inward steps spell places below the directory that they start from. -/
theorem Inward.suffix_namesTo {p : Path} (h : p.Inward) (hp : p.rooted = false)
    (here : List String) : here <:+ p.namesTo here := by
  have hsteps : ∀ s ∈ p.steps, isStep s = true := fun s hs => (List.mem_filter.mp hs).2
  obtain ⟨below, -, hnames⟩ := exists_namesFrom_eq hsteps h here
  rw [namesTo_eq, hp, if_neg Bool.false_ne_true, hnames]
  exact List.suffix_append below here

/-! ## Segments of built paths -/

theorem segments_ofSegments_ne_nil (rooted : Bool) (ss : List String) :
    (ofSegments rooted ss).segments ≠ [] := by
  rw [ofSegments]
  split
  · exact List.cons_ne_nil _ _
  · assumption

theorem segments_join_ne_nil (p : Path) {q : Path} (h : q.segments ≠ []) :
    (p.join q).segments ≠ [] := by
  rw [join]
  split
  · exact h
  · split
    · exact List.append_ne_nil_of_right_ne_nil _ h
    · exact List.append_ne_nil_of_right_ne_nil _ h

theorem segments_ne_nil_of_stripPrefix? {p q rest : Path} (h : p.stripPrefix? q = some rest) :
    rest.segments ≠ [] := by
  rw [stripPrefix?] at h
  split at h
  · split at h
    · cases h
      split
      · exact List.cons_ne_nil _ _
      · exact segments_ofSegments_ne_nil _ _
    · cases h
      exact segments_ofSegments_ne_nil _ _
  · cases h

end Path

end CmsVariables
