import CmsVariables.Proofs.Glob.Compiling
import Mathlib.Data.List.Infix

/-!
# The steps of an expansion

An expansion goes from path to path by single steps. A step is the name of an entry, or a component
of the pattern spells it: a component without wildcards is a step itself, and one that begins with a
dot can stand for a dot or a double dot. So what holds of the path at the start and is kept by all
these steps holds of every path that is found.

* `Pattern.Spells`: the steps that a component spells.
* `forall_mem_fill`: what each step keeps holds of all that is found, by induction on the depth.
* `forall_mem_expand`: the same for the components of a pattern.
-/

namespace CmsVariables.Glob

/-- The component spells the step: it is its text, or it begins with a dot and matches the dot or
double dot. -/
inductive Pattern.Spells (p : Pattern) : String → Prop where
  | text {s : String} (h : literal? p = some s) : p.Spells s
  | dots {s : String} (hhead : p.head? = some (.char '.')) (hs : s = ".." ∨ s = ".")
      (haccepts : p.acceptsText s = true) : p.Spells s

/-- Every step that one of the components spells is good. -/
def SpellsGood (Step : String → Prop) (ps : List Pattern) : Prop := ∀ p ∈ ps, ∀ s, p.Spells s → Step s

/-- From good paths, with components that spell good steps, only good paths are found. -/
def FindsGood (Good : Path → Prop) (Step : String → Prop) (f : List Pattern → Path → List Path) :
    Prop := ∀ ps p, SpellsGood Step ps → Good p → ∀ q ∈ f ps p, Good q

variable {Good : Path → Prop} {Step : String → Prop} {ps : List Pattern} {p q : Path}
  {search : Search}

namespace Search

theorem eq_of_mem_keep (h : q ∈ search.keep p) : q = p := by
  unfold keep at h
  split at h
  · exact List.mem_singleton.mp h
  · cases h

section

variable (hchild : ∀ p s, Good p → Step s → Good (p.child s)) (hname : ∀ n : EntryName, Step n.text)
include hchild

theorem forall_mem_dots {pattern : Pattern} (hpattern : ∀ s, pattern.Spells s → Step s)
    (hp : Good p) : ∀ q ∈ dots pattern p, Good q := by
  intro q hq
  unfold dots at hq
  split at hq
  · obtain ⟨s, hs, rfl⟩ := List.mem_map.mp hq
    obtain ⟨hmem, haccepts⟩ := List.mem_filter.mp hs
    apply hchild p s hp
    apply hpattern
    exact .dots rfl (by simpa using hmem) haccepts
  · cases hq

include hname

theorem forall_mem_children (hp : Good p) : ∀ q ∈ search.children p, Good q := by
  intro q hq
  obtain ⟨n, -, rfl⟩ := List.mem_map.mp hq
  exact hchild p n.text hp (hname n)

theorem fillWith_findsGood {visit : List Pattern → Path → List Path}
    (hvisit : FindsGood Good Step visit) : FindsGood Good Step (search.fillWith visit) := by
  intro ps
  induction ps with
  | nil =>
    intro p _ hp q hq
    exact eq_of_mem_keep hq ▸ hp
  | cons pattern rest ih =>
    intro p hps hp q hq
    obtain ⟨hpattern, hrest⟩ := List.forall_mem_cons.mp hps
    unfold fillWith at hq
    split at hq
    · rename_i name hliteral
      split at hq
      · exact ih (p.child name) hrest (hchild p name hp (hpattern name (.text hliteral))) q hq
      · cases hq
    · split at hq
      · rcases List.mem_append.mp hq with hq | hq
        · obtain ⟨p', hp', hq⟩ := List.mem_flatMap.mp hq
          exact ih p' hrest (forall_mem_dots hchild hpattern hp p' hp') q hq
        · obtain ⟨p', hp', hq⟩ := List.mem_flatMap.mp hq
          exact hvisit _ p' hps (forall_mem_children hchild hname hp p' hp') q hq
      · cases hq

omit hchild hname in
theorem found_findsGood {fill : List Pattern → Path → List Path}
    (hfill : FindsGood Good Step fill) : FindsGood Good Step (search.found fill) := by
  intro ps p hps hp q hq
  unfold found at hq
  split at hq
  · split at hq
    · split at hq
      · exact eq_of_mem_keep hq ▸ hp
      · exact hfill _ p (List.forall_mem_cons.mp hps).2 hp q hq
    · cases hq
  · cases hq

omit hchild hname in
theorem visit_findsGood {fill : List Pattern → Path → List Path}
    (hfill : FindsGood Good Step fill) : FindsGood Good Step (search.visit fill) := by
  intro ps p hps hp q hq
  cases ps with
  | nil => cases hq
  | cons pattern rest =>
    obtain ⟨hpattern, hrest⟩ := List.forall_mem_cons.mp hps
    have hothers : SpellsGood Step (rest.dropWhile isRecursive) := fun r hr =>
      hrest r ((List.dropWhile_sublist _).subset hr)
    simp only [visit] at hq
    split at hq
    · rcases List.mem_append.mp hq with hq | hq
      · split at hq
        · split at hq
          · exact List.mem_singleton.mp hq ▸ hp
          · cases hq
        · exact found_findsGood hfill _ p hothers hp q hq
      · split at hq
        · exact hfill _ p (List.forall_mem_cons.mpr ⟨hpattern, hothers⟩) hp q hq
        · cases hq
    · exact found_findsGood hfill _ p hps hp q hq

theorem forall_mem_fill (depth : ℕ) : FindsGood Good Step (search.fill depth) := by
  induction depth with
  | zero => exact fillWith_findsGood hchild hname fun _ _ _ _ q hq => nomatch hq
  | succ depth ih => exact fillWith_findsGood hchild hname (visit_findsGood ih)

end

end Search

/-! ## Whole patterns -/

theorem mem_of_mem_componentsOf {pattern : Path} {c : String} (h : c ∈ componentsOf pattern) :
    c ∈ pattern.segments ∨ c = "" := by
  unfold componentsOf at h
  generalize hss : (if pattern.segments.getLast? = some "" then pattern.segments.dropLast
    else pattern.segments) = ss at h
  have hsub : ∀ c ∈ ss, c ∈ pattern.segments := by
    intro c hc
    rw [← hss] at hc
    split at hc
    · exact List.mem_of_mem_dropLast hc
    · exact hc
  simp only at h
  split at h
  · exact Or.inr (List.mem_singleton.mp h)
  · exact Or.inl (hsub c h)

/-- The components of a pattern that can be expanded, and what is found with them. -/
theorem exists_components_of_expand {d : Disk} {pattern : Path} {found : List Path}
    (h : expand d pattern = .ok found) :
    ∃ components, (componentsOf pattern).mapM compile = .ok components ∧
      found = (Search.mk d (pattern.segments.getLast? == some "")).fill d.reach components
        (if pattern.rooted then Path.root else .ofText ".") := by
  unfold expand at h
  cases hcompile : compile pattern.text with
  | error e =>
    rw [hcompile] at h
    cases h
  | ok compiled =>
    cases hcomponents : (componentsOf pattern).mapM compile with
    | error e =>
      rw [hcompile, hcomponents] at h
      cases h
    | ok components =>
      rw [hcompile, hcomponents] at h
      cases h
      exact ⟨components, rfl, rfl⟩

theorem mapM_eq_ok_iff {ε α β : Type} {f : α → Except ε β} {xs : List α} {ys : List β} :
    xs.mapM f = .ok ys ↔ xs.map f = ys.map .ok := by
  induction xs generalizing ys with
  | nil => cases ys <;> simp [pure, Except.pure]
  | cons x xs ih =>
    rw [List.mapM_cons, List.map_cons]
    cases hx : f x with
    | error e => cases ys <;> simp [bind, Except.bind]
    | ok z =>
      cases hxs : xs.mapM f with
      | error e => cases ys <;> simp [bind, Except.bind, ← ih, hxs]
      | ok zs => cases ys <;> simp [bind, Except.bind, pure, Except.pure, ← ih, hxs]

theorem exists_of_mem_mapM {ε α β : Type} {f : α → Except ε β} {xs : List α} {ys : List β}
    (h : xs.mapM f = .ok ys) {y : β} (hy : y ∈ ys) : ∃ x ∈ xs, f x = .ok y := by
  have hmem : Except.ok y ∈ xs.map f := mapM_eq_ok_iff.mp h ▸ List.mem_map_of_mem hy
  exact List.mem_map.mp hmem

/-- What the root or the working directory has and every step keeps, all paths have that a pattern
stands for. -/
theorem forall_mem_expand {d : Disk} {pattern : Path} {found : List Path}
    (hchild : ∀ p s, Good p → Step s → Good (p.child s)) (hname : ∀ n : EntryName, Step n.text)
    (h : expand d pattern = .ok found) (hstart : Good (if pattern.rooted then .root else .ofText "."))
    (hpattern : ∀ c ∈ componentsOf pattern, ∀ p, compile c = .ok p → ∀ s, p.Spells s → Step s) :
    ∀ q ∈ found, Good q := by
  obtain ⟨components, hcomponents, rfl⟩ := exists_components_of_expand h
  apply Search.forall_mem_fill hchild hname _ _ _ _ hstart
  intro p hp
  obtain ⟨c, hc, hcompile⟩ := exists_of_mem_mapM hcomponents hp
  exact hpattern c hc p hcompile

end CmsVariables.Glob
