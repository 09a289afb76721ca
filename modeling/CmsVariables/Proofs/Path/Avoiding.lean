import CmsVariables.Proofs.Path.Spelling

/-!
# Paths that avoid a place

The way that a path spells goes from place to place, segment by segment. A path avoids a place if it
spells a way that is never there, not even at its end. Where such a path leads cannot depend on what
is at that place.

* `avoidsFrom_cons`, `avoidsFrom_append`: a way is told step by step.
* `Avoids.join`, `Avoids.of_front`: paths made of paths that avoid a place.
* `avoidsFrom_of_notMem`: without double dots only the places above the last one are passed.
-/

namespace CmsVariables.Path

/-- The way that segments spell from a place is never at `a`. -/
def AvoidsFrom (a here ss : List String) : Prop := ∀ front ∈ ss.inits, namesFrom here front ≠ a

/-- The way that a path spells is never at `a`. -/
def Avoids (p : Path) (here a : List String) : Prop :=
  AvoidsFrom a (if p.rooted then [] else here) p.segments

instance (a here ss : List String) : Decidable (AvoidsFrom a here ss) :=
  inferInstanceAs (Decidable (∀ front ∈ ss.inits, namesFrom here front ≠ a))

instance (p : Path) (here a : List String) : Decidable (p.Avoids here a) :=
  inferInstanceAs (Decidable (AvoidsFrom _ _ _))

variable {p q : Path} {s : String} {a here ss ts : List String}

/-! ## Ways step by step -/

theorem avoidsFrom_iff :
    AvoidsFrom a here ss ↔ ∀ front, front <+: ss → namesFrom here front ≠ a := by
  unfold AvoidsFrom
  simp only [List.mem_inits]

theorem avoidsFrom_cons :
    AvoidsFrom a here (s :: ss) ↔ here ≠ a ∧ AvoidsFrom a (nameStep here s) ss := by
  unfold AvoidsFrom
  rw [List.inits_cons, List.forall_mem_cons, List.forall_mem_map]
  exact Iff.rfl

theorem avoidsFrom_nil : AvoidsFrom a here [] ↔ here ≠ a := by
  rw [avoidsFrom_iff]
  constructor
  · intro h
    exact h [] List.nil_prefix
  · intro h front hfront
    rw [List.prefix_nil.mp hfront]
    exact h

theorem AvoidsFrom.start_ne (h : AvoidsFrom a here ss) : here ≠ a :=
  avoidsFrom_iff.mp h [] List.nil_prefix

theorem AvoidsFrom.end_ne (h : AvoidsFrom a here ss) : namesFrom here ss ≠ a :=
  avoidsFrom_iff.mp h ss (List.prefix_refl ss)

theorem AvoidsFrom.of_front (h : AvoidsFrom a here ss) (hts : ts <+: ss) :
    AvoidsFrom a here ts := by
  rw [avoidsFrom_iff] at h ⊢
  intro front hfront
  exact h front (hfront.trans hts)

theorem avoidsFrom_append : AvoidsFrom a here (ss ++ ts) ↔
    AvoidsFrom a here ss ∧ AvoidsFrom a (namesFrom here ss) ts := by
  induction ss generalizing here with
  | nil =>
    rw [List.nil_append, avoidsFrom_nil]
    exact ⟨fun h => ⟨h.start_ne, h⟩, fun h => h.2⟩
  | cons s ss ih =>
    rw [List.cons_append, avoidsFrom_cons, avoidsFrom_cons, ih, and_assoc, namesFrom_cons]

theorem avoidsFrom_filter : AvoidsFrom a here (ss.filter isStep) ↔ AvoidsFrom a here ss := by
  induction ss generalizing here with
  | nil => rfl
  | cons s ss ih =>
    rw [avoidsFrom_cons]
    cases hs : isStep s with
    | true => rw [List.filter_cons_of_pos hs, avoidsFrom_cons, ih]
    | false =>
      have hstay : nameStep here s = here := if_pos (isStep_eq_false_iff.mp hs)
      rw [List.filter_cons_of_neg (by simp [hs]), ih, hstay]
      exact ⟨fun h => ⟨h.start_ne, h⟩, fun h => h.2⟩

/-- Without double dots the way is at places above its last one. -/
theorem avoidsFrom_of_notMem (hup : ".." ∉ ss) (h : ¬a <:+ namesFrom here ss) :
    AvoidsFrom a here ss := by
  rw [avoidsFrom_iff]
  rintro front ⟨rest, rfl⟩ rfl
  apply h
  rw [List.mem_append, not_or] at hup
  rw [namesFrom_append, namesFrom_of_notMem hup.2]
  exact List.suffix_append _ _

/-! ## Paths -/

theorem avoids_iff_steps :
    p.Avoids here a ↔ AvoidsFrom a (if p.rooted then [] else here) p.steps :=
  avoidsFrom_filter.symm

theorem Avoids.namesTo_ne (h : p.Avoids here a) : p.namesTo here ≠ a := h.end_ne

/-- The front of a path avoids what the path avoids. -/
theorem Avoids.of_front (h : p.Avoids here a) (hrooted : q.rooted = p.rooted)
    (hq : q.segments = [""] ∨ q.segments <+: p.segments) : q.Avoids here a := by
  unfold Avoids at h ⊢
  rw [hrooted]
  rcases hq with hstay | hfront
  · rw [hstay, avoidsFrom_cons, avoidsFrom_nil]
    exact ⟨h.start_ne, h.start_ne⟩
  · exact AvoidsFrom.of_front h hfront

/-- A path seen from a directory avoids a place if the paths to both do. -/
theorem Avoids.join (hp : p.Avoids here a) (hq : q.Avoids (p.namesTo here) a) :
    (p.join q).Avoids here a := by
  rw [avoids_iff_steps] at hp hq ⊢
  rw [namesTo_eq] at hq
  rw [rooted_join, steps_join]
  cases hrooted : q.rooted with
  | true =>
    rw [hrooted] at hq
    exact hq
  | false =>
    rw [hrooted] at hq
    exact avoidsFrom_append.mpr ⟨hp, hq⟩

end CmsVariables.Path
