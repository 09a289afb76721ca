import CmsVariables.Path.Order
import Mathlib.Data.List.Lex
import Mathlib.Data.List.Flatten
import Mathlib.Data.Prod.Lex
import Mathlib.Data.String.Basic

/-!
# Sorting paths

The order of paths is the lexicographic order of the places of their steps. Sorting is stable; so a
sorted list of paths is told by what it holds of each class of paths that take the same steps, in
the order given.

* `before_iff`: the order of paths is a linear order of what they stand for.
* `distinct_congr`: lists with the same paths of each class are sorted to the same list.
* `distinct_flatMap_congr`: it does not matter in which order each of several searches finds its
  paths.
* `exists_distinct_map`: paths that compare alike are sorted in the same way.
* `pairwise_before_distinct`, `mem_distinct_iff`: sorted paths are in strict order, and of those
  that take the same steps the first one given is kept.
-/

namespace CmsVariables.Path

/-! ## The order -/

namespace Component

/-- Where a step comes in the order. -/
def place (c : Component) : ℕ ×ₗ String := toLex (c.rank, c.text)

theorem place_injective : Function.Injective place := by
  intro a b h
  cases a <;> cases b <;> simp_all [place, rank, text]

theorem before_iff {a b : Component} : a.before b = true ↔ a.place < b.place := by
  simp [before, place, Prod.Lex.toLex_lt_toLex]

end Component

/-- Where the steps of a path come in the order. -/
def places (p : Path) : List (ℕ ×ₗ String) := p.components.map Component.place

theorem lex_iff {as bs : List Component} :
    List.lex as bs Component.before = true ↔ as.map Component.place < bs.map Component.place := by
  induction as generalizing bs with
  | nil => cases bs <;> simp
  | cons a as ih =>
    cases bs with
    | nil => simp
    | cons b bs =>
      rw [List.cons_lex_cons, Bool.or_eq_true, Bool.and_eq_true, ih, Component.before_iff,
        beq_iff_eq, List.map_cons, List.map_cons, List.cons_lt_cons_iff,
        Component.place_injective.eq_iff]

theorem before_iff {p q : Path} : p.before q = true ↔ p.places < q.places := lex_iff

theorem sameSteps_iff {p q : Path} : p.sameSteps q = true ↔ p.places = q.places := by
  rw [sameSteps, beq_iff_eq, places, places,
    (List.map_injective_iff.mpr Component.place_injective).eq_iff]

/-- A path can stand before another one in a sorted list. -/
def notAfter (p q : Path) : Bool := !q.before p

theorem notAfter_iff {p q : Path} : p.notAfter q = true ↔ p.places ≤ q.places := by
  rw [notAfter, Bool.not_eq_true', ← Bool.not_eq_true, before_iff, not_lt]

theorem notAfter_trans (p q r : Path) (h : p.notAfter q = true) (h' : q.notAfter r = true) :
    p.notAfter r = true :=
  notAfter_iff.mpr ((notAfter_iff.mp h).trans (notAfter_iff.mp h'))

theorem notAfter_total (p q : Path) : (p.notAfter q || q.notAfter p) = true := by
  rw [Bool.or_eq_true, notAfter_iff, notAfter_iff]
  exact le_total _ _

/-! ## Sorting -/

/-- Sorting keeps the order of paths that take the same steps. -/
theorem filter_mergeSort (p : Path) (ps : List Path) :
    (ps.mergeSort notAfter).filter p.sameSteps = ps.filter p.sameSteps := by
  have hsorted : (ps.filter p.sameSteps).Pairwise fun q r => q.notAfter r = true := by
    refine List.pairwise_of_forall_mem_list fun q hq r hr => ?_
    have hq := sameSteps_iff.mp (List.mem_filter.mp hq).2
    have hr := sameSteps_iff.mp (List.mem_filter.mp hr).2
    exact notAfter_iff.mpr (hq ▸ hr ▸ le_refl _)
  have hsub := List.sublist_mergeSort notAfter_trans notAfter_total hsorted List.filter_sublist
  have hfilter := hsub.filter p.sameSteps
  rw [List.filter_filter] at hfilter
  simp only [Bool.and_self] at hfilter
  refine (hfilter.eq_of_length_le ?_).symm
  exact ((List.mergeSort_perm ps notAfter).filter _).length_eq.le

theorem sameSteps_self (p : Path) : p.sameSteps p = true := sameSteps_iff.mpr rfl

theorem mem_iff_of_filter_eq {ps qs : List Path} {p : Path}
    (h : ps.filter p.sameSteps = qs.filter p.sameSteps) : p ∈ ps ↔ p ∈ qs := by
  rw [← and_iff_left (a := p ∈ ps) p.sameSteps_self, ← List.mem_filter, h, List.mem_filter,
    and_iff_left p.sameSteps_self]

/-- Sorted lists are the same if they hold the same paths of each class. -/
theorem eq_of_filter_eq {ps qs : List Path} (hps : ps.Pairwise fun p q => p.notAfter q = true)
    (hqs : qs.Pairwise fun p q => p.notAfter q = true)
    (h : ∀ p : Path, ps.filter p.sameSteps = qs.filter p.sameSteps) : ps = qs := by
  induction ps generalizing qs with
  | nil =>
    cases qs with
    | nil => rfl
    | cons q qs => cases (mem_iff_of_filter_eq (h q)).mpr List.mem_cons_self
  | cons p ps ih =>
    cases qs with
    | nil => cases (mem_iff_of_filter_eq (h p)).mp List.mem_cons_self
    | cons q qs =>
      obtain ⟨hp, hptail⟩ := List.pairwise_cons.mp hps
      obtain ⟨hq, hqtail⟩ := List.pairwise_cons.mp hqs
      -- neither head can stand after the other one, so they are of one class and both its first
      have hle : p.places ≤ q.places := by
        rcases List.mem_cons.mp ((mem_iff_of_filter_eq (h q)).mpr List.mem_cons_self) with
          rfl | hmem
        · exact le_refl _
        · exact notAfter_iff.mp (hp q hmem)
      have hge : q.places ≤ p.places := by
        rcases List.mem_cons.mp ((mem_iff_of_filter_eq (h p)).mp List.mem_cons_self) with
          rfl | hmem
        · exact le_refl _
        · exact notAfter_iff.mp (hq p hmem)
      have hsame : p.sameSteps q = true := sameSteps_iff.mpr (le_antisymm hle hge)
      have hhead := h p
      rw [List.filter_cons_of_pos p.sameSteps_self, List.filter_cons_of_pos hsame] at hhead
      obtain ⟨rfl, -⟩ := List.cons_eq_cons.mp hhead
      refine congrArg (p :: ·) (ih hptail hqtail fun r => ?_)
      have hr := h r
      rw [List.filter_cons, List.filter_cons] at hr
      split at hr
      · exact (List.cons_eq_cons.mp hr).2
      · exact hr

/-- Paths are sorted in the same way if there are the same ones of each class. -/
theorem distinct_congr {ps qs : List Path}
    (h : ∀ p : Path, ps.filter p.sameSteps = qs.filter p.sameSteps) :
    distinct ps = distinct qs := by
  refine congrArg dropRepeats (eq_of_filter_eq ?_ ?_ fun p => ?_)
  · exact List.pairwise_mergeSort notAfter_trans notAfter_total ps
  · exact List.pairwise_mergeSort notAfter_trans notAfter_total qs
  · exact (filter_mergeSort p ps).trans ((h p).trans (filter_mergeSort p qs).symm)

/-- Of paths that all take different steps at most one is of a class. -/
theorem length_filter_sameSteps_le {ps : List Path} (h : (ps.map places).Nodup) (p : Path) :
    (ps.filter p.sameSteps).length ≤ 1 := by
  have hnodup : ((ps.filter p.sameSteps).map places).Nodup := h.sublist (List.filter_sublist.map _)
  have hreplicate : (ps.filter p.sameSteps).map places =
      List.replicate (ps.filter p.sameSteps).length p.places := by
    rw [List.eq_replicate_iff, List.length_map]
    refine ⟨rfl, fun x hx => ?_⟩
    obtain ⟨q, hq, rfl⟩ := List.mem_map.mp hx
    exact (sameSteps_iff.mp (List.mem_filter.mp hq).2).symm
  rw [hreplicate] at hnodup
  exact List.nodup_replicate.mp hnodup

/-- If each search finds the same paths in any order, none twice, all together find the same. -/
theorem distinct_flatMap_congr {α : Type} {starts : List α} {f g : α → List Path}
    (hperm : ∀ s ∈ starts, (f s).Perm (g s)) (hnodup : ∀ s ∈ starts, ((f s).map places).Nodup) :
    distinct (starts.flatMap f) = distinct (starts.flatMap g) := by
  refine distinct_congr fun p => ?_
  rw [List.filter_flatMap, List.filter_flatMap]
  refine List.flatMap_congr fun s hs => ?_
  have hfilter := (hperm s hs).filter p.sameSteps
  have hle := length_filter_sameSteps_le (hnodup s hs) p
  match hlist : (f s).filter p.sameSteps with
  | [] => rw [hlist] at hfilter; exact hfilter.nil_eq
  | [q] => rw [hlist] at hfilter; exact (List.singleton_perm.mp hfilter)
  | _ :: _ :: _ => simp [hlist] at hle

/-! ## Paths that are compared alike -/

/-- Steps in front that are the same do not count. -/
theorem lex_append (cs as bs : List Component) :
    List.lex (cs ++ as) (cs ++ bs) Component.before = List.lex as bs Component.before := by
  induction cs with
  | nil => rfl
  | cons c cs ih =>
    have hself : c.before c = false :=
      Bool.eq_false_iff.mpr fun h => lt_irrefl _ (Component.before_iff.mp h)
    rw [List.cons_append, List.cons_append, List.cons_lex_cons, hself, Bool.false_or,
      beq_self_eq_true, Bool.true_and, ih]

/-- Paths made in two ways are sorted in the same way if they compare alike. -/
theorem exists_distinct_map {α : Type} {f g : α → Path} (xs : List α)
    (hbefore : ∀ x y, (f x).before (f y) = (g x).before (g y))
    (hsame : ∀ x y, (f x).sameSteps (f y) = (g x).sameSteps (g y)) :
    ∃ ys, ys ⊆ xs ∧ distinct (xs.map f) = ys.map f ∧ distinct (xs.map g) = ys.map g := by
  have hkept (zs : List α) :
      ∃ ys, ys ⊆ zs ∧ dropRepeats (zs.map f) = ys.map f ∧ dropRepeats (zs.map g) = ys.map g := by
    induction zs with
    | nil => exact ⟨[], List.Subset.refl _, rfl, rfl⟩
    | cons z zs ih =>
      obtain ⟨ys, hsub, hf, hg⟩ := ih
      rw [List.map_cons, List.map_cons, dropRepeats, dropRepeats, hf, hg]
      cases ys with
      | nil => exact ⟨[z], by simp, rfl, rfl⟩
      | cons y ys =>
        simp only [List.map_cons, ← hsame z y]
        split
        · exact ⟨z :: ys, List.cons_subset_cons z (List.subset_of_cons_subset hsub), rfl, rfl⟩
        · exact ⟨z :: y :: ys, List.cons_subset_cons z hsub, rfl, rfl⟩
  obtain ⟨ys, hsub, hf, hg⟩ := hkept (xs.mergeSort fun x y => !(f y).before (f x))
  have hsort (h : α → Path) (hh : ∀ x y, (f x).before (f y) = (h x).before (h y)) :
      distinct (xs.map h) = dropRepeats ((xs.mergeSort fun x y => !(f y).before (f x)).map h) :=
    (congrArg dropRepeats (List.map_mergeSort fun x _ y _ => congrArg Bool.not (hh y x))).symm
  exact ⟨ys, fun y hy => List.mem_mergeSort.mp (hsub hy), (hsort f fun _ _ => rfl).trans hf,
    (hsort g hbefore).trans hg⟩

/-! ## What is kept of a sorted list -/

/-- The first path stays, and of the others that stay the first one goes if it takes the same
steps. -/
theorem exists_dropRepeats_cons (p : Path) (ps : List Path) :
    ∃ rest, dropRepeats (p :: ps) = p :: rest ∧
      ((dropRepeats ps = rest ∧ ∀ q ∈ rest.head?, p.places ≠ q.places) ∨
        ∃ q, p.places = q.places ∧ dropRepeats ps = q :: rest) := by
  rw [dropRepeats]
  split
  · rename_i hnil
    exact ⟨[], rfl, Or.inl ⟨hnil, fun q hq => nomatch hq⟩⟩
  · rename_i q rest hrest
    split
    · rename_i hsame
      exact ⟨rest, rfl, Or.inr ⟨q, sameSteps_iff.mp hsame, hrest⟩⟩
    · rename_i hother
      refine ⟨q :: rest, rfl, Or.inl ⟨hrest, fun r hr => ?_⟩⟩
      obtain rfl : q = r := Option.some.inj hr
      exact fun heq => hother (sameSteps_iff.mpr heq)

theorem dropRepeats_sublist (ps : List Path) : (dropRepeats ps).Sublist ps := by
  induction ps with
  | nil => exact .refl _
  | cons p ps ih =>
    obtain ⟨rest, hcons, ⟨hrest, -⟩ | ⟨q, -, hrest⟩⟩ := exists_dropRepeats_cons p ps
    · rw [hcons, ← hrest]
      exact ih.cons_cons p
    · rw [hrest] at ih
      rw [hcons]
      exact ((List.sublist_cons_self q rest).trans ih).cons_cons p

theorem find?_dropRepeats (p : Path) (ps : List Path) :
    (dropRepeats ps).find? p.sameSteps = ps.find? p.sameSteps := by
  induction ps with
  | nil => rfl
  | cons q ps ih =>
    obtain ⟨rest, hcons, hrest⟩ := exists_dropRepeats_cons q ps
    rw [hcons]
    cases hq : p.sameSteps q with
    | true => rw [List.find?_cons_of_pos hq, List.find?_cons_of_pos hq]
    | false =>
      have hskip : ∀ {r qs}, q.places = r.places →
          (r :: qs).find? p.sameSteps = qs.find? p.sameSteps := by
        intro r qs hr
        refine List.find?_cons_of_neg ?_
        rw [sameSteps_iff, ← hr, ← sameSteps_iff, hq]
        exact Bool.false_ne_true
      rw [hskip rfl, hskip rfl, ← ih]
      rcases hrest with ⟨hrest, -⟩ | ⟨r, hsame, hrest⟩
      · rw [hrest]
      · rw [hrest, hskip hsame]

theorem pairwise_before_dropRepeats {ps : List Path}
    (h : ps.Pairwise fun p q => p.notAfter q = true) :
    (dropRepeats ps).Pairwise fun p q => p.before q = true := by
  induction ps with
  | nil => exact .nil
  | cons p ps ih =>
    obtain ⟨hp, hps⟩ := List.pairwise_cons.mp h
    obtain ⟨rest, hcons, hrest⟩ := exists_dropRepeats_cons p ps
    have hkept := ih hps
    rw [hcons, List.pairwise_cons]
    rcases hrest with ⟨hrest, hhead⟩ | ⟨q, hsame, hrest⟩
    · refine ⟨?_, hrest ▸ hkept⟩
      cases rest with
      | nil => exact List.forall_mem_nil _
      | cons q qs =>
        rw [hrest] at hkept
        obtain ⟨hq, -⟩ := List.pairwise_cons.mp hkept
        have hmem : q ∈ ps := (dropRepeats_sublist ps).subset (hrest ▸ List.mem_cons_self)
        have hlt : p.places < q.places := lt_of_le_of_ne (notAfter_iff.mp (hp q hmem)) (hhead q rfl)
        refine List.forall_mem_cons.mpr ⟨before_iff.mpr hlt, fun r hr => ?_⟩
        exact before_iff.mpr (hlt.trans (before_iff.mp (hq r hr)))
    · rw [hrest] at hkept
      obtain ⟨hq, hrest⟩ := List.pairwise_cons.mp hkept
      refine ⟨fun r hr => ?_, hrest⟩
      rw [before_iff, hsame]
      exact before_iff.mp (hq r hr)

/-- The paths of `distinct` are in strict order. -/
theorem pairwise_before_distinct (ps : List Path) :
    (distinct ps).Pairwise fun p q => p.before q = true :=
  pairwise_before_dropRepeats (List.pairwise_mergeSort notAfter_trans notAfter_total ps)

theorem find?_distinct (p : Path) (ps : List Path) :
    (distinct ps).find? p.sameSteps = ps.find? p.sameSteps := by
  have hsorted := congrArg List.head? (filter_mergeSort p ps)
  rw [List.head?_filter, List.head?_filter] at hsorted
  exact (find?_dropRepeats p _).trans hsorted

/-- In strict order a path is the only one that takes its steps. -/
theorem mem_iff_find?_of_pairwise {ps : List Path}
    (h : ps.Pairwise fun p q => p.before q = true) {p : Path} :
    p ∈ ps ↔ ps.find? p.sameSteps = some p := by
  refine ⟨fun hp => ?_, List.mem_of_find?_eq_some⟩
  induction ps with
  | nil => cases hp
  | cons q ps ih =>
    obtain ⟨hq, hps⟩ := List.pairwise_cons.mp h
    rcases List.mem_cons.mp hp with rfl | hmem
    · exact List.find?_cons_of_pos p.sameSteps_self
    · have hother : ¬p.sameSteps q = true := fun hsame =>
        (before_iff.mp (hq p hmem)).ne (sameSteps_iff.mp hsame).symm
      rw [List.find?_cons_of_neg hother]
      exact ih hps hmem

/-- Of the paths that take the same steps the first one given is kept. -/
theorem mem_distinct_iff {p : Path} {ps : List Path} :
    p ∈ distinct ps ↔ ps.find? p.sameSteps = some p := by
  rw [mem_iff_find?_of_pairwise (pairwise_before_distinct ps), find?_distinct]

theorem mem_of_mem_distinct {p : Path} {ps : List Path} (h : p ∈ distinct ps) : p ∈ ps :=
  List.mem_of_find?_eq_some (mem_distinct_iff.mp h)

/-- For each path given there is one with the same steps. -/
theorem exists_mem_distinct {p : Path} {ps : List Path} (h : p ∈ ps) :
    ∃ q ∈ distinct ps, q.components = p.components := by
  obtain ⟨q, hq⟩ := Option.isSome_iff_exists.mp
    (List.find?_isSome.mpr ⟨p, h, p.sameSteps_self⟩)
  have hsame : p.components = q.components := by simpa [sameSteps] using List.find?_some hq
  refine ⟨q, mem_distinct_iff.mpr ?_, hsame.symm⟩
  rw [← hq]
  refine congrArg (List.find? · ps) (funext fun r => ?_)
  rw [sameSteps, sameSteps, hsame]

/-- Lists in strict order are the same if they hold the same paths. -/
theorem eq_of_mem_iff {ps qs : List Path} (hps : ps.Pairwise fun p q => p.before q = true)
    (hqs : qs.Pairwise fun p q => p.before q = true) (h : ∀ p, p ∈ ps ↔ p ∈ qs) : ps = qs := by
  have hnodup {ps : List Path} (h : ps.Pairwise fun p q => p.before q = true) : ps.Nodup :=
    h.imp fun hlt heq => (before_iff.mp hlt).ne (congrArg places heq)
  refine List.Perm.eq_of_pairwise ?_ hps hqs
    ((List.perm_ext_iff_of_nodup (hnodup hps) (hnodup hqs)).mpr h)
  intro p q _ _ hlt hgt
  exact absurd (before_iff.mp hgt) (lt_asymm (before_iff.mp hlt))

/-- Paths in strict order are left as they are. -/
theorem distinct_eq_self {ps : List Path} (h : ps.Pairwise fun p q => p.before q = true) :
    distinct ps = ps :=
  eq_of_mem_iff (pairwise_before_distinct ps) h fun p => by
    rw [mem_distinct_iff, mem_iff_find?_of_pairwise h]

end CmsVariables.Path
