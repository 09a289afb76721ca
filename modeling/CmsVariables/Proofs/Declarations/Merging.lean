import CmsVariables.Path.Order
import CmsVariables.Proofs.Declarations.Aggregate
import Mathlib.Data.List.Forall2
import Mathlib.Data.List.Sort

/-!
# Merging declarations

What counts in a list of many files is the first declaration of each name, and the order of names
does the rest: two lists are the same if and only if the same declaration counts for each name. So
the declarations can be merged in pieces, and the order of files matters for those names only that
several files declare.

* `find?_aggregate`, `names_aggregate_eq`: what is listed for a name, and which names are listed.
* `forall₂_iff_find?`: two lists with the same names, compared name by name.
* `aggregate_eq_iff`: what a list of many files is told by.
* `aggregate_pieces`: merging in pieces.
* `aggregate_reordered`: what the order of files can change.
-/

namespace CmsVariables.Declaration

variable {xs ys : List (List Declaration)} {ds es : List Declaration} {n : String}

/-! ## What counts for a name -/

/-- What is listed for a name is its first declaration. -/
theorem find?_aggregate (xs : List (List Declaration)) (n : String) :
    (aggregate xs).find? (·.name == n) = xs.flatten.find? (·.name == n) := by
  cases h : (aggregate xs).find? (·.name == n) with
  | some d =>
    have hname : d.name = n := by simpa using List.find?_some h
    rw [← hname]
    exact (mem_aggregate_iff.mp (List.mem_of_find?_eq_some h)).symm
  | none =>
    cases hfirst : xs.flatten.find? (·.name == n) with
    | none => rfl
    | some e =>
      have hname : e.name = n := by simpa using List.find?_some hfirst
      have hmem : e ∈ aggregate xs := by
        rw [mem_aggregate_iff, hname]
        exact hfirst
      exact absurd (beq_iff_eq.mpr hname) (List.find?_eq_none.mp h e hmem)

theorem mem_names_iff : n ∈ ds.map name ↔ (ds.find? (·.name == n)).isSome = true := by
  simp [List.find?_isSome]

theorem mem_names_aggregate_iff : n ∈ (aggregate xs).map name ↔ n ∈ xs.flatten.map name := by
  rw [mem_names_iff, find?_aggregate, ← mem_names_iff]

/-- The names that are listed depend on nothing else than which names are declared. -/
theorem names_aggregate_eq (h : ∀ n, n ∈ xs.flatten.map name ↔ n ∈ ys.flatten.map name) :
    (aggregate xs).map name = (aggregate ys).map name := by
  refine List.Pairwise.eq_of_mem_iff (List.pairwise_map.mpr (pairwise_lt_aggregate xs))
    (List.pairwise_map.mpr (pairwise_lt_aggregate ys)) fun n => ?_
  rw [mem_names_aggregate_iff, mem_names_aggregate_iff, h]

/-! ## Comparing name by name -/

/-- Declarations in the order of the same names, of which none is there twice, are related if those
of each name are. -/
theorem forall₂_iff_find? {R : Declaration → Declaration → Prop}
    (hnames : ds.map name = es.map name) (hnodup : (ds.map name).Nodup) :
    List.Forall₂ R ds es ↔
      ∀ n, Option.Rel R (ds.find? (·.name == n)) (es.find? (·.name == n)) := by
  induction ds generalizing es with
  | nil =>
    obtain rfl : es = [] := List.map_eq_nil_iff.mp hnames.symm
    exact iff_of_true .nil fun _ => .none
  | cons d ds ih =>
    obtain ⟨e, es, rfl⟩ : ∃ e tail, es = e :: tail := by
      cases es with
      | nil => cases hnames
      | cons e es => exact ⟨e, es, rfl⟩
    rw [List.map_cons, List.map_cons, List.cons_eq_cons] at hnames
    obtain ⟨hname, hrest⟩ := hnames
    rw [List.map_cons, List.nodup_cons] at hnodup
    obtain ⟨hnotMem, hnodup⟩ := hnodup
    rw [List.forall₂_cons, ih hrest hnodup]
    constructor
    · rintro ⟨hhead, htail⟩ n
      by_cases hn : d.name = n
      · rw [List.find?_cons_of_pos (by simpa using hn),
          List.find?_cons_of_pos (by simpa [← hname] using hn)]
        exact .some hhead
      · rw [List.find?_cons_of_neg (by simpa using hn),
          List.find?_cons_of_neg (by simpa [← hname] using hn)]
        exact htail n
    · intro h
      constructor
      · have hhead := h d.name
        rw [List.find?_cons_of_pos (by simp), List.find?_cons_of_pos (by simp [hname])] at hhead
        cases hhead with
        | some hhead => exact hhead
      · intro n
        by_cases hn : d.name = n
        · -- the name of the first declaration is not there again
          subst hn
          have hds := Option.not_isSome_iff_eq_none.mp (hnotMem ∘ mem_names_iff.mpr)
          rw [hrest] at hnotMem
          have hes := Option.not_isSome_iff_eq_none.mp (hnotMem ∘ mem_names_iff.mpr)
          rw [hds, hes]
          exact .none
        · have htail := h n
          rwa [List.find?_cons_of_neg (by simpa using hn),
            List.find?_cons_of_neg (by simpa [← hname] using hn)] at htail

theorem option_rel_eq_iff {a b : Option Declaration} : Option.Rel Eq a b ↔ a = b := by
  constructor
  · intro h
    cases h with
    | some h => exact congrArg some h
    | none => rfl
  · rintro rfl
    cases a with
    | none => exact .none
    | some d => exact .some rfl

/-- Lists of many files with the same names are compared by what counts for each name. -/
theorem forall₂_aggregate_iff {R : Declaration → Declaration → Prop}
    (h : ∀ n, n ∈ xs.flatten.map name ↔ n ∈ ys.flatten.map name) :
    List.Forall₂ R (aggregate xs) (aggregate ys) ↔
      ∀ n, Option.Rel R (xs.flatten.find? (·.name == n)) (ys.flatten.find? (·.name == n)) := by
  have hnodup : ((aggregate xs).map name).Nodup :=
    List.pairwise_map.mpr ((pairwise_lt_aggregate xs).imp ne_of_lt)
  simp only [forall₂_iff_find? (names_aggregate_eq h) hnodup, find?_aggregate]

/-- Two lists of many files are the same if the same declaration counts for each name. -/
theorem aggregate_eq_iff :
    aggregate xs = aggregate ys ↔
      ∀ n, xs.flatten.find? (·.name == n) = ys.flatten.find? (·.name == n) := by
  constructor
  · intro h n
    rw [← find?_aggregate, h, find?_aggregate]
  · intro h
    have hnames : ∀ n, n ∈ xs.flatten.map name ↔ n ∈ ys.flatten.map name := fun n => by
      rw [mem_names_iff, mem_names_iff, h]
    rw [← List.forall₂_eq_eq_eq, forall₂_aggregate_iff hnames]
    exact fun n => option_rel_eq_iff.mpr (h n)

/-! ## Merging in pieces -/

theorem aggregate_append (xs ys : List (List Declaration)) :
    aggregate (xs ++ ys) = aggregate [aggregate xs, aggregate ys] := by
  refine aggregate_eq_iff.mpr fun n => ?_
  rw [List.flatten_append, List.find?_append, List.flatten_cons, List.flatten_cons,
    List.flatten_nil, List.append_nil, List.find?_append, find?_aggregate, find?_aggregate]

/-- Declarations of names that are declared already change nothing. -/
theorem aggregate_append_of_names_subset
    (h : ∀ n ∈ ys.flatten.map name, n ∈ xs.flatten.map name) :
    aggregate (xs ++ ys) = aggregate xs := by
  refine aggregate_eq_iff.mpr fun n => ?_
  rw [List.flatten_append, List.find?_append]
  cases hfirst : xs.flatten.find? (·.name == n) with
  | some d => rfl
  | none =>
    rw [Option.none_or, ← Option.not_isSome_iff_eq_none, ← mem_names_iff]
    intro hmem
    have hsome := mem_names_iff.mp (h n hmem)
    rw [hfirst] at hsome
    cases hsome

/-- Declarations can be merged in pieces: the lists of two pieces are merged like the pieces, each
piece may be thinned out to the first declaration of each name or be divided differently, and what
declares nothing new changes nothing. -/
theorem aggregate_pieces (xs ys : List (List Declaration)) :
    aggregate (xs ++ ys) = aggregate [aggregate xs, aggregate ys] ∧
      aggregate (xs.map firstByName) = aggregate xs ∧
      (∀ zs : List (List Declaration), zs.flatten = xs.flatten → aggregate zs = aggregate xs) ∧
      ((∀ n ∈ ys.flatten.map name, n ∈ xs.flatten.map name) →
        aggregate (xs ++ ys) = aggregate xs) ∧
      aggregate (xs ++ xs) = aggregate xs := by
  refine ⟨aggregate_append xs ys, ?_, ?_, aggregate_append_of_names_subset,
    aggregate_append_of_names_subset fun _ hn => hn⟩
  · exact aggregate_eq_iff.mpr (find?_flatten_firstByName xs)
  · intro zs hflatten
    exact aggregate_eq_iff.mpr fun n => by rw [hflatten]

/-- What a file declares that has one name twice. -/
def earlier : List Declaration :=
  [ofRaw "std_x" "1" (.ofText "a.js"), ofRaw "std_X" "2" (.ofText "a.js")]

/-- What another file declares, the name of the first file among it. -/
def later : List Declaration :=
  [ofRaw "anc_y" "3" (.ofText "b.js"), ofRaw "std_x" "4" (.ofText "b.js")]

theorem aggregate_pieces_sharedName :
    [earlier ++ later].flatten = [earlier, later].flatten ∧
      aggregate [earlier ++ later] = aggregate [earlier, later] ∧
      (∀ n ∈ [earlier].flatten.map name, n ∈ [later].flatten.map name) ∧
      aggregate ([later] ++ [earlier]) = aggregate [later] := by
  obtain ⟨-, -, hregrouped, -, -⟩ := aggregate_pieces [earlier, later] []
  obtain ⟨-, -, -, hknown, -⟩ := aggregate_pieces [later] [earlier]
  have hflatten : [earlier ++ later].flatten = [earlier, later].flatten := rfl
  have hnames : ∀ n ∈ [earlier].flatten.map name, n ∈ [later].flatten.map name := by
    decide +kernel
  exact ⟨hflatten, hregrouped _ hflatten, hnames, hknown hnames⟩

/-! ## The first list that has a name -/

/-- The list has a declaration of the name. -/
def declares (n : String) (ds : List Declaration) : Bool := ds.any (·.name == n)

/-- The first declaration of the name in the first list that has one. -/
def first? (n : String) (xs : List (List Declaration)) : Option Declaration :=
  (xs.find? (declares n)).bind fun ds => ds.find? (·.name == n)

theorem declares_iff : declares n ds = true ↔ (ds.find? (·.name == n)).isSome = true := by
  rw [declares, List.any_eq_true, List.find?_isSome]

theorem find?_flatten_eq_first? (n : String) (xs : List (List Declaration)) :
    xs.flatten.find? (·.name == n) = first? n xs := by
  induction xs with
  | nil => rfl
  | cons ds xs ih =>
    rw [List.flatten_cons, List.find?_append, ih, first?, first?]
    by_cases hds : declares n ds = true
    · obtain ⟨d, hd⟩ := Option.isSome_iff_exists.mp (declares_iff.mp hds)
      rw [List.find?_cons_of_pos hds, Option.bind_some, hd, Option.some_or]
    · have hnone := Option.not_isSome_iff_eq_none.mp (hds ∘ declares_iff.mpr)
      rw [List.find?_cons_of_neg hds, hnone, Option.none_or]

/-- In any order of some lists the first one that has a name is the same, if no other one has it. -/
theorem first?_of_perm (h : xs.Perm ys) (hn : xs.countP (declares n) ≤ 1) :
    first? n xs = first? n ys := by
  have hfilter := h.filter (declares n)
  have heq : xs.filter (declares n) = ys.filter (declares n) := by
    rw [List.countP_eq_length_filter] at hn
    rcases Nat.le_one_iff_eq_zero_or_eq_one.mp hn with hnone | hone
    · rw [List.length_eq_zero_iff.mp hnone] at hfilter ⊢
      exact (List.nil_perm.mp hfilter).symm
    · obtain ⟨ds, hds⟩ := List.length_eq_one_iff.mp hone
      rw [hds] at hfilter ⊢
      exact List.singleton_perm.mp hfilter
  rw [first?, first?, ← List.head?_filter, ← List.head?_filter, heq]

/-! ## Files in another order -/

theorem mem_names_iff_of_perm (h : xs.Perm ys) (n : String) :
    n ∈ xs.flatten.map name ↔ n ∈ ys.flatten.map name :=
  (h.flatten.map name).mem_iff

/-- The lists of files in two orders are related if what counts is, for each name that several files
declare. Any other name has the same declaration in both. -/
theorem forall₂_aggregate_iff_of_perm {R : Declaration → Declaration → Prop} (hR : ∀ d, R d d)
    (h : xs.Perm ys) :
    List.Forall₂ R (aggregate xs) (aggregate ys) ↔
      ∀ n, 1 < xs.countP (declares n) → Option.Rel R (first? n xs) (first? n ys) := by
  rw [forall₂_aggregate_iff (mem_names_iff_of_perm h)]
  refine forall_congr' fun n => ?_
  rw [find?_flatten_eq_first?, find?_flatten_eq_first?]
  refine ⟨fun hrel _ => hrel, fun hrel => ?_⟩
  by_cases hn : 1 < xs.countP (declares n)
  · exact hrel hn
  · rw [first?_of_perm h (Nat.le_of_not_lt hn)]
    cases first? n ys with
    | none => exact .none
    | some d => exact .some (hR d)

/-- The same declaration, in a file with a path that may be spelled differently. -/
def Alike (d e : Declaration) : Prop :=
  d.rawName = e.rawName ∧ d.content = e.content ∧ d.file.sameSteps e.file = true

theorem Alike.refl (d : Declaration) : d.Alike d := ⟨rfl, rfl, beq_self_eq_true _⟩

/-- What the order of files can change. The names are the same in any order, and so is the
declaration of a name that only one file declares. All is the same if and only if, for each name
that several files declare, the first of them in either order begins with the same declaration of
it; and likewise if paths are compared by their steps. -/
theorem aggregate_reordered (h : xs.Perm ys) :
    (aggregate xs).map name = (aggregate ys).map name ∧
      (∀ n, xs.countP (declares n) = 1 →
        ∃ d, (aggregate xs).find? (·.name == n) = some d ∧
          (aggregate ys).find? (·.name == n) = some d) ∧
      (aggregate xs = aggregate ys ↔
        ∀ n, 1 < xs.countP (declares n) → first? n xs = first? n ys) ∧
      (List.Forall₂ Alike (aggregate xs) (aggregate ys) ↔
        ∀ n, 1 < xs.countP (declares n) → Option.Rel Alike (first? n xs) (first? n ys)) := by
  refine ⟨names_aggregate_eq (mem_names_iff_of_perm h), ?_, ?_,
    forall₂_aggregate_iff_of_perm Alike.refl h⟩
  · intro n hn
    obtain ⟨ds, hds, hdeclares⟩ := List.countP_pos_iff.mp (hn ▸ Nat.one_pos)
    obtain ⟨d, hd⟩ := Option.isSome_iff_exists.mp (declares_iff.mp hdeclares)
    have hmem : n ∈ xs.flatten.map name := by
      refine List.mem_map.mpr ⟨d, List.mem_flatten.mpr ⟨ds, hds, List.mem_of_find?_eq_some hd⟩, ?_⟩
      simpa using List.find?_some hd
    obtain ⟨e, he⟩ := Option.isSome_iff_exists.mp (mem_names_iff.mp hmem)
    refine ⟨e, by rw [find?_aggregate, he], ?_⟩
    rw [find?_aggregate, ← he, find?_flatten_eq_first?, find?_flatten_eq_first?,
      first?_of_perm h hn.le]
  · have hiff := forall₂_aggregate_iff_of_perm (R := Eq) (fun _ => rfl) h
    simp only [List.forall₂_eq_eq_eq, option_rel_eq_iff] at hiff
    exact hiff

/-- Both orders list the same names and the same declaration of the one that only one file declares,
but not the same declaration of the other one. -/
theorem aggregate_reordered_sharedName :
    [earlier, later].Perm [later, earlier] ∧
      (aggregate [earlier, later]).map name = (aggregate [later, earlier]).map name ∧
      [earlier, later].countP (declares "anc_y") = 1 ∧
      (∃ d, (aggregate [earlier, later]).find? (·.name == "anc_y") = some d ∧
        (aggregate [later, earlier]).find? (·.name == "anc_y") = some d) ∧
      1 < [earlier, later].countP (declares "std_x") ∧
      aggregate [earlier, later] ≠ aggregate [later, earlier] := by
  have hperm : [earlier, later].Perm [later, earlier] := .swap later earlier []
  obtain ⟨hnames, hsole, hequal, -⟩ := aggregate_reordered hperm
  have hy : [earlier, later].countP (declares "anc_y") = 1 := by decide +kernel
  have hx : 1 < [earlier, later].countP (declares "std_x") := by decide +kernel
  have hfirst : first? "std_x" [earlier, later] ≠ first? "std_x" [later, earlier] := by
    decide +kernel
  exact ⟨hperm, hnames, hy, hsole "anc_y" hy, hx, fun h => hfirst (hequal.mp h "std_x" hx)⟩

end CmsVariables.Declaration
