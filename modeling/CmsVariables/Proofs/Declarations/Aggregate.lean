import CmsVariables.Report
import CmsVariables.Run.Context
import CmsVariables.Proofs.Text.Order

/-!
# The declarations of many files

The declarations of each file are thinned out to the first one of each name, and so are those of all
files together, before they are sorted. Nothing is lost that way: what is left of a name is the
first declaration of that name in all files.

* `find?_firstByName`, `nodup_firstByName`: what `firstByName` keeps.
* `mem_aggregate_iff`, `pairwise_lt_aggregate`: what is in the list of many files, and its order.
* `listing_declarationsOf`: the list that some sources give, told from their annotations alone.
-/

namespace CmsVariables

open Annotations

namespace Declaration

variable {ds : List Declaration} {d : Declaration}

/-! ## The first declaration of each name -/

theorem find?_firstByName (ds : List Declaration) (name : String) :
    (firstByName ds).find? (·.name == name) = ds.find? (·.name == name) := by
  induction ds with
  | nil => rfl
  | cons d ds ih =>
    rw [firstByName, List.find?_cons, List.find?_cons]
    cases hd : d.name == name with
    | true => rfl
    | false =>
      have hkept : (fun e : Declaration => decide ((e.name != d.name) = true ∧
          (e.name == name) = true)) = fun e => e.name == name := by
        funext e
        by_cases he : e.name = name
        · have hne : e.name ≠ d.name := by
            intro heq
            rw [← heq, he, beq_self_eq_true] at hd
            cases hd
          simp [he, he ▸ hne]
        · simp [he]
      simp only
      rw [List.find?_filter, hkept, ih]

theorem nodup_firstByName (ds : List Declaration) : ((firstByName ds).map name).Nodup := by
  induction ds with
  | nil => exact List.nodup_nil
  | cons d ds ih =>
    rw [firstByName, List.map_cons, List.nodup_cons]
    refine ⟨?_, ih.sublist (List.filter_sublist.map _)⟩
    intro hmem
    obtain ⟨e, he, heq⟩ := List.mem_map.mp hmem
    have hne := (List.mem_filter.mp he).2
    simp [heq] at hne

theorem mem_iff_find?_of_nodup (h : (ds.map name).Nodup) :
    d ∈ ds ↔ ds.find? (·.name == d.name) = some d := by
  constructor
  · intro hd
    induction ds with
    | nil => cases hd
    | cons e ds ih =>
      rw [List.map_cons, List.nodup_cons] at h
      rcases List.mem_cons.mp hd with rfl | hd
      · simp
      · have hne : e.name ≠ d.name := fun heq => h.1 (heq ▸ List.mem_map_of_mem hd)
        rw [List.find?_cons_of_neg (by simpa using hne)]
        exact ih h.2 hd
  · exact List.mem_of_find?_eq_some

theorem mem_firstByName_iff : d ∈ firstByName ds ↔ ds.find? (·.name == d.name) = some d := by
  rw [mem_iff_find?_of_nodup (nodup_firstByName ds), find?_firstByName]

/-- Thinning out each of several lists first makes no difference. -/
theorem find?_flatten_firstByName (perFile : List (List Declaration)) (name : String) :
    (perFile.map firstByName).flatten.find? (·.name == name) =
      perFile.flatten.find? (·.name == name) := by
  induction perFile with
  | nil => rfl
  | cons ds perFile ih =>
    rw [List.map_cons, List.flatten_cons, List.flatten_cons, List.find?_append, List.find?_append,
      find?_firstByName, ih]

/-! ## Sorting -/

theorem aggregate_perm (perFile : List (List Declaration)) :
    (aggregate perFile).Perm (firstByName perFile.flatten) := List.mergeSort_perm _ _

theorem mem_aggregate_iff {perFile : List (List Declaration)} :
    d ∈ aggregate perFile ↔ perFile.flatten.find? (·.name == d.name) = some d := by
  rw [(aggregate_perm perFile).mem_iff, mem_firstByName_iff]

theorem pairwise_lt_aggregate (perFile : List (List Declaration)) :
    (aggregate perFile).Pairwise fun d e => d.name < e.name := by
  have hsorted : (aggregate perFile).Pairwise fun d e => decide (d.name ≤ e.name) = true := by
    refine List.pairwise_mergeSort ?_ ?_ _
    · intro d e f hde hef
      exact decide_eq_true (le_trans (of_decide_eq_true hde) (of_decide_eq_true hef))
    · intro d e
      rw [Bool.or_eq_true, decide_eq_true_iff, decide_eq_true_iff]
      exact le_total _ _
  have hnodup : ((aggregate perFile).map name).Nodup :=
    ((aggregate_perm perFile).map name).nodup_iff.mpr (nodup_firstByName _)
  have hne : (aggregate perFile).Pairwise fun d e => d.name ≠ e.name := List.pairwise_map.mp hnodup
  refine (hsorted.and hne).imp fun {d e} h => ?_
  exact lt_of_le_of_ne (of_decide_eq_true h.1) h.2

end Declaration

/-! ## Listing annotations -/

namespace Annotations

/-- The name of the variable that an annotation declares. -/
def Occurrence.variableName (a : Occurrence) : String := canonicalName a.rawName

/-- What a list of declarations has to be for annotations of some files. -/
structure Listing (as : List (Path × Occurrence)) (ds : List Declaration) : Prop where
  /-- The names are in the order of their bytes, and none is there twice. -/
  ascending : ds.Pairwise fun d e => d.name.toUTF8.data.toList < e.name.toUTF8.data.toList
  /-- A declaration is that of the first annotation with its name. -/
  first : ∀ d ∈ ds, ∃ x, as.find? (fun x => x.2.variableName == d.name) = some x ∧
    d.rawName = x.2.rawName ∧ d.content = x.2.content ∧ d.file = x.1
  complete : ∀ x ∈ as, ∃! d, d ∈ ds ∧ d.name = x.2.variableName

namespace Listing

variable {as : List (Path × Occurrence)} {ds es : List Declaration}

theorem mem_of_mem (h : Listing as ds) (h' : Listing as es) {d : Declaration} (hd : d ∈ ds) :
    d ∈ es := by
  obtain ⟨x, hx, hraw, hcontent, hfile⟩ := h.first d hd
  have hname : x.2.variableName = d.name := by simpa using List.find?_some hx
  obtain ⟨e, ⟨he, hename⟩, -⟩ := h'.complete x (List.mem_of_find?_eq_some hx)
  obtain ⟨y, hy, hraw', hcontent', hfile'⟩ := h'.first e he
  rw [hename, hname, hx] at hy
  obtain rfl := Option.some.inj hy
  have heq : d = e := by
    cases d
    cases e
    simp_all
  exact heq ▸ he

/-- Annotations have one listing at most. -/
theorem eq (h : Listing as ds) (h' : Listing as es) : ds = es := by
  have hnodup {ds : List Declaration} (h : Listing as ds) : ds.Nodup := by
    refine h.ascending.imp fun hlt heq => ?_
    rw [heq] at hlt
    exact List.lt_irrefl _ hlt
  have hperm : ds.Perm es := (List.perm_ext_iff_of_nodup (hnodup h) (hnodup h')).mpr fun d =>
    ⟨h.mem_of_mem h', h'.mem_of_mem h⟩
  refine List.Perm.eq_of_pairwise ?_ h.ascending h'.ascending hperm
  intro d e _ _ hlt hgt
  exact absurd hgt (List.lt_asymm hlt)

end Listing

end Annotations

namespace Run

/-- All annotations of some sources, source by source. -/
def annotationsOf (ss : List Source) : List (Path × Occurrence) :=
  ss.flatMap fun s => (find s.text).map fun a => (s.path, a)

theorem mem_annotationsOf_iff {ss : List Source} {x : Path × Occurrence} :
    x ∈ annotationsOf ss ↔ ∃ s ∈ ss, ∃ a ∈ find s.text, (s.path, a) = x := by
  simp only [annotationsOf, List.mem_flatMap, List.mem_map]

theorem flatten_extract (ss : List Source) (name : String) :
    (ss.map fun s => Declaration.extract s.text s.path).flatten.find? (·.name == name) =
      ((annotationsOf ss).map fun x => Declaration.ofOccurrence x.1 x.2).find?
        (·.name == name) := by
  have hextract : (ss.map fun s => Declaration.extract s.text s.path) =
      (ss.map fun s => (find s.text).map (Declaration.ofOccurrence s.path)).map
        Declaration.firstByName := by
    rw [List.map_map]
    rfl
  have hall : (annotationsOf ss).map (fun x => Declaration.ofOccurrence x.1 x.2) =
      (ss.map fun s => (find s.text).map (Declaration.ofOccurrence s.path)).flatten := by
    rw [annotationsOf, List.map_flatMap, List.flatMap_def]
    simp only [List.map_map]
    rfl
  rw [hextract, Declaration.find?_flatten_firstByName, hall]

/-- A declaration is listed if it is that of the first annotation with its name. -/
theorem mem_declarationsOf_iff {ss : List Source} {d : Declaration} :
    d ∈ declarationsOf ss ↔
      ∃ x, (annotationsOf ss).find? (fun x => x.2.variableName == d.name) = some x ∧
        d = .ofOccurrence x.1 x.2 := by
  rw [declarationsOf, Declaration.mem_aggregate_iff, flatten_extract, List.find?_map,
    Option.map_eq_some_iff]
  exact exists_congr fun x => and_congr_right fun _ => eq_comm

theorem listing_declarationsOf (ss : List Source) :
    Listing (annotationsOf ss) (declarationsOf ss) where
  ascending := (Declaration.pairwise_lt_aggregate _).imp Text.toUTF8_lt_iff.mpr
  first d hd := by
    obtain ⟨x, hx, heq⟩ := mem_declarationsOf_iff.mp hd
    refine ⟨x, hx, ?_⟩
    rw [heq]
    exact ⟨rfl, rfl, rfl⟩
  complete x hx := by
    obtain ⟨y, hy⟩ : ∃ y, (annotationsOf ss).find?
        (fun y => y.2.variableName == x.2.variableName) = some y :=
      Option.isSome_iff_exists.mp (List.find?_isSome.mpr ⟨x, hx, beq_self_eq_true _⟩)
    have hname : y.2.variableName = x.2.variableName := by simpa using List.find?_some hy
    refine ⟨.ofOccurrence y.1 y.2, ⟨mem_declarationsOf_iff.mpr ⟨y, ?_, rfl⟩, hname⟩, ?_⟩
    · rw [← hy, ← hname]
      rfl
    · rintro d ⟨hd, hdname⟩
      obtain ⟨z, hz, rfl⟩ := mem_declarationsOf_iff.mp hd
      rw [hdname, hy] at hz
      rw [Option.some.inj hz]

end Run

end CmsVariables
