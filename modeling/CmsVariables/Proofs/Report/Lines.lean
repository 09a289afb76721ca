import CmsVariables.Proofs.Declarations.Aggregate
import CmsVariables.Proofs.Annotations.Scan
import CmsVariables.Proofs.Rewriting.Placeholder
import Mathlib.Data.List.Dedup

/-!
# The lines of a listing

A listing joins its lines with line ends. Splitting it gives these lines back where none of them
holds a line end itself. Contents never do, but the name of a variable can be written over several
lines, and then its assignment takes more than one line as well.

* `Report.linesOf_joinLines`: the lines of lines that are joined.
* `Report.count_line`: the line ends within the line of a declaration.
* `Report.lists_render`: a listing has a segment for each declaration, which begins with its
  assignment.
* `Run.declarations_listed`: what a listing holds, in which order.
* `Run.oneLineEach_iff`: when there is one line for each variable.
-/

namespace CmsVariables

open Annotations

namespace Report

/-! ## Splitting a text into lines -/

/-- The texts between the line ends of a text. -/
def linesOf (s : String) : List String := (s.split '\n').toList.map (·.copy)

theorem linesOf_eq (s : String) : linesOf s = (s.toList.splitOn '\n').map String.ofList :=
  String.toList_split_char

theorem linesOf_of_notMem {s : String} (h : '\n' ∉ s.toList) : linesOf s = [s] := by
  rw [linesOf_eq, List.splitOn_eq_singleton h, List.map_singleton, String.ofList_toList]

theorem flatMap_linesOf {ls : List String} (h : ∀ l ∈ ls, '\n' ∉ l.toList) :
    ls.flatMap linesOf = ls := by
  induction ls with
  | nil => rfl
  | cons l ls ih =>
    obtain ⟨hl, hls⟩ := List.forall_mem_cons.mp h
    rw [List.flatMap_cons, linesOf_of_notMem hl, ih hls, List.singleton_append]

theorem linesOf_joinLines {ls : List String} (h : ls ≠ []) :
    linesOf (joinLines ls) = ls.flatMap linesOf := by
  induction ls with
  | nil => exact absurd rfl h
  | cons l ls ih =>
    cases ls with
    | nil => simp [joinLines]
    | cons m ls =>
      have hjoin : (joinLines (l :: m :: ls)).toList =
          l.toList ++ '\n' :: (joinLines (m :: ls)).toList := by
        simp [joinLines, String.intercalate_cons_cons]
      have hrest := ih (List.cons_ne_nil m ls)
      rw [linesOf_eq] at hrest
      rw [linesOf_eq, hjoin, List.splitOn_append_cons_self, List.map_append, hrest, ← linesOf_eq]
      rfl

theorem length_splitOn (cs : List Char) : (cs.splitOn '\n').length = cs.count '\n' + 1 := by
  induction cs with
  | nil => rfl
  | cons c cs ih =>
    rw [List.splitOn_cons_eq_if_modifyHead]
    by_cases hc : c = '\n'
    · simp [hc, ih]
    · simp [hc, ih]

theorem length_linesOf (s : String) : (linesOf s).length = s.toList.count '\n' + 1 := by
  rw [linesOf_eq, List.length_map, length_splitOn]

/-! ## The line of a declaration -/

theorem displayPath_suffix (file : Path) (base : Option Path) :
    (displayPath file base).toList <:+ file.text.toList := by
  cases base with
  | none => exact List.suffix_refl _
  | some b =>
    rw [displayPath, withoutFront]
    split
    · rw [String.toList_ofList]
      exact List.drop_suffix _ _
    · exact List.suffix_refl _

theorem count_padded (s : String) (width : Nat) :
    (padded s width).toList.count '\n' = s.toList.count '\n' := by
  simp [padded, List.count_replicate]

theorem assignment_prefix_line (w : Widths) (base : Option Path) (d : Declaration) :
    d.assignment.toList <+: (line w base d).toList := by
  simp [line, padded]

/-- An assignment holds the name twice; so a line has the line ends of its name twice. -/
theorem count_line {w : Widths} {base : Option Path} {d : Declaration}
    (hcontent : '\n' ∉ d.content.toList) (hfile : '\n' ∉ d.file.text.toList) :
    (line w base d).toList.count '\n' = 2 * d.name.toList.count '\n' := by
  have hpath : '\n' ∉ (displayPath d.file base).toList := fun hmem =>
    hfile ((displayPath_suffix d.file base).subset hmem)
  have hassignment : d.assignment.toList.count '\n' = 2 * d.name.toList.count '\n' := by
    simp only [Declaration.assignment, String.toList_append, List.count_append]
    have hopen : "=\"<%".toList.count '\n' = 0 := by decide
    have hclose : "%>\"".toList.count '\n' = 0 := by decide
    omega
  have hmark : commentMark.toList.count '\n' = 0 := by decide
  simp only [line, String.toList_append, List.count_append, count_padded, hassignment, hmark,
    List.count_eq_zero.mpr hcontent, List.count_eq_zero.mpr hpath, Nat.add_zero]

/-- The columns are as wide wherever files are shown from. -/
theorem exists_bodyLines_eq (ds : List Declaration) :
    ∃ w, (ds ≠ [] → Widths.measure? ds = some w) ∧
      ∀ base, bodyLines ds base = ds.map (line w base) := by
  unfold bodyLines
  cases hmeasure : Widths.measure? ds with
  | some w => exact ⟨w, fun _ => rfl, fun _ => rfl⟩
  | none =>
    cases ds with
    | nil => exact ⟨⟨0, 0⟩, fun h => absurd rfl h, fun _ => rfl⟩
    | cons d ds => simp [Widths.measure?, widest?, List.max?] at hmeasure

/-- A text lists declarations: between the lines of head and foot there is a segment for each of
them, in their order, that begins with its assignment. -/
def Lists (head foot : List String) (ds : List Declaration) (text : String) : Prop :=
  ∃ segments, List.Forall₂ (fun d s => d.assignment.toList <+: s.toList) ds segments ∧
    text = "\n".intercalate (head ++ segments ++ foot)

theorem lists_render (ds : List Declaration) (layout : Layout) :
    Lists layout.head layout.foot ds (render ds layout) := by
  obtain ⟨w, -, hw⟩ := exists_bodyLines_eq ds
  refine ⟨ds.map (line w layout.base), ?_, by rw [render, hw, joinLines]⟩
  rw [List.forall₂_map_right_iff, List.forall₂_same]
  exact fun d _ => assignment_prefix_line w layout.base d

end Report

/-! ## The listing of some sources -/

namespace Run

theorem exists_annotation {ss : List Source} {d : Declaration} (hd : d ∈ declarationsOf ss) :
    ∃ s ∈ ss, ∃ a ∈ find s.text, d = .ofOccurrence s.path a := by
  obtain ⟨x, hx, rfl⟩ := mem_declarationsOf_iff.mp hd
  obtain ⟨s, hs, a, ha, rfl⟩ := mem_annotationsOf_iff.mp (List.mem_of_find?_eq_some hx)
  exact ⟨s, hs, a, ha, rfl⟩

theorem newline_notMem_content {text : String} {a : Occurrence} (h : a ∈ find text) :
    '\n' ∉ a.content.toList := by
  intro hmem
  exact absurd ((chars_of_mem_find h).2 _ hmem) (by decide)

theorem newline_mem_variableName_iff {text : String} {a : Occurrence} (h : a ∈ find text) :
    '\n' ∈ a.variableName.toList ↔ '\n' ∈ a.rawName.toList := by
  have hnewline := newline_mem_canonicalName (chars_of_mem_find h).1
  rwa [String.ofList_toList] at hnewline

theorem newline_mem_annotation_iff {ss : List Source} {x : Path × Occurrence}
    (h : x ∈ annotationsOf ss) :
    '\n' ∈ x.2.variableName.toList ↔ '\n' ∈ x.2.rawName.toList := by
  obtain ⟨s, -, a, ha, rfl⟩ := mem_annotationsOf_iff.mp h
  exact newline_mem_variableName_iff ha

theorem mem_names_declarationsOf_iff {ss : List Source} {n : String} :
    n ∈ (declarationsOf ss).map Declaration.name ↔
      n ∈ (annotationsOf ss).map fun x => x.2.variableName := by
  have hlisting := listing_declarationsOf ss
  constructor
  · intro hn
    obtain ⟨d, hd, rfl⟩ := List.mem_map.mp hn
    obtain ⟨x, hx, -⟩ := hlisting.first d hd
    have hname : x.2.variableName = d.name := by simpa using List.find?_some hx
    exact List.mem_map.mpr ⟨x, List.mem_of_find?_eq_some hx, hname⟩
  · intro hn
    obtain ⟨x, hx, rfl⟩ := List.mem_map.mp hn
    obtain ⟨d, ⟨hd, hname⟩, -⟩ := hlisting.complete x hx
    exact List.mem_map.mpr ⟨d, hd, hname⟩

/-- The names under which some sources declare variables. -/
def variablesOf (ss : List Source) : List String :=
  ((annotationsOf ss).map fun x => x.2.variableName).dedup

theorem length_variablesOf (ss : List Source) :
    (variablesOf ss).length = (declarationsOf ss).length := by
  have hnodup : ((declarationsOf ss).map Declaration.name).Nodup := by
    rw [List.Nodup, List.pairwise_map]
    exact (Declaration.pairwise_lt_aggregate _).imp ne_of_lt
  have hperm : (variablesOf ss).Perm ((declarationsOf ss).map Declaration.name) := by
    refine (List.perm_ext_iff_of_nodup (List.nodup_dedup _) hnodup).mpr fun n => ?_
    rw [mem_names_declarationsOf_iff]
    exact List.mem_dedup
  rw [hperm.length_eq, List.length_map]

/-- Neither head nor foot nor the paths of the sources have a line end, and something is printed. -/
structure PlainLayout (ss : List Source) (layout : Report.Layout) : Prop where
  head : ∀ l ∈ layout.head, '\n' ∉ l.toList
  foot : ∀ l ∈ layout.foot, '\n' ∉ l.toList
  files : ∀ s ∈ ss, '\n' ∉ s.path.text.toList
  some_line : layout.head.length + (variablesOf ss).length + layout.foot.length ≠ 0

/-- There is one line for each variable between head and foot, and it begins with its assignment. -/
structure OneLineEach (ss : List Source) (layout : Report.Layout) : Prop where
  length : (Report.linesOf (Report.render (declarationsOf ss) layout)).length =
    layout.head.length + (variablesOf ss).length + layout.foot.length
  begins : ∀ k d, (declarationsOf ss)[k]? = some d →
    ∃ l, (Report.linesOf (Report.render (declarationsOf ss) layout))[layout.head.length + k]? =
      some l ∧ d.assignment.toList <+: l.toList

theorem linesOf_render {ss : List Source} {layout : Report.Layout} (h : PlainLayout ss layout) :
    ∃ w, Report.linesOf (Report.render (declarationsOf ss) layout) =
      layout.head ++
        (declarationsOf ss).flatMap (fun d => Report.linesOf (Report.line w layout.base d)) ++
        layout.foot := by
  obtain ⟨w, -, hw⟩ := Report.exists_bodyLines_eq (declarationsOf ss)
  have hsome := h.some_line
  rw [length_variablesOf] at hsome
  have hne : layout.head ++ (declarationsOf ss).map (Report.line w layout.base) ++ layout.foot ≠
      [] := by
    intro hnil
    have hlength := congrArg List.length hnil
    simp only [List.length_append, List.length_map, List.length_nil] at hlength
    exact hsome hlength
  refine ⟨w, ?_⟩
  rw [Report.render, hw, Report.linesOf_joinLines hne, List.flatMap_append, List.flatMap_append,
    Report.flatMap_linesOf h.head, Report.flatMap_linesOf h.foot, List.flatMap_map]

theorem count_line_declaration {ss : List Source} {layout : Report.Layout}
    (h : PlainLayout ss layout) {d : Declaration} (hd : d ∈ declarationsOf ss)
    (w : Report.Widths) :
    (Report.line w layout.base d).toList.count '\n' = 2 * d.name.toList.count '\n' := by
  obtain ⟨s, hs, a, ha, rfl⟩ := exists_annotation hd
  exact Report.count_line (newline_notMem_content ha) (h.files s hs)

/-- A listing has one line for each variable, and two more for each line end in its name. -/
theorem length_linesOf_render {ss : List Source} {layout : Report.Layout}
    (h : PlainLayout ss layout) :
    (Report.linesOf (Report.render (declarationsOf ss) layout)).length =
      layout.head.length +
        ((variablesOf ss).length +
          2 * ((declarationsOf ss).flatMap fun d => d.name.toList).count '\n') +
        layout.foot.length := by
  obtain ⟨w, hw⟩ := linesOf_render h
  have hbody (ds : List Declaration) (hds : ∀ d ∈ ds, d ∈ declarationsOf ss) :
      (ds.flatMap fun d => Report.linesOf (Report.line w layout.base d)).length =
        ds.length + 2 * (ds.flatMap fun d => d.name.toList).count '\n' := by
    induction ds with
    | nil => rfl
    | cons d ds ih =>
      obtain ⟨hd, hds⟩ := List.forall_mem_cons.mp hds
      rw [List.flatMap_cons, List.length_append, Report.length_linesOf,
        count_line_declaration h hd, ih hds, List.flatMap_cons, List.count_append,
        List.length_cons]
      omega
  rw [hw, List.length_append, List.length_append, hbody _ fun _ hd => hd, length_variablesOf]

/-- No name is written over several lines. -/
def SingleLineNames (ss : List Source) : Prop :=
  ∀ x ∈ annotationsOf ss, '\n' ∉ x.2.rawName.toList

theorem singleLineNames_iff {ss : List Source} :
    SingleLineNames ss ↔ ∀ d ∈ declarationsOf ss, '\n' ∉ d.name.toList := by
  have hnames (P : String → Prop) : (∀ x ∈ annotationsOf ss, P x.2.variableName) ↔
      ∀ d ∈ declarationsOf ss, P d.name := by
    have hmem (n : String) : n ∈ (declarationsOf ss).map Declaration.name ↔
        n ∈ (annotationsOf ss).map fun x => x.2.variableName := mem_names_declarationsOf_iff
    rw [← List.forall_mem_map (f := Declaration.name) (P := P),
      ← List.forall_mem_map (f := fun x : Path × Occurrence => x.2.variableName) (P := P)]
    exact forall_congr' fun n => by rw [hmem]
  rw [← hnames fun n => '\n' ∉ n.toList]
  exact forall₂_congr fun x hx => not_congr (newline_mem_annotation_iff hx).symm

/-- How many lines a listing has, and when there is one for each variable: if and only if no name
is written over several lines. -/
theorem oneLineEach_iff {ss : List Source} {layout : Report.Layout} (h : PlainLayout ss layout) :
    (Report.linesOf (Report.render (declarationsOf ss) layout)).length =
        layout.head.length +
          ((variablesOf ss).length +
            2 * ((declarationsOf ss).flatMap fun d => d.name.toList).count '\n') +
          layout.foot.length ∧
      (OneLineEach ss layout ↔ SingleLineNames ss) := by
  refine ⟨length_linesOf_render h, ?_⟩
  rw [singleLineNames_iff]
  constructor
  · intro hlines d hd
    have hlength := hlines.length
    rw [length_linesOf_render h] at hlength
    have hnone : ((declarationsOf ss).flatMap fun d => d.name.toList).count '\n' = 0 := by omega
    intro hmem
    exact List.count_eq_zero.mp hnone (List.mem_flatMap.mpr ⟨d, hd, hmem⟩)
  · intro hnames
    obtain ⟨w, hw⟩ := linesOf_render h
    have hlines : ((declarationsOf ss).flatMap fun d =>
        Report.linesOf (Report.line w layout.base d)) =
        (declarationsOf ss).map (Report.line w layout.base) := by
      rw [← List.flatMap_map]
      refine Report.flatMap_linesOf ?_
      rw [List.forall_mem_map]
      intro d hd
      have hcount := count_line_declaration h hd w
      rw [List.count_eq_zero.mpr (hnames d hd)] at hcount
      exact List.count_eq_zero.mp hcount
    rw [hlines] at hw
    constructor
    · rw [hw, length_variablesOf]
      simp [Nat.add_assoc]
    · intro k d hd
      refine ⟨Report.line w layout.base d, ?_, Report.assignment_prefix_line w layout.base d⟩
      rw [hw, List.append_assoc, List.getElem?_append_right (Nat.le_add_right _ _),
        Nat.add_sub_cancel_left, List.getElem?_append_left, List.getElem?_map, hd]
      · rfl
      · rw [List.length_map]
        exact (List.getElem?_eq_some_iff.mp hd).1

/-- A source with a name that is written over two lines. -/
def splitName : Source := ⟨.ofText "a.js", "/*r:a\nb*/'x'/**/"⟩

/-- A layout with one line before the variables and one after them. -/
def frame : Report.Layout := ⟨["<%"], ["%>"], none⟩

theorem plainLayout_splitName : PlainLayout [splitName] frame where
  head := by decide
  foot := by decide
  files := by decide
  some_line := by
    simp [frame]

theorem oneLineEach_iff_splitName :
    PlainLayout [splitName] frame ∧
      (Report.linesOf (Report.render (declarationsOf [splitName]) frame)).length =
        frame.head.length +
          ((variablesOf [splitName]).length +
            2 * ((declarationsOf [splitName]).flatMap fun d => d.name.toList).count '\n') +
          frame.foot.length ∧
      (OneLineEach [splitName] frame ↔ SingleLineNames [splitName]) :=
  ⟨plainLayout_splitName, oneLineEach_iff plainLayout_splitName⟩

/-- A name over two lines takes three lines of a listing. -/
theorem name_takes_lines : ¬∀ (ss : List Source) (layout : Report.Layout),
    PlainLayout ss layout → OneLineEach ss layout := by
  intro h
  have hlength := (h [splitName] frame plainLayout_splitName).length
  rw [Report.length_linesOf] at hlength
  revert hlength
  decide +kernel

end Run

end CmsVariables
