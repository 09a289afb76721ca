import CmsVariables.Proofs.Report.Lines
import Mathlib.Data.List.DropRight
import Mathlib.Data.List.Forall2

/-!
# The columns of a listing

Between head and foot a listing has a segment for each declaration. All segments have their fields in
the same columns, counted in characters: the widths leave a gap after the widest field of a column
and a greater one after any other. So a segment can be cut at the columns, and only the spaces at the
end of a default text cannot be told from the gap after it; an assignment ends in a double quote.

* `tight_of_measure?`: the widths and the fields that they are measured from.
* `columns_line`: what stands where in a segment.
* `readFields_line`: reading a segment back.
* `render_columns`: all this of every listing.
-/

namespace CmsVariables.Report

/-! ## Widths -/

/-- Each field has a gap of at least eight columns after it, and the widest one of each column has a
gap of eight. -/
structure Tight (w : Widths) (ds : List Declaration) : Prop where
  assignment_le : ∀ d ∈ ds, d.assignment.length + 8 ≤ w.assignment
  content_le : ∀ d ∈ ds, d.content.length + 8 ≤ w.content
  assignment_eq : ∃ d ∈ ds, d.assignment.length + 8 = w.assignment
  content_eq : ∃ d ∈ ds, d.content.length + 8 = w.content

theorem widest?_eq_some {α : Type} {field : α → String} {xs : List α} {n : Nat}
    (h : widest? (xs.map field) = some n) :
    (∀ x ∈ xs, (field x).length ≤ n) ∧ ∃ x ∈ xs, (field x).length = n := by
  obtain ⟨hmem, hle⟩ := List.max?_eq_some_iff.mp h
  simp only [List.map_map, List.mem_map, Function.comp_apply] at hmem hle
  exact ⟨fun x hx => hle _ ⟨x, hx, rfl⟩, hmem⟩

theorem tight_of_measure? {ds : List Declaration} {w : Widths} (h : Widths.measure? ds = some w) :
    Tight w ds := by
  simp only [Widths.measure?, Option.bind_eq_bind, Option.bind_eq_some_iff] at h
  obtain ⟨assignment, hassignment, content, hcontent, h⟩ := h
  cases h
  obtain ⟨hassignmentLe, d, hd, hassignmentEq⟩ := widest?_eq_some hassignment
  obtain ⟨hcontentLe, e, he, hcontentEq⟩ := widest?_eq_some hcontent
  exact
    { assignment_le := fun d hd => Nat.add_le_add_right (hassignmentLe d hd) 8
      content_le := fun d hd => Nat.add_le_add_right (hcontentLe d hd) 8
      assignment_eq := ⟨d, hd, congrArg (· + 8) hassignmentEq⟩
      content_eq := ⟨e, he, congrArg (· + 8) hcontentEq⟩ }

/-! ## Fields in columns -/

/-- The field stands in the segment, from the column on. -/
def AtColumn (column : Nat) (field segment : String) : Prop :=
  field.toList <+: segment.toList.drop column

/-- Nothing but spaces stands in the columns from `first` up to `last`. -/
def Blank (first last : Nat) (segment : String) : Prop :=
  ∀ i, first ≤ i → i < last → segment.toList[i]? = some ' '

/-- How the segment of a declaration is laid out. -/
structure Columns (w : Widths) (base : Option Path) (d : Declaration) (segment : String) :
    Prop where
  assignment : AtColumn 0 d.assignment segment
  gap : Blank d.assignment.length w.assignment segment
  mark : AtColumn w.assignment "' " segment
  content : AtColumn (w.assignment + 2) d.content segment
  contentGap : Blank (w.assignment + 2 + d.content.length) (w.assignment + 2 + w.content) segment
  file : segment.toList.drop (w.assignment + 2 + w.content) = (displayPath d.file base).toList

theorem length_padded {s : String} {width : Nat} (h : s.length ≤ width) :
    (padded s width).toList.length = width := by
  simp only [padded, String.toList_append, String.toList_ofList, List.length_append,
    List.length_replicate, String.length_toList]
  omega

theorem prefix_padded (s : String) (width : Nat) : s.toList <+: (padded s width).toList := by
  rw [padded, String.toList_append]
  exact List.prefix_append _ _

theorem blank_padded (s : String) (width : Nat) : Blank s.length width (padded s width) := by
  intro i hfirst hlast
  rw [padded, String.toList_append, String.toList_ofList, List.getElem?_append_right (by simpa),
    String.length_toList, List.getElem?_replicate_of_lt (by omega)]

/-- Where a segment has its columns. -/
structure Cut (w : Widths) (base : Option Path) (d : Declaration) (segment : List Char) :
    Prop where
  take_assignment : segment.take w.assignment = (padded d.assignment w.assignment).toList
  drop_assignment : segment.drop w.assignment = commentMark.toList ++ segment.drop (w.assignment + 2)
  drop_mark : segment.drop (w.assignment + 2) =
    (padded d.content w.content).toList ++ segment.drop (w.assignment + 2 + w.content)
  take_content : (segment.drop (w.assignment + 2)).take w.content =
    (padded d.content w.content).toList
  drop_content : segment.drop (w.assignment + 2 + w.content) = (displayPath d.file base).toList

section Line

variable {w : Widths} {base : Option Path} {d : Declaration}
  (hassignment : d.assignment.length ≤ w.assignment) (hcontent : d.content.length ≤ w.content)

include hassignment hcontent

theorem cut_line : Cut w base d (line w base d).toList := by
  have hline : (line w base d).toList = (padded d.assignment w.assignment).toList ++
      (commentMark.toList ++
        ((padded d.content w.content).toList ++ (displayPath d.file base).toList)) := by
    simp [line]
  have hassigned : ∀ rest, ((padded d.assignment w.assignment).toList ++ rest).drop w.assignment =
      rest := fun _ => List.drop_left' (length_padded hassignment)
  have hmark : (line w base d).toList.drop (w.assignment + 2) =
      (padded d.content w.content).toList ++ (displayPath d.file base).toList := by
    rw [hline, ← List.drop_drop, hassigned]
    rfl
  have hfile : (line w base d).toList.drop (w.assignment + 2 + w.content) =
      (displayPath d.file base).toList := by
    rw [← List.drop_drop, hmark, List.drop_left' (length_padded hcontent)]
  exact
    { take_assignment := by rw [hline, List.take_left' (length_padded hassignment)]
      drop_assignment := by rw [hmark, hline, hassigned]
      drop_mark := by rw [hmark, hfile]
      take_content := by rw [hmark, List.take_left' (length_padded hcontent)]
      drop_content := hfile }

theorem columns_line : Columns w base d (line w base d) := by
  have hcut : Cut w base d (line w base d).toList := cut_line hassignment hcontent
  exact
    { assignment := by
        rw [AtColumn, List.drop_zero]
        exact assignment_prefix_line w base d
      gap := fun i hfirst hlast => by
        rw [← blank_padded d.assignment w.assignment i hfirst hlast, ← hcut.take_assignment,
          List.getElem?_take_of_lt hlast]
      mark := by
        rw [AtColumn, hcut.drop_assignment]
        exact List.prefix_append _ _
      content := by
        rw [AtColumn, hcut.drop_mark]
        exact (prefix_padded d.content w.content).trans (List.prefix_append _ _)
      contentGap := fun i hfirst hlast => by
        obtain ⟨j, rfl⟩ := Nat.exists_eq_add_of_le (show w.assignment + 2 ≤ i by omega)
        have hlt : j < w.content := by omega
        rw [← blank_padded d.content w.content j (by omega) hlt, ← hcut.take_content,
          List.getElem?_take_of_lt hlt, List.getElem?_drop]
      file := hcut.drop_content }

end Line

/-! ## Reading a segment back -/

/-- A text without the spaces at its end. -/
def withoutEndSpaces (s : String) : String := String.ofList (s.toList.rdropWhile (· == ' '))

/-- The fields of a segment. -/
structure Fields where
  assignment : String
  content : String
  file : String
deriving DecidableEq, Repr

/-- Cuts a segment at the columns of these widths. -/
def readFields (w : Widths) (segment : String) : Fields where
  assignment := withoutEndSpaces (.ofList (segment.toList.take w.assignment))
  content := withoutEndSpaces (.ofList ((segment.toList.drop (w.assignment + 2)).take w.content))
  file := .ofList (segment.toList.drop (w.assignment + 2 + w.content))

theorem withoutEndSpaces_padded (s : String) (width : Nat) :
    withoutEndSpaces (padded s width) = withoutEndSpaces s := by
  have hspaces : ∀ c ∈ List.replicate (width - s.length) ' ', (c == ' ') = true := fun c hc =>
    beq_iff_eq.mpr (List.eq_of_mem_replicate hc)
  simp only [withoutEndSpaces, padded, List.rdropWhile, String.toList_append, String.toList_ofList,
    List.reverse_append, List.reverse_replicate, List.dropWhile_append_of_pos hspaces]

/-- An assignment has no space at its end. -/
theorem withoutEndSpaces_assignment (d : Declaration) :
    withoutEndSpaces d.assignment = d.assignment := by
  have hlast : d.assignment.toList = (d.name ++ "=\"<%" ++ d.name ++ "%>").toList ++ ['"'] := by
    simp [Declaration.assignment]
  rw [withoutEndSpaces, hlast, List.rdropWhile_concat_neg _ _ _ (by decide), ← hlast,
    String.ofList_toList]

theorem readFields_line {w : Widths} {d : Declaration}
    (hassignment : d.assignment.length ≤ w.assignment) (hcontent : d.content.length ≤ w.content)
    (base : Option Path) :
    readFields w (line w base d) =
      ⟨d.assignment, withoutEndSpaces d.content, displayPath d.file base⟩ := by
  have hcut : Cut w base d (line w base d).toList := cut_line hassignment hcontent
  rw [readFields, hcut.take_assignment, hcut.take_content, hcut.drop_content, String.ofList_toList,
    String.ofList_toList, String.ofList_toList, withoutEndSpaces_padded, withoutEndSpaces_padded,
    withoutEndSpaces_assignment]

/-! ## All segments -/

/-- A listing of declarations is the head, a segment for each of them and the foot, with line ends
between. The widths are tight, every segment has its fields in the columns of these widths, and with
the widths the fields are read back from it, the default text without spaces at its end. -/
theorem render_columns {ds : List Declaration} (hne : ds ≠ []) (layout : Layout) :
    ∃ w segments, Widths.measure? ds = some w ∧ Tight w ds ∧
      render ds layout = "\n".intercalate (layout.head ++ segments ++ layout.foot) ∧
      List.Forall₂ (fun d segment => Columns w layout.base d segment ∧
        readFields w segment =
          ⟨d.assignment, withoutEndSpaces d.content, displayPath d.file layout.base⟩)
        ds segments := by
  obtain ⟨w, hmeasure, hbody⟩ := exists_bodyLines_eq ds
  have htight := tight_of_measure? (hmeasure hne)
  refine ⟨w, ds.map (line w layout.base), hmeasure hne, htight, ?_, ?_⟩
  · rw [render, hbody, joinLines]
  · rw [List.forall₂_map_right_iff, List.forall₂_same]
    intro d hd
    have hassignment := Nat.le_of_add_right_le (htight.assignment_le d hd)
    have hcontent := Nat.le_of_add_right_le (htight.content_le d hd)
    exact ⟨columns_line hassignment hcontent, readFields_line hassignment hcontent layout.base⟩

/-- A default text with characters of several bytes, and one with a space at its end. -/
def twoTitles : List Declaration :=
  [.ofRaw "std_a" "日本語" (.ofText "/site/a.js"), .ofRaw "std_long" "abcd " (.ofText "/b.js")]

theorem render_columns_twoTitles :
    twoTitles ≠ [] ∧
      ∃ segments, Widths.measure? twoTitles = some ⟨31, 13⟩ ∧
        render twoTitles ⟨["<%"], ["%>"], some (.ofText "/site")⟩ =
          "\n".intercalate (["<%"] ++ segments ++ ["%>"]) ∧
        segments.map (readFields ⟨31, 13⟩) =
          [⟨"std_a=\"<%std_a%>\"", "日本語", "/a.js"⟩,
            ⟨"std_long=\"<%std_long%>\"", "abcd", "/b.js"⟩] := by
  obtain ⟨w, segments, hmeasure, -, hrender, hcolumns⟩ :=
    render_columns (show twoTitles ≠ [] by decide) ⟨["<%"], ["%>"], some (.ofText "/site")⟩
  have hwidths : Widths.measure? twoTitles = some ⟨31, 13⟩ := by decide +kernel
  obtain rfl := Option.some.inj (hmeasure.symm.trans hwidths)
  refine ⟨by decide, segments, hwidths, hrender, ?_⟩
  have hread : List.Forall₂ Eq (segments.map (readFields ⟨31, 13⟩)) (twoTitles.map fun d =>
      ⟨d.assignment, withoutEndSpaces d.content, displayPath d.file (some (.ofText "/site"))⟩) := by
    rw [List.forall₂_map_left_iff, List.forall₂_map_right_iff]
    exact (hcolumns.imp fun _ _ h => h.2).flip
  rw [List.forall₂_eq_eq_eq] at hread
  rw [hread]
  decide +kernel

end CmsVariables.Report
