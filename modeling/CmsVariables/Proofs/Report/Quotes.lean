import CmsVariables.Proofs.Declarations.Shape
import CmsVariables.Proofs.Report.Columns
import CmsVariables.Proofs.Rewriting.Remaining
import CmsVariables.Proofs.Run.Printing

/-!
# The quotes of a listing

The first quote of an annotation follows a delimiter. A listing has a quote of its own only where the
comment of a segment begins, and there it follows the gap after an assignment; names, default texts
and, if the layout has none, the text around them have no quotes. So nothing in a listing can be read
as an annotation, whatever the default texts hold.

* `QuotesSpaced`: every quote of a text follows a space.
* `bare_of_quotesSpaced`: then no annotation is written in it.
* `Run.listing_declares_nothing`: a listing, and a listing that is read as a source file.
-/

namespace CmsVariables

open Annotations

namespace Report

/-! ## Quotes after spaces -/

/-- Every quote of the text follows a space. -/
def QuotesSpaced (cs : List Char) : Prop :=
  ∀ before after, cs = before ++ '\'' :: after → before.getLast? = some ' '

theorem quotesSpaced_of_notMem {cs : List Char} (h : '\'' ∉ cs) : QuotesSpaced cs := by
  rintro before after rfl
  exact absurd (List.mem_append_right before List.mem_cons_self) h

/-- A text with one quote, which follows a space. -/
theorem quotesSpaced_of_mark {front back : List Char} (hfront : '\'' ∉ front)
    (hlast : front.getLast? = some ' ') (hback : '\'' ∉ back) :
    QuotesSpaced (front ++ '\'' :: back) := by
  intro before after h
  rw [(List.append_cons_inj_of_notMem hfront hback).mp h |>.1] at hlast
  exact hlast

theorem QuotesSpaced.append {cs ds : List Char} (hcs : QuotesSpaced cs) (hds : QuotesSpaced ds) :
    QuotesSpaced (cs ++ ds) := by
  intro before after h
  rcases List.append_eq_append_iff.mp h with ⟨more, rfl, hquote⟩ | ⟨more, rfl, hquote⟩
  · have hlast := hds more after hquote
    rw [List.getLast?_append, hlast]
    rfl
  · cases more with
    | nil => exact absurd (hds [] after hquote.symm) (by simp)
    | cons c more =>
      obtain ⟨rfl, -⟩ := List.cons_eq_cons.mp hquote
      exact hcs before more rfl

theorem quotesSpaced_joinLines {ls : List String} (h : ∀ l ∈ ls, QuotesSpaced l.toList) :
    QuotesSpaced (joinLines ls).toList := by
  induction ls with
  | nil => exact quotesSpaced_of_notMem List.not_mem_nil
  | cons l ls ih =>
    obtain ⟨hl, hls⟩ := List.forall_mem_cons.mp h
    cases ls with
    | nil => simpa [joinLines] using hl
    | cons m ls =>
      have hjoin : (joinLines (l :: m :: ls)).toList =
          l.toList ++ (['\n'] ++ (joinLines (m :: ls)).toList) := by
        simp [joinLines, String.intercalate_cons_cons]
      have hend : QuotesSpaced ['\n'] := quotesSpaced_of_notMem (by decide)
      rw [hjoin]
      exact hl.append (hend.append (ih hls))

/-- The delimiters in front of its first quote keep an annotation out of such a text. -/
theorem bare_of_quotesSpaced {cs : List Char} (h : QuotesSpaced cs) : Bare cs := by
  rintro word ⟨f, hf, rfl⟩ ⟨before, after, hcs⟩
  have hlast := h (before ++ (f.opening ++ f.blank ++ f.tags ++ f.name) ++ f.middle)
    (f.content ++ '\'' :: f.closing ++ after) (by simp [← hcs, Form.text])
  rw [List.getLast?_append_of_ne_nil _ hf.middle_ne] at hlast
  exact absurd (hf.middle_all ' ' (List.mem_of_getLast? hlast)) (by decide)

/-! ## Segments -/

theorem quotesSpaced_line {w : Widths} {base : Option Path} {d : Declaration}
    (hgap : d.assignment.length < w.assignment) (hname : '\'' ∉ d.name.toList)
    (hcontent : '\'' ∉ d.content.toList) (hfile : '\'' ∉ (displayPath d.file base).toList) :
    QuotesSpaced (line w base d).toList := by
  have hpadded {s : String} (hs : '\'' ∉ s.toList) (width : Nat) :
      '\'' ∉ (padded s width).toList := by
    simp [padded, hs]
  have hassignment : '\'' ∉ d.assignment.toList := by
    simp [Declaration.assignment, hname]
  have hspace : (padded d.assignment w.assignment).toList.getLast? = some ' ' := by
    rw [List.getLast?_eq_getElem?, length_padded hgap.le]
    exact blank_padded _ _ _ (by omega) (by omega)
  have hline : (line w base d).toList = (padded d.assignment w.assignment).toList ++ '\'' ::
      (' ' :: ((padded d.content w.content).toList ++ (displayPath d.file base).toList)) := by
    simp [line, commentMark]
  rw [hline]
  refine quotesSpaced_of_mark (hpadded hassignment _) hspace ?_
  simp [hpadded hcontent, hfile]

end Report

/-! ## The listing of some sources -/

namespace Run

/-- There is no quote in head and foot, and none in the paths that are shown. -/
structure QuotelessLayout (ss : List Source) (layout : Report.Layout) : Prop where
  head : ∀ l ∈ layout.head, '\'' ∉ l.toList
  foot : ∀ l ∈ layout.foot, '\'' ∉ l.toList
  files : ∀ d ∈ declarationsOf ss, '\'' ∉ (Report.displayPath d.file layout.base).toList

theorem quote_notMem_declaration {ss : List Source} {d : Declaration}
    (hd : d ∈ declarationsOf ss) : '\'' ∉ d.name.toList ∧ '\'' ∉ d.content.toList := by
  obtain ⟨s, -, a, ha, rfl⟩ := exists_annotation hd
  obtain ⟨hname, hcontent⟩ := Declaration.chars_ofOccurrence ha s.path
  exact ⟨fun hmem => Form.ne_quote_of_isNameChar (hname _ hmem) rfl,
    fun hmem => absurd (hcontent _ hmem) (by decide)⟩

theorem bare_render {ss : List Source} {layout : Report.Layout}
    (h : QuotelessLayout ss layout) :
    Bare (Report.render (declarationsOf ss) layout).toList := by
  obtain ⟨w, hmeasure, hbody⟩ := Report.exists_bodyLines_eq (declarationsOf ss)
  refine Report.bare_of_quotesSpaced ?_
  rw [Report.render, hbody]
  refine Report.quotesSpaced_joinLines ?_
  simp only [List.forall_mem_append, List.forall_mem_map]
  refine ⟨⟨fun l hl => Report.quotesSpaced_of_notMem (h.head l hl), fun d hd => ?_⟩,
    fun l hl => Report.quotesSpaced_of_notMem (h.foot l hl)⟩
  have htight := Report.tight_of_measure? (hmeasure (List.ne_nil_of_mem hd))
  obtain ⟨hname, hcontent⟩ := quote_notMem_declaration hd
  have hgap := htight.assignment_le d hd
  exact Report.quotesSpaced_line (by omega) hname hcontent (h.files d hd)

/-- A source without annotations adds nothing to what other sources declare. -/
theorem declarationsOf_insert {s : Source} (h : find s.text = []) (front back : List Source) :
    declarationsOf (front ++ s :: back) = declarationsOf (front ++ back) := by
  have hnone : Declaration.extract s.text s.path = [] := by
    rw [Declaration.extract, h]
    rfl
  simp only [declarationsOf, Declaration.aggregate, List.map_append, List.map_cons, hnone,
    List.flatten_append, List.flatten_cons, List.nil_append]

/-- A listing holds no annotation if its head, its foot and the paths shown hold no quote. So it
declares nothing and rewriting leaves it as it is; and when it is written to a file that is a source
file as well, it is read back as it is and adds nothing to what the other sources declare. -/
theorem listing_declares_nothing {ss : List Source} {layout : Report.Layout}
    (h : QuotelessLayout ss layout) :
    find (Report.render (declarationsOf ss) layout) = [] ∧
      rewrite (Report.render (declarationsOf ss) layout) =
        ⟨Report.render (declarationsOf ss) layout, 0⟩ ∧
      (∀ file, Declaration.extract (Report.render (declarationsOf ss) layout) file = []) ∧
      ∀ (d d' : Disk) (p : Path), p.rooted = true →
        d.writeText p (Report.render (declarationsOf ss) layout) = (.ok (), d') →
        ∃ s, readSource d' p = .ok s ∧ (rewrite s.text).count = 0 ∧
          ∀ front back, declarationsOf (front ++ s :: back) = declarationsOf (front ++ back) := by
  have hrewrite := rewrite_eq_source_iff.mpr (bare_render h)
  have hfind := find_eq_nil_iff.mpr (by rw [hrewrite])
  have hextract (file : Path) :
      Declaration.extract (Report.render (declarationsOf ss) layout) file = [] := by
    rw [Declaration.extract, hfind]
    rfl
  refine ⟨hfind, hrewrite, hextract, fun d d' p hp hwrite => ?_⟩
  refine ⟨⟨p, Report.render (declarationsOf ss) layout⟩, ?_, congrArg Rewritten.count hrewrite,
    declarationsOf_insert hfind⟩
  rw [readSource, Disk.read_of_writeText hp hwrite]
  simp only [Text.decodeLossy_toUTF8]

/-- A source with a default text that lacks nothing but quotes to be an annotation. -/
def almostNested : Source := ⟨.ofText "/site/a.js", "/*r:a*/'/*r:b*/x/**/'/**/"⟩

/-- A layout between delimiters. -/
def delimited : Report.Layout := ⟨["/*r:x*/"], ["/**/"], some (.ofText "/site")⟩

theorem quotelessLayout_almostNested : QuotelessLayout [almostNested] delimited where
  head := by decide
  foot := by decide
  files := by decide +kernel

theorem listing_declares_nothing_almostNested :
    (declarationsOf [almostNested]).map Declaration.content = ["/*r:b*/x/**/"] ∧
      find (Report.render (declarationsOf [almostNested]) delimited) = [] ∧
      ∃ d s, bareProject.writeText (.ofText "/site/b.js")
          (Report.render (declarationsOf [almostNested]) delimited) = (.ok (), d) ∧
        readSource d (.ofText "/site/b.js") = .ok s ∧
        declarationsOf ([almostNested] ++ s :: []) = declarationsOf ([almostNested] ++ []) := by
  obtain ⟨hfind, -, -, hsource⟩ := listing_declares_nothing quotelessLayout_almostNested
  have hwritten : (bareProject.writeText (.ofText "/site/b.js")
      (Report.render (declarationsOf [almostNested]) delimited)).1.toOption = some () := by
    decide +kernel
  refine ⟨by decide +kernel, hfind, ?_⟩
  cases hwrite : bareProject.writeText (.ofText "/site/b.js")
      (Report.render (declarationsOf [almostNested]) delimited) with
  | mk result d =>
    rw [hwrite] at hwritten
    cases result with
    | error e => cases hwritten
    | ok =>
      obtain ⟨s, hread, -, hdeclared⟩ := hsource bareProject d _ (by decide) hwrite
      exact ⟨d, s, rfl, hread, hdeclared [almostNested] []⟩

end Run

end CmsVariables
