import CmsVariables.Proofs.Report.Lines
import CmsVariables.Proofs.Rewriting.Names
import CmsVariables.Proofs.Run.Preview
import CmsVariables.Proofs.Run.Printing
import CmsVariables.Proofs.Run.Repeating

/-!
# The variables that a project uses and declares

A rewriting run puts names into placeholders, and a build lists names. Both find and read the same
files, so the names are the same: a placeholder refers to a variable that is listed, and a variable
that is listed is referred to. Which texts a run writes is told by the texts that it read: in place
it writes those that have annotations, and copies it writes of all.

* `writesOf`: the writes of a rewriting run; `rewriteFrom_wrote`: a run makes them as far as it gets.
* `exists_filled_iff`: the names put into some sources are those that these declare.
* `names_agree`: what a rewriting run refers to is what a build lists.
-/

namespace CmsVariables.Run

open Annotations

/-! ## What a rewriting run writes -/

/-- Where a run puts the rewritten text of a source. A preview puts it nowhere, and a run in place
leaves a source without annotations as it is. -/
def destination (c : Context) (mode : Mode) (s : Source) : Option Path :=
  match mode with
  | .preview => none
  | .inPlace => if (rewrite s.text).count = 0 then none else some s.path
  | .copies dir => (copyPath c.sourceRoot (c.workingDirectory.join dir) s.path).toOption

/-- The writes of a run, in the order of its sources. -/
def writesOf (c : Context) (mode : Mode) (ss : List Source) : List (Path × String) :=
  ss.filterMap fun s => (destination c mode s).map fun p => (p, (rewrite s.text).text)

section Writes

variable {d : Disk} {c : Context} {mode : Mode} {ss : List Source} {stderr : List Console.Line}
  {status : Status}

theorem writesOf_congr {c' : Context} (hdirectory : c'.workingDirectory = c.workingDirectory)
    (hroot : c'.sourceRoot = c.sourceRoot) (mode : Mode) (ss : List Source) :
    writesOf c' mode ss = writesOf c mode ss := by
  simp only [writesOf, destination, hdirectory, hroot]

theorem writesOf_preview (c : Context) (ss : List Source) : writesOf c .preview ss = [] :=
  List.filterMap_eq_nil_iff.mpr fun _ _ => rfl

theorem writesOf_inPlace (c : Context) (ss : List Source) :
    writesOf c .inPlace ss = replacements ss := by
  unfold writesOf replacements
  induction ss with
  | nil => rfl
  | cons s ss ih =>
    rw [List.filterMap_cons, List.map_cons, List.filter_cons, ih]
    by_cases hcount : (rewrite s.text).count = 0
    · simp [destination, rewriteSource, RewrittenFile.isChanged, hcount]
    · simp [destination, rewriteSource, RewrittenFile.isChanged, hcount]

theorem writesOf_copies {dir : Path} {targets : List Path}
    (h : copyPaths c.sourceRoot (c.workingDirectory.join dir) (ss.map Source.path) = .ok targets) :
    writesOf c (.copies dir) ss = targets.zip (ss.map fun s => (rewrite s.text).text) := by
  unfold writesOf
  induction ss generalizing targets with
  | nil =>
    cases h
    rfl
  | cons s ss ih =>
    rw [List.map_cons, copyPaths] at h
    split at h
    · cases h
    rename_i q hq
    split at h
    · cases h
    rename_i qs hqs
    cases h
    rw [List.filterMap_cons, ih hqs, destination, hq]
    rfl

/-- A run that copies has no other success than to be done. -/
theorem exitStatus_copies {dir : Path}
    (h : (rewriteFrom d (.copies dir) c stderr).result = .ok status) :
    (rewriteFrom d (.copies dir) c stderr).exitStatus = 0 := by
  have hdone : status = .done := by
    unfold rewriteFrom writeCopies at h
    split at h
    · cases h
      rfl
    split at h
    · cases h
    simp only at h
    split at h
    · cases h
    split at h
    · cases h
    · cases h
      rfl
  rw [Outcome.exitStatus_eq_zero_iff, h, hdone]

/-- A run that has read its sources makes their writes in order, up to the first one that fails. -/
theorem rewriteFrom_wrote (hss : readSources d c.files = .ok ss) :
    ∃ ws, ws <+: writesOf c mode ss ∧ Wrote d (rewriteFrom d mode c stderr).disk ws ∧
      ∀ status, (rewriteFrom d mode c stderr).result = .ok status → ws = writesOf c mode ss := by
  have hpaths := (readSources_eq_ok_iff.mp hss).1
  cases mode with
  | preview =>
    rw [(rewriteFrom_preview hss).disk, writesOf_preview]
    exact ⟨[], List.prefix_rfl, .of_addsDirectories rfl (.refl _), fun _ _ => rfl⟩
  | inPlace =>
    rw [writesOf_inPlace]
    exact ⟨_, prefix_finishedWrites _ _, rewriteFrom_inPlace_finished hss,
      fun _ h => finishedWrites_replacements hss h⟩
  | copies dir =>
    refine ⟨copiesFrom d c dir, ?_, rewriteFrom_copies_wrote d c dir stderr, fun status h => ?_⟩
    · rw [copiesFrom, hss]
      split
      · rename_i ss' targets heq htargets
        cases heq
        rw [writesOf_copies (by rwa [hpaths])]
        exact prefix_finishedWrites _ _
      · exact List.nil_prefix
    · obtain ⟨ws, hplan, hwrite⟩ := rewriteFrom_copies_iff.mp ⟨exitStatus_copies h, rfl⟩
      obtain ⟨ss', targets, hss', htargets, rfl⟩ := plan?_eq_some_iff.mp hplan
      obtain rfl : ss' = ss := Except.ok.inj (hss'.symm.trans hss)
      rw [copiesFrom, hss, htargets, writesOf_copies (by rwa [hpaths])]
      exact finishedWrites_of_ok hwrite

/-- Only a preview puts the text of a source with annotations nowhere. -/
theorem exists_destination (hss : readSources d c.files = .ok ss)
    (h : (rewriteFrom d mode c stderr).result = .ok status) (hmode : mode ≠ .preview) {s : Source}
    (hs : s ∈ ss) (hcount : (rewrite s.text).count ≠ 0) : ∃ p, destination c mode s = some p := by
  cases mode with
  | preview => exact absurd rfl hmode
  | inPlace => exact ⟨s.path, if_neg hcount⟩
  | copies dir =>
    obtain ⟨ws, hplan, -⟩ := rewriteFrom_copies_iff.mp ⟨exitStatus_copies h, rfl⟩
    obtain ⟨-, targets, -, htargets, -⟩ := plan?_eq_some_iff.mp hplan
    obtain ⟨p, hp⟩ := exists_copyPath htargets (exists_read hss hs).1
    exact ⟨p, by rw [destination, hp]; rfl⟩

end Writes

/-! ## The names that are written and listed -/

theorem exists_filled_iff {ss : List Source} {n : String} :
    (∃ s ∈ ss, ∃ names,
        Filled 0 (find s.text) names s.text.toList (rewrite s.text).text.toList ∧ n ∈ names) ↔
      n ∈ (declarationsOf ss).map Declaration.name := by
  rw [mem_names_declarationsOf_iff, annotationsOf, List.map_flatMap, List.mem_flatMap]
  refine exists_congr fun s => and_congr_right fun _ => ?_
  simp only [filled_rewrite_iff, List.map_map, exists_eq_left]
  rfl

theorem count_ne_zero_of_filled {s : Source} {names : List String} {n : String}
    (h : Filled 0 (find s.text) names s.text.toList (rewrite s.text).text.toList)
    (hn : n ∈ names) : (rewrite s.text).count ≠ 0 := by
  obtain rfl := filled_rewrite_iff.mp h
  obtain ⟨a, ha, -⟩ := List.mem_map.mp hn
  rw [ne_eq, count_eq_zero_iff]
  exact List.ne_nil_of_mem ha

/-- The name is put into a placeholder in a text that a run is to write. -/
def PutsName (c : Context) (mode : Mode) (ss : List Source) (n : String) : Prop :=
  ∃ s ∈ ss, ∃ p, destination c mode s = some p ∧ ∃ names,
    Filled 0 (find s.text) names s.text.toList (rewrite s.text).text.toList ∧ n ∈ names

/-- What a rewriting run writes refers to what the sources declare. -/
structure RefersTo (d : Disk) (c : Context) (ss : List Source) (r : RewriteOptions) : Prop where
  /-- The writes for the sources are made in order, and all of them if the run succeeds. -/
  wrote : ∃ ws, ws <+: writesOf c r.mode ss ∧ Wrote d (rewriteProject d r).disk ws ∧
    ∀ status, (rewriteProject d r).result = .ok status → ws = writesOf c r.mode ss
  declared : ∀ n, PutsName c r.mode ss n → n ∈ (declarationsOf ss).map Declaration.name
  /-- No declared name is left out by a run that succeeds and is no preview. -/
  used : ∀ status, (rewriteProject d r).result = .ok status → r.mode ≠ .preview →
    ∀ n ∈ (declarationsOf ss).map Declaration.name, PutsName c r.mode ss n

section Agreement

variable {d : Disk} {c : Context} {ss : List Source} {status : Status}

/-- Whatever a build is told about its listing, a rewriting run refers to what the same sources
declare. -/
theorem refersTo_of_prepare {o : Overrides} {r : RewriteOptions} (hc : (prepare d o).2 = .ok c)
    (hss : readSources d c.files = .ok ss) (hroot : r.sourceRoot = o.sourceRoot) :
    RefersTo d c ss r := by
  obtain ⟨c', hc', hdirectory, hsource, hfiles⟩ := exists_start hc
  rw [← hroot] at hc'
  obtain ⟨stderr, hrun⟩ := exists_rewriteFrom hc'
  rw [← hfiles] at hss
  constructor
  · rw [hrun, ← writesOf_congr hdirectory hsource]
    exact rewriteFrom_wrote hss
  · rintro n ⟨s, hs, -, -, hfilled⟩
    exact exists_filled_iff.mp ⟨s, hs, hfilled⟩
  · intro status h hmode n hn
    rw [hrun] at h
    obtain ⟨s, hs, names, hfilled, hname⟩ := exists_filled_iff.mpr hn
    obtain ⟨p, hp⟩ := exists_destination hss h hmode hs (count_ne_zero_of_filled hfilled hname)
    refine ⟨s, hs, p, ?_, names, hfilled, hname⟩
    rw [← hp]
    simp only [destination, hdirectory, hsource]

/-- A build that succeeds prints or has written the listing of what its sources declare. -/
theorem exists_listing {o : BuildOptions} (h : (build d o).result = .ok status) :
    ∃ c ss, (prepare d o.overrides).2 = .ok c ∧ readSources d c.files = .ok ss ∧
      if o.toStdout then [Console.plain (listing c (declarationsOf ss))] ∈ (build d o).stdout
      else (build d o).disk.read c.output = .ok (listing c (declarationsOf ss)).toUTF8 := by
  obtain ⟨c, ss, hc, hss, hgiven⟩ := exists_of_build h
  refine ⟨c, ss, hc, hss, ?_⟩
  split at hgiven
  · rename_i hprint
    rw [if_pos hprint, hgiven]
    exact List.mem_append_right _ (List.mem_singleton_self _)
  · rename_i hwrite
    rw [if_neg hwrite]
    exact Disk.read_of_writeText (rooted_output hc) hgiven

end Agreement

/-- Placeholders refer to the variables that are listed. In each source the names in placeholders
are those of its annotations, one for each; in all sources they are the names declared. A build of
a project gives a text that lists these, each with its assignment, and a rewriting run of the same
project writes the placeholders that refer to them. -/
theorem names_agree (ss : List Source) :
    (∀ s ∈ ss,
      (∀ names, Filled 0 (find s.text) names s.text.toList (rewrite s.text).text.toList ↔
        names = (find s.text).map Occurrence.variableName) ∧
      (rewrite s.text).count = (find s.text).length) ∧
    (∀ n, (∃ s ∈ ss, ∃ names,
        Filled 0 (find s.text) names s.text.toList (rewrite s.text).text.toList ∧ n ∈ names) ↔
      n ∈ (declarationsOf ss).map Declaration.name) ∧
    ∀ (d : Disk) (o : BuildOptions) (status : Status), (build d o).result = .ok status →
      ∃ c read text, (prepare d o.overrides).2 = .ok c ∧
        readSources d (scanned d o.overrides.sourceRoot) = .ok read ∧
        (if o.toStdout then [Console.plain text] ∈ (build d o).stdout
          else (build d o).disk.read c.output = .ok text.toUTF8) ∧
        text = listing c (declarationsOf read) ∧
        Report.Lists c.config.head c.config.foot (declarationsOf read) text ∧
        ∀ r : RewriteOptions, r.sourceRoot = o.overrides.sourceRoot → RefersTo d c read r := by
  refine ⟨fun s _ => ⟨fun _ => filled_rewrite_iff, count_rewrite s.text⟩,
    fun _ => exists_filled_iff, fun d o status h => ?_⟩
  obtain ⟨c, read, hc, hread, hgiven⟩ := exists_listing h
  refine ⟨c, read, listing c (declarationsOf read), hc, ?_, hgiven, rfl,
    Report.lists_render _ _, fun r hroot => refersTo_of_prepare hc hread hroot⟩
  rwa [scanned_of_prepare hc]

theorem names_agree_ofFile :
    (build (.ofFile annotated) {}).result = .ok .done ∧
      ∃ c read text, (prepare (.ofFile annotated) {}).2 = .ok c ∧
        readSources (.ofFile annotated) (scanned (.ofFile annotated) none) = .ok read ∧
        (build (.ofFile annotated) {}).disk.read c.output = .ok text.toUTF8 ∧
        Report.Lists c.config.head c.config.foot (declarationsOf read) text ∧
        (declarationsOf read).map Declaration.name = ["std_a"] ∧
        RefersTo (.ofFile annotated) c read { mode := .inPlace } ∧
        PutsName c .inPlace read "std_a" := by
  have hbuild : (build (.ofFile annotated) {}).result = .ok .done := by decide +kernel
  have hdone : (rewriteProject (.ofFile annotated) { mode := .inPlace }).result = .ok .done := by
    decide +kernel
  obtain ⟨-, -, hagree⟩ := names_agree []
  obtain ⟨c, read, text, hc, hread, hgiven, -, hlists, hrefers⟩ := hagree _ {} _ hbuild
  have hnames : (readSources (.ofFile annotated) (scanned (.ofFile annotated) none)).toOption.map
      (fun ss => (declarationsOf ss).map Declaration.name) = some ["std_a"] := by
    decide +kernel
  rw [hread] at hnames
  have hlisted : (declarationsOf read).map Declaration.name = ["std_a"] := Option.some.inj hnames
  have hrun := hrefers { mode := .inPlace } rfl
  refine ⟨hbuild, c, read, text, hc, hread, hgiven, hlists, hlisted, hrun, ?_⟩
  exact hrun.used _ hdone (by decide) _ (hlisted ▸ List.mem_singleton_self _)

end CmsVariables.Run
