import CmsVariables.Proofs.Discovery.Outline
import CmsVariables.Proofs.FileTree.Overwriting
import CmsVariables.Proofs.Rewriting.Stability
import CmsVariables.Proofs.Run.Sources

/-!
# Running again after rewriting in place

A run in place changes nothing but the contents of the files it scanned. So a run after it finds the
same files, as long as the settings are the same, and each of them holds its rewritten text. It has
nothing left to do if and only if no text was bridged.

* `inPlace_alike`: a run in place keeps the outline of the disk.
* `prepare_eq`: what a run starts from does not depend on contents, settings apart.
* `rewriting_stable_iff`: when rewriting a second time, and running a second time, does nothing.
-/

namespace CmsVariables

open Text

namespace Run

/-! ## The disk after a run in place -/

/-- Writing over files that are there succeeds and keeps the outline of the disk. -/
theorem exists_writeAll {d : Disk} {ws : List (Path × String)}
    (h : ∀ w ∈ ws, ∃ bytes, d.read w.1 = .ok bytes) :
    ∃ d', writeAll d ws = (.ok (), d') ∧ d.Alike d' := by
  induction ws generalizing d with
  | nil => exact ⟨d, rfl, .refl d⟩
  | cons w ws ih =>
    obtain ⟨p, text⟩ := w
    obtain ⟨⟨bytes, hread⟩, hws⟩ := List.forall_mem_cons.mp h
    obtain ⟨made, hwrite⟩ := Disk.exists_writeText hread text
    have halike := Disk.writeText_alike hread text
    rw [hwrite] at halike
    obtain ⟨d', hrest, halike'⟩ := ih (d := made) fun w hw => by
      obtain ⟨bytes, hread⟩ := hws w hw
      exact Disk.read_of_keeps hread halike.here halike.tree.keeps
    refine ⟨d', ?_, halike.trans halike'⟩
    simp only [writeAll, write, hwrite]
    exact hrest

theorem writeAll_alike {d : Disk} {ws : List (Path × String)}
    (h : ∀ w ∈ ws, ∃ bytes, d.read w.1 = .ok bytes) : d.Alike (writeAll d ws).2 := by
  obtain ⟨d', hwrite, halike⟩ := exists_writeAll h
  exact hwrite ▸ halike

theorem rewriteFrom_inPlace_alike (d : Disk) (c : Context) (stderr : List Console.Line) :
    d.Alike (rewriteFrom d .inPlace c stderr).disk := by
  rw [rewriteFrom]
  split
  · exact .refl d
  split
  · exact .refl d
  rename_i ss hss
  simp only
  split
  · exact .refl d
  have halike : d.Alike (writeAll d (replacements ss)).2 := by
    refine writeAll_alike fun w hw => ?_
    obtain ⟨s, hs, -, rfl⟩ := mem_replacements_iff.mp hw
    obtain ⟨-, bytes, hread, -⟩ := exists_read hss hs
    exact ⟨bytes, hread⟩
  rw [writeInPlace, ← replacements]
  split
  · rename_i hwrite
    rw [hwrite] at halike
    exact halike
  · rename_i hwrite
    rw [hwrite] at halike
    exact halike

/-- A run in place changes nothing but what files hold. -/
theorem inPlace_alike (d : Disk) (o : RewriteOptions) :
    d.Alike (rewriteProject d { o with mode := .inPlace }).disk := by
  rw [rewriteProject]
  split
  · exact .refl d
  · exact rewriteFrom_inPlace_alike d _ _

/-! ## What the next run starts from -/

theorem search_eq {d d' : Disk} (h : d.Alike d') (start : Path) :
    Config.search d start = Config.search d' start := by
  have hsearch (dirs : List Path) : Config.searchAlong d dirs = Config.searchAlong d' dirs := by
    induction dirs with
    | nil => rfl
    | cons dir above ih =>
      rw [Config.searchAlong, Config.searchAlong, h.exists?_eq, h.exists?_eq, ih]
  exact hsearch _

/-- The settings are the same if the config file still holds the same. -/
theorem load_eq {d d' : Disk} (h : d.Alike d') {start : Path}
    (hconfig : ∀ p, Config.search d start = some p → d'.read p = d.read p) :
    Config.load d start = Config.load d' start := by
  rw [Config.load, Config.load, ← search_eq h]
  split
  · rename_i p hp
    rw [Config.readFile, Config.readFile, hconfig p hp]
  · rfl

theorem contextFrom_eq {d d' : Disk} (h : d.Alike d') (o : Overrides) (loaded : Config.Loaded) :
    contextFrom d o loaded = contextFrom d' o loaded := by
  simp only [contextFrom, h.here, h.canonical_eq, discover_eq h]

/-- With the same settings a run starts from the same, whatever other files hold. -/
theorem prepare_eq {d d' : Disk} (h : d.Alike d') (o : Overrides)
    (hconfig : ∀ p, Config.search d (.ofAddress d.here) = some p → d'.read p = d.read p) :
    prepare d o = prepare d' o := by
  rw [prepare, prepare, h.here, load_eq h hconfig]
  simp only [contextFrom_eq h]

/-! ## What the next run finds -/

/-- After a run in place each source reads as its rewritten text. -/
theorem readSources_inPlace {d : Disk} {o : RewriteOptions}
    (h : (rewriteProject d { o with mode := .inPlace }).exitStatus = 0) {ss : List Source}
    (hss : readSources d (scanned d o.sourceRoot) = .ok ss) :
    readSources (rewriteProject d { o with mode := .inPlace }).disk (scanned d o.sourceRoot) =
      .ok (ss.map fun s => ⟨s.path, (rewrite s.text).text⟩) := by
  rw [readSources_eq_ok_iff, List.map_map]
  refine ⟨(readSources_eq_ok_iff.mp hss).1, fun after hafter => ?_⟩
  obtain ⟨s, hs, rfl⟩ := List.mem_map.mp hafter
  obtain ⟨hpath, bytes, hread, htext⟩ := exists_read hss hs
  obtain ⟨bytes', hread', hafter⟩ := read_inPlace (Outcome.exitStatus_eq_zero_iff.mp h) hpath
  obtain rfl : bytes' = bytes := Except.ok.inj (hread'.symm.trans hread)
  refine readSource_eq_ok_iff.mpr ⟨rfl, _, hafter, ?_⟩
  rw [htext]
  split
  · rename_i hcount
    rw [rewrite_of_count_eq_zero hcount]
  · rw [decodeLossy_toUTF8]

/-- The run ends with the answer that there is nothing to rewrite. -/
def FindsNothing (r : Outcome) : Prop :=
  r.exitStatus = 0 ∧
    ((∃ c : Context, r.stdout = [c.noFilesLine]) ∨ ∃ fs, r.stdout = [nothingLine fs])

theorem findsNothing_preview_iff {d : Disk} {c : Context} {stderr : List Console.Line}
    {ss : List Source} (hss : readSources d c.files = .ok ss) :
    FindsNothing (rewriteFrom d .preview c stderr) ↔ ∀ s ∈ ss, (rewrite s.text).count = 0 := by
  rw [rewriteFrom]
  by_cases hfiles : c.files = []
  · rw [hfiles] at hss
    cases hss
    rw [if_pos hfiles]
    exact iff_of_true ⟨rfl, Or.inl ⟨c, rfl⟩⟩ (List.forall_mem_nil _)
  rw [if_neg hfiles, hss]
  have hchanged : (ss.map rewriteSource).filter RewrittenFile.isChanged = [] ↔
      ∀ s ∈ ss, (rewrite s.text).count = 0 := by
    simp [List.filter_eq_nil_iff, RewrittenFile.isChanged, rewriteSource]
  rw [← hchanged]
  simp only
  split
  · rename_i hnone
    exact iff_of_true ⟨rfl, Or.inr ⟨_, rfl⟩⟩ hnone
  · rename_i hsome
    exact iff_of_false (fun h => by cases h.1) hsome

/-- When a second rewriting does nothing: for a text, and for the sources of a project whose config
file is not among the files that were rewritten. -/
theorem rewriting_stable_iff (source : String) (d : Disk) (o : RewriteOptions) :
    (rewrite (rewrite source).text = ⟨(rewrite source).text, 0⟩ ↔ ¬Annotations.Bridged source) ∧
      ((rewriteProject d { o with mode := .inPlace }).exitStatus = 0 →
        (∀ p, Config.search d (.ofAddress d.here) = some p →
          (rewriteProject d { o with mode := .inPlace }).disk.read p = d.read p) →
        (FindsNothing (rewriteProject (rewriteProject d { o with mode := .inPlace }).disk
            { o with mode := .preview }) ↔
          ∀ p ∈ scanned d o.sourceRoot, ∀ bytes, d.read p = .ok bytes →
            ¬Annotations.Bridged (decodeLossy bytes))) := by
  refine ⟨rewrite_text_rewrite_iff, fun h hconfig => ?_⟩
  have hok := Outcome.exitStatus_eq_zero_iff.mp h
  obtain ⟨ss, hss, -⟩ := inPlace_wrote hok
  obtain ⟨c, -, hprepare, hscanned, -⟩ := exists_context hok
  have hafter := readSources_inPlace h hss
  have hrun : ∃ stderr, rewriteProject (rewriteProject d { o with mode := .inPlace }).disk
      { o with mode := .preview } =
      rewriteFrom (rewriteProject d { o with mode := .inPlace }).disk .preview c stderr := by
    obtain ⟨rs, hrs⟩ : ∃ rs, prepare d { sourceRoot := o.sourceRoot } = (rs, .ok c) :=
      ⟨_, Prod.ext rfl hprepare⟩
    rw [rewriteProject, ← prepare_eq (inPlace_alike d o) _ hconfig, hrs]
    exact ⟨_, rfl⟩
  obtain ⟨stderr, hrun⟩ := hrun
  rw [hscanned] at hafter
  have hcounts : (∀ s ∈ ss.map fun s => (⟨s.path, (rewrite s.text).text⟩ : Source),
      (rewrite s.text).count = 0) ↔ ∀ s ∈ ss, ¬Annotations.Bridged s.text := by
    rw [List.forall_mem_map]
    exact forall₂_congr fun s _ => count_rewrite_rewrite_iff s.text
  rw [hrun, findsNothing_preview_iff hafter, hcounts]
  constructor
  · intro hbridged p hp bytes hread
    obtain ⟨bytes', hread', hs⟩ := exists_source hss hp
    obtain rfl : bytes' = bytes := Except.ok.inj (hread'.symm.trans hread)
    exact hbridged ⟨p, decodeLossy bytes'⟩ hs
  · intro hbridged s hs
    obtain ⟨hpath, bytes, hread, htext⟩ := exists_read hss hs
    exact htext ▸ hbridged s.path hpath bytes hread

/-- A project with an annotation that stands alone. -/
def plainProject : Disk := .ofFile "/*r:a*/'x'/**/".toUTF8

theorem rewriting_stable_plainProject :
    (rewriteProject plainProject { mode := .inPlace }).exitStatus = 0 ∧
      (∀ p, Config.search plainProject (.ofAddress plainProject.here) = some p →
        (rewriteProject plainProject { mode := .inPlace }).disk.read p = plainProject.read p) ∧
      (rewrite (rewrite "/*r:a*/'x'/**/").text = ⟨(rewrite "/*r:a*/'x'/**/").text, 0⟩ ↔
        ¬Annotations.Bridged "/*r:a*/'x'/**/") ∧
      (FindsNothing (rewriteProject (rewriteProject plainProject { mode := .inPlace }).disk
          { mode := .preview }) ↔
        ∀ p ∈ scanned plainProject none, ∀ bytes, plainProject.read p = .ok bytes →
          ¬Annotations.Bridged (decodeLossy bytes)) := by
  have hstatus : (rewriteProject plainProject { mode := .inPlace }).exitStatus = 0 := by
    decide +kernel
  have hsearch : Config.search plainProject (.ofAddress plainProject.here) = none := by
    decide +kernel
  have hconfig : ∀ p, Config.search plainProject (.ofAddress plainProject.here) = some p →
      (rewriteProject plainProject { mode := .inPlace }).disk.read p = plainProject.read p := by
    intro p hp
    rw [hsearch] at hp
    cases hp
  obtain ⟨htext, hrun⟩ := rewriting_stable_iff "/*r:a*/'x'/**/" plainProject {}
  exact ⟨hstatus, hconfig, htext, hrun hstatus hconfig⟩

/-- A source with an annotation left open before another one can be rewritten twice. -/
theorem rewriting_not_stable :
    ¬∀ source : String, rewrite (rewrite source).text = ⟨(rewrite source).text, 0⟩ := by
  intro h
  have hrewrite := h "/*r:a*/'x/*r:b*/'y'/**/'/**/"
  revert hrewrite
  decide +kernel

end Run

end CmsVariables
