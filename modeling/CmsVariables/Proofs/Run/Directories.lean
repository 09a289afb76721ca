import CmsVariables.Proofs.Report.Lines
import CmsVariables.Proofs.Run.Correspondence
import CmsVariables.Proofs.Run.Printing
import CmsVariables.Proofs.Run.SecondRun

/-!
# Runs from two directories of a project

A run looks for its config file upward from the working directory, and all other paths start from
the directory of that file. So two runs that find the same file start from the same, read and write
the same files, and differ only in how they show them.

* `prepare_seenFrom`: what runs from two directories start from.
* `inPlace_seenFrom`: runs in place make the same changes.
* `result_buildFrom`, `exists_rows`: builds end alike, and their listings differ in the paths shown.
* `runs_seenFrom`: so two runs do the same work.
-/

namespace CmsVariables

open Disk Console

namespace Run

variable {d : Disk} {a b : Address} {p : Path} {c : Context} {stderr : List Line}

/-! ## What a run starts from -/

/-- What a run starts from, with another working directory. -/
def Context.seenFrom (c : Context) (a : Address) : Context :=
  { c with workingDirectory := .ofAddress a }

theorem contextFrom_seenFrom {loaded : Config.Loaded} (hbase : loaded.base.rooted = true) :
    contextFrom (d.seenFrom b) {} loaded =
      (contextFrom (d.seenFrom a) {} loaded).map fun x => (x.1.seenFrom b, x.2) := by
  have htree := d.seenFrom_tree a b
  have hroot : (loaded.base.join (.ofText loaded.config.sourceRoot)).rooted = true := by
    rw [Path.rooted_join, hbase, Bool.or_true]
  unfold contextFrom settle
  simp only [seenFrom_correspondence.canonical_eq htree hroot]
  cases hcanonical : (d.seenFrom a).canonical
      (loaded.base.join (.ofText loaded.config.sourceRoot)) with
  | error e => rfl
  | ok sourceRoot =>
    have hsource : sourceRoot.rooted = true := by
      unfold Disk.canonical at hcanonical
      cases hstat : (d.seenFrom a).stat
          (loaded.base.join (.ofText loaded.config.sourceRoot)) with
      | error e =>
        rw [hstat] at hcanonical
        cases hcanonical
      | ok found =>
        rw [hstat] at hcanonical
        cases hcanonical
        rfl
    have hdiscover (config : Config) := discover_eq_of_tree
      (q := discovery config sourceRoot) htree hsource
    simp only [hdiscover]
    rfl

/-- Two runs without flags that find the same config file start from the same. -/
theorem prepare_seenFrom (ha : Config.search (d.seenFrom a) (.ofAddress a) = some p)
    (hb : Config.search (d.seenFrom b) (.ofAddress b) = some p) :
    prepare (d.seenFrom b) {} = ((prepare (d.seenFrom a) {}).1,
      (prepare (d.seenFrom a) {}).2.map fun c => c.seenFrom b) := by
  have hload : Config.load (d.seenFrom b) (.ofAddress b) =
      Config.load (d.seenFrom a) (.ofAddress a) :=
    Config.load_eq_of_search (seenFrom_tree d a b) rfl ha hb
  have hhere (a : Address) : (d.seenFrom a).here = a := rfl
  unfold prepare
  rw [hhere, hhere, hload]
  cases hloaded : Config.load (d.seenFrom a) (.ofAddress a) with
  | error f => rfl
  | ok loaded =>
    have hcontext := contextFrom_seenFrom (d := d) (a := a) (b := b)
      (Config.rooted_base_of_load rfl hloaded)
    simp only
    rw [hcontext]
    cases contextFrom (d.seenFrom a) {} loaded <;> rfl

theorem rooted_files {o : Overrides} (h : (prepare d o).2 = .ok c) :
    ∀ p ∈ c.files, p.rooted = true := by
  obtain ⟨-, ⟨a, ha⟩, hfiles⟩ := prepare_eq_ok h
  rw [hfiles]
  intro p hp
  refine Discovery.rooted_of_mem_discover ?_ hp
  show c.sourceRoot.rooted = true
  rw [ha]
  rfl

/-! ## Runs in place -/

/-- What a run in place does is told without the working directory. -/
theorem inPlace_seenFrom (hfiles : ∀ p ∈ c.files, p.rooted = true) :
    rewriteFrom (d.seenFrom b) .inPlace (c.seenFrom b) stderr =
      { rewriteFrom (d.seenFrom a) .inPlace c stderr with
        disk := (rewriteFrom (d.seenFrom a) .inPlace c stderr).disk.seenFrom b } := by
  have hsame : rewriteFrom (d.seenFrom b) .inPlace (c.seenFrom b) stderr =
      rewriteFrom (d.seenFrom b) .inPlace c stderr := rfl
  have htree := d.seenFrom_tree a b
  have hrun : SameRun (fun d d' => d'.tree = d.tree) (rewriteFrom (d.seenFrom a) .inPlace c stderr)
      (rewriteFrom (d.seenFrom b) .inPlace c stderr) :=
    rewriteFrom_alike seenFrom_correspondence htree hfiles trivial
  obtain ⟨hresult, hstdout, hstderr, hdisk⟩ := hrun
  have hhere : (rewriteFrom (d.seenFrom b) .inPlace c stderr).disk.here = b :=
    (rewriteFrom_inPlace_alike (d.seenFrom b) c stderr).here
  rw [hsame]
  generalize rewriteFrom (d.seenFrom b) .inPlace c stderr = r at *
  generalize rewriteFrom (d.seenFrom a) .inPlace c stderr = r' at *
  obtain ⟨result, stdout, stderr, tree, here⟩ := r
  simp only at hresult hstdout hstderr hdisk hhere
  subst hresult hstdout hstderr hdisk hhere
  rfl

/-! ## Builds -/

/-- How writing ends does not depend on the text. -/
theorem result_writeText (d : Disk) (p : Path) (text text' : String) :
    (d.writeText p text).1 = (d.writeText p text').1 := by
  unfold Disk.writeText Disk.writeFile
  cases d.makeParent p with
  | mk made d' =>
    cases made with
    | error e => rfl
    | ok =>
      simp only
      cases d'.resolve .writing p with
      | error e => rfl
      | ok place => by_cases hroom : d'.tree.hasRoom place.address <;> simp [hroom]

/-- A build that writes ends as reading the sources and writing any text do. -/
theorem result_buildFrom {o : BuildOptions} (hwrite : o.toStdout = false) (text : String) :
    (buildFrom d o c stderr).result = (collect d c.files).bind fun _ =>
      match (d.writeText c.output text).1 with
      | .error e => .error (.unwritable c.output e)
      | .ok () => .ok .done := by
  unfold buildFrom
  cases collect d c.files with
  | error f => rfl
  | ok ds =>
    have htext := result_writeText d c.output (listing c ds) text
    simp only [hwrite, Bool.false_eq_true, if_false, Except.bind, ← htext]
    unfold write
    generalize d.writeText c.output (listing c ds) = r
    obtain ⟨result, d'⟩ := r
    cases result <;> rfl

theorem collect_seenFrom (hfiles : ∀ p ∈ c.files, p.rooted = true) :
    collect (d.seenFrom b) c.files = collect (d.seenFrom a) c.files := by
  unfold collect
  rw [readSources_congr seenFrom_correspondence (d.seenFrom_tree a b) hfiles]

/-- Builds from two directories end alike. -/
theorem result_build_seenFrom {verbose : Bool}
    (ha : Config.search (d.seenFrom a) (.ofAddress a) = some p)
    (hb : Config.search (d.seenFrom b) (.ofAddress b) = some p) :
    (build (d.seenFrom b) { verbose := verbose }).result =
      (build (d.seenFrom a) { verbose := verbose }).result := by
  have hprepare := prepare_seenFrom ha hb
  unfold build
  simp only [hprepare]
  cases hc : prepare (d.seenFrom a) {} with
  | mk rs prepared =>
    cases prepared with
    | error f => rfl
    | ok c =>
      have hc : (prepare (d.seenFrom a) {}).2 = .ok c := by rw [hc]
      have hwrite := seenFrom_correspondence.writeText (d.seenFrom_tree a b) (rooted_output hc) ""
      simp only [Except.map]
      rw [result_buildFrom rfl "", result_buildFrom rfl ""]
      have hcollect : collect (d.seenFrom b) (c.seenFrom b).files =
          collect (d.seenFrom a) c.files :=
        collect_seenFrom (c := c) (rooted_files hc)
      have houtput : (c.seenFrom b).output = c.output := rfl
      rw [hcollect, houtput, hwrite.result]

/-- The line of a declaration up to the path shown. -/
def columns (w : Report.Widths) (e : Declaration) : String :=
  Report.padded e.assignment w.assignment ++ Report.commentMark ++ Report.padded e.content w.content

/-- The text of a listing of which the columns are known, with paths shown from a directory. -/
def rowsFrom (c : Context) (ds : List Declaration) (w : Report.Widths) (a : Address) : String :=
  Report.joinLines (c.config.head ++
    ds.map (fun e => columns w e ++ Report.displayPath e.file (some (.ofAddress a))) ++
    c.config.foot)

theorem exists_rows (c : Context) (ds : List Declaration) :
    ∃ w, (ds ≠ [] → Report.Widths.measure? ds = some w) ∧
      ∀ a, listing (c.seenFrom a) ds = rowsFrom c ds w a := by
  obtain ⟨w, hmeasure, hlines⟩ := Report.exists_bodyLines_eq ds
  refine ⟨w, hmeasure, fun a => ?_⟩
  unfold listing Report.render
  rw [hlines]
  rfl

/-- A build that has written leaves the listing of what it read. -/
theorem read_output_of_build {o : BuildOptions} {ds : List Declaration}
    (hc : (prepare d o.overrides).2 = .ok c) (hds : collect d c.files = .ok ds)
    (hwrite : o.toStdout = false) (h : (build d o).exitStatus = 0) :
    (build d o).disk.read c.output = .ok (listing c ds).toUTF8 := by
  obtain ⟨c', ds', hc', hds', hwritten⟩ := exists_of_build_written hwrite h
  obtain rfl : c' = c := Except.ok.inj (hc'.symm.trans hc)
  obtain rfl : ds' = ds := Except.ok.inj (hds'.symm.trans hds)
  exact Disk.read_of_writeText (rooted_output hc) hwritten

/-! ## The same work -/

/-- Runs without flags from the directories `a` and `b` do the same work. -/
structure SameWork (d : Disk) (a b : Address) : Prop where
  /-- They start from the same source root, files and output, or fail alike. -/
  prepared : prepare (d.seenFrom b) {} = ((prepare (d.seenFrom a) {}).1,
    (prepare (d.seenFrom a) {}).2.map fun c => c.seenFrom b)
  /-- A run in place makes the same changes, prints the same lines and ends alike. -/
  inPlace : ∀ verbose,
    rewriteProject (d.seenFrom b) { verbose := verbose, mode := .inPlace } =
      { rewriteProject (d.seenFrom a) { verbose := verbose, mode := .inPlace } with
        disk := (rewriteProject (d.seenFrom a)
          { verbose := verbose, mode := .inPlace }).disk.seenFrom b }
  /-- A build ends alike. -/
  ended : ∀ verbose, (build (d.seenFrom b) { verbose := verbose }).result =
    (build (d.seenFrom a) { verbose := verbose }).result
  /-- The listings differ in the paths shown only. -/
  listed : ∀ verbose, (build (d.seenFrom a) { verbose := verbose }).exitStatus = 0 →
    ∃ c ds w, (prepare (d.seenFrom a) {}).2 = .ok c ∧
      collect (d.seenFrom a) c.files = .ok ds ∧
      (ds ≠ [] → Report.Widths.measure? ds = some w) ∧
      (build (d.seenFrom a) { verbose := verbose }).disk.read c.output =
        .ok (rowsFrom c ds w a).toUTF8 ∧
      (build (d.seenFrom b) { verbose := verbose }).disk.read c.output =
        .ok (rowsFrom c ds w b).toUTF8

/-- Runs without flags from two directories that find the same config file do the same work. -/
theorem runs_seenFrom {d : Disk} {a b : Address} {p : Path}
    (ha : Config.search (d.seenFrom a) (.ofAddress a) = some p)
    (hb : Config.search (d.seenFrom b) (.ofAddress b) = some p) : SameWork d a b := by
  have hprepare := prepare_seenFrom ha hb
  refine ⟨hprepare, fun verbose => ?_, fun _ => result_build_seenFrom ha hb, fun verbose h => ?_⟩
  · unfold rewriteProject
    simp only [hprepare]
    cases hc : prepare (d.seenFrom a) {} with
    | mk rs prepared =>
      cases prepared with
      | error f => rfl
      | ok c => exact inPlace_seenFrom (rooted_files (by rw [hc]))
  · obtain ⟨c, ds, hc, hds, -⟩ := exists_of_build_written rfl h
    obtain ⟨w, hmeasure, hrows⟩ := exists_rows c ds
    have hcwd : c.seenFrom a = c := by
      obtain ⟨hcwd, -⟩ := prepare_eq_ok hc
      unfold Context.seenFrom
      rw [show Path.ofAddress a = c.workingDirectory from hcwd.symm]
    have hc' : (prepare (d.seenFrom b) {}).2 = .ok (c.seenFrom b) := by
      rw [hprepare]
      simp only at hc ⊢
      rw [hc]
      rfl
    have hds' : collect (d.seenFrom b) (c.seenFrom b).files = .ok ds :=
      (collect_seenFrom (rooted_files hc)).trans hds
    have h' : (build (d.seenFrom b) { verbose := verbose }).exitStatus = 0 := by
      rw [Outcome.exitStatus_eq_zero_iff] at h ⊢
      rw [result_build_seenFrom ha hb, h]
    refine ⟨c, ds, w, hc, hds, hmeasure, ?_, ?_⟩
    · have hlisting := read_output_of_build (o := { verbose := verbose }) hc hds rfl h
      rwa [← hcwd, hrows a] at hlisting
    · have hlisting := read_output_of_build (o := { verbose := verbose }) hc' hds' rfl h'
      rwa [hrows b] at hlisting

/-- A project with a config file and one script. -/
def configuredProject : Disk where
  tree := ((FileTree.empty.put [⟨".reddotrc.json", Eq.refl true⟩] (.file "{}".toUTF8)).put
    [⟨"src", Eq.refl true⟩] .directory).put [⟨"a.js", Eq.refl true⟩, ⟨"src", Eq.refl true⟩]
      (.file "/*r:a*/'x'/**/".toUTF8)
  here := []

/-- The config file is found from the root and from `src`, and the script is built. -/
theorem runs_seenFrom_source :
    (build (configuredProject.seenFrom []) {}).exitStatus = 0 ∧
      SameWork configuredProject [] [⟨"src", by decide⟩] := by
  refine ⟨by decide +kernel, runs_seenFrom (p := .ofText "/.reddotrc.json") ?_ ?_⟩
  · decide +kernel
  · decide +kernel

end Run

end CmsVariables
