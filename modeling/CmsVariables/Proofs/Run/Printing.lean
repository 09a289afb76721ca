import CmsVariables.Proofs.Config.Lookup
import CmsVariables.Proofs.Run.Confinement
import CmsVariables.Run.Build

/-!
# Printing the listing

A build prints the listing instead of writing it. What it prints is what it would have written, with
a line end after it, and it leaves the files alone. Only where it looked for source files in vain, and
is asked to tell more, it says so first.

* `Disk.read_of_writeText`: what was written is read back.
* `buildFrom_toStdout`, `exists_of_build_written`: a build that prints, and one that has written.
* `build_prints`: what is printed and what would have been written are the same.
* `build_prints_more`: the line before the listing of nothing.
-/

namespace CmsVariables

open Console

namespace Disk

variable {d d' : Disk} {p : Path} {text : String}

/-- Nothing can be written to the root. -/
theorem writeText_root (d : Disk) (text : String) :
    (d.writeText ⟨true, []⟩ text).1 = .error .isDirectory := by
  have hplace : d.resolve .writing ⟨true, []⟩ = .ok (.entry []) :=
    FileTree.resolve_eq_ok_iff.mpr ⟨rfl, by decide, .stop⟩
  have hwrite (bytes : ByteArray) : d.writeFile ⟨true, []⟩ bytes = .error .isDirectory := by
    unfold writeFile
    rw [hplace]
    rfl
  have hparent : d.makeParent ⟨true, []⟩ = (.ok (), d) := rfl
  unfold writeText
  rw [hparent]
  simp only [hwrite]

/-- What was written is read back. -/
theorem read_of_writeText (hp : p.rooted = true)
    (h : d.writeText p text = (.ok (), d')) : d'.read p = .ok text.toUTF8 := by
  have hsegments : p.segments ≠ [] := by
    intro hnil
    have hroot : p = ⟨true, []⟩ := by
      rw [← hp, ← hnil]
    have hfails := d.writeText_root text
    rw [← hroot, h] at hfails
    cases hfails
  obtain ⟨-, a, hstat, -⟩ := writeText_eq_ok (Or.inl hsegments) h
  exact read_eq_ok_iff.mpr ⟨a, hstat⟩

end Disk

namespace Run

variable {d : Disk} {o : BuildOptions} {c : Context} {ds : List Declaration} {stderr : List Line}

theorem rooted_settle {cwd base : Path} (hcwd : cwd.rooted = true) (hbase : base.rooted = true)
    (flag : Option Path) (setting : String) : (settle cwd base flag setting).rooted = true := by
  unfold settle
  split
  · rw [Path.rooted_join, hcwd, Bool.or_true]
  · rw [Path.rooted_join, hbase, Bool.or_true]

/-- The path of the listing starts at the root. -/
theorem rooted_output {o : Overrides} (h : (prepare d o).2 = .ok c) : c.output.rooted = true := by
  obtain ⟨loaded, a, e, hload, -, rfl⟩ := exists_of_prepare h
  exact rooted_settle rfl (Config.rooted_base_of_load rfl hload) _ _

/-! ## Printing and writing -/

/-- The lines before the listing. -/
def noticeLines (o : BuildOptions) (c : Context) : List Line :=
  if c.files = [] ∧ o.verbose = true then [c.noFilesLine] else []

theorem exists_buildFrom (h : (prepare d o.overrides).2 = .ok c) :
    ∃ stderr, build d o = buildFrom d o c stderr := by
  unfold build
  cases hprepare : prepare d o.overrides with
  | mk rs prepared =>
    rw [hprepare] at h
    obtain rfl : prepared = .ok c := h
    exact ⟨remarkLines o.verbose rs, rfl⟩

theorem buildFrom_toStdout (h : collect d c.files = .ok ds) (hprint : o.toStdout = true) :
    buildFrom d o c stderr =
      ⟨.ok .done, noticeLines o c ++ [[plain (listing c ds)]], stderr, d⟩ := by
  unfold buildFrom
  simp only [h, hprint, if_true]
  rfl

/-- A build that succeeds has prepared and read all sources, and it has printed their listing or
written it. -/
theorem exists_of_build {status : Status} (h : (build d o).result = .ok status) :
    ∃ c ss, (prepare d o.overrides).2 = .ok c ∧ readSources d c.files = .ok ss ∧
      if o.toStdout then
        (build d o).stdout = noticeLines o c ++ [[plain (listing c (declarationsOf ss))]]
      else d.writeText c.output (listing c (declarationsOf ss)) = (.ok (), (build d o).disk) := by
  cases hprepare : (prepare d o.overrides).2 with
  | error f =>
    unfold build at h
    split at h
    · cases h
    · rename_i hok
      rw [hok] at hprepare
      cases hprepare
  | ok c =>
    obtain ⟨stderr, hbuild⟩ := exists_buildFrom hprepare
    rw [hbuild] at h ⊢
    cases hss : readSources d c.files with
    | error f =>
      unfold buildFrom collect at h
      rw [hss] at h
      cases h
    | ok ss =>
      have hcollect : collect d c.files = .ok (declarationsOf ss) := by
        rw [collect, hss]
        rfl
      refine ⟨c, ss, rfl, hss, ?_⟩
      cases hprint : o.toStdout with
      | true =>
        rw [if_pos rfl, buildFrom_toStdout hcollect hprint]
      | false =>
        rw [if_neg Bool.false_ne_true]
        unfold buildFrom at h ⊢
        rw [hcollect] at h ⊢
        simp only [hprint, Bool.false_eq_true, if_false] at h ⊢
        unfold write at h ⊢
        cases hwritten : d.writeText c.output (listing c (declarationsOf ss)) with
        | mk result d' =>
          rw [hwritten] at h
          cases result with
          | error e => cases h
          | ok => rfl

/-- A build that has written has prepared, read all sources and written the listing. -/
theorem exists_of_build_written (hwrite : o.toStdout = false) (h : (build d o).exitStatus = 0) :
    ∃ c ds, (prepare d o.overrides).2 = .ok c ∧ collect d c.files = .ok ds ∧
      d.writeText c.output (listing c ds) = (.ok (), (build d o).disk) := by
  obtain ⟨c, ss, hprepare, hss, hwritten⟩ := exists_of_build (Outcome.exitStatus_eq_zero_iff.mp h)
  rw [hwrite, if_neg Bool.false_ne_true] at hwritten
  refine ⟨c, declarationsOf ss, hprepare, ?_, hwritten⟩
  rw [collect, hss]
  rfl

theorem disk_build_toStdout (d : Disk) (o : BuildOptions) :
    (build d { o with toStdout := true }).disk = d := by
  unfold build
  split
  · rfl
  · unfold buildFrom
    simp only
    split <;> rfl

theorem render_append (color : Bool) (ls ls' : List Line) :
    render color (ls ++ ls') = render color ls ++ render color ls' := by
  unfold render
  rw [List.map_append, String.join_append]

theorem render_plain (color : Bool) (text : String) :
    render color [[plain text]] = text ++ "\n" := by
  simp [render, renderLine, plain, Span.render]

/-- A build that prints leaves the files alone. Where a build that writes succeeds it succeeds as
well, and what it prints is the text written, with a line end; before that it says that there are no
source files, if so and if it is to tell more. -/
theorem build_prints (d : Disk) (o : BuildOptions) :
    (build d { o with toStdout := true }).disk = d ∧
      ((build d { o with toStdout := false }).exitStatus = 0 →
        ∃ c text, (prepare d o.overrides).2 = .ok c ∧
          (build d { o with toStdout := false }).disk.read c.output = .ok text.toUTF8 ∧
          (build d { o with toStdout := true }).exitStatus = 0 ∧
          ∀ color, render color (build d { o with toStdout := true }).stdout =
            (if c.files = [] ∧ o.verbose = true then renderLine color c.noFilesLine else "") ++
              text ++ "\n") := by
  refine ⟨disk_build_toStdout d o, fun h => ?_⟩
  obtain ⟨c, ds, hprepare, hcollect, hwritten⟩ := exists_of_build_written rfl h
  obtain ⟨stderr, hbuild⟩ : ∃ stderr, build d { o with toStdout := true } =
      buildFrom d { o with toStdout := true } c stderr := exists_buildFrom hprepare
  have hprinted := hbuild.trans (buildFrom_toStdout hcollect rfl)
  refine ⟨c, listing c ds, hprepare, Disk.read_of_writeText (rooted_output hprepare) hwritten, ?_,
    fun color => ?_⟩
  · rw [hprinted]
    rfl
  · rw [hprinted, render_append, render_plain, String.append_assoc]
    unfold noticeLines
    split <;> simp [render]

/-- A project without anything in it. -/
def bareProject : Disk := ⟨FileTree.empty, []⟩

/-- The listing of a project of one source file, with one variable. -/
def annotatedListing : String :=
  "<!IoRangePreExecute>\n<%\nstd_a=\"<%std_a%>\"        ' x        a.js\n%>\n<!/IoRangePreExecute>"

theorem build_prints_projects :
    ((build bareProject { verbose := true }).exitStatus = 0 ∧
      ∃ c text, (prepare bareProject {}).2 = .ok c ∧ c.files = [] ∧
        (build bareProject { verbose := true }).disk.read c.output = .ok text.toUTF8 ∧
        (build bareProject { verbose := true, toStdout := true }).exitStatus = 0 ∧
        (build bareProject { verbose := true, toStdout := true }).disk = bareProject ∧
        render false (build bareProject { verbose := true, toStdout := true }).stdout =
          renderLine false c.noFilesLine ++ text ++ "\n") ∧
    (build (.ofFile annotated) { verbose := true }).exitStatus = 0 ∧
      ∃ c text, (prepare (.ofFile annotated) {}).2 = .ok c ∧ c.files = [.ofText "/a.js"] ∧
        text = annotatedListing ∧
        (build (.ofFile annotated) { verbose := true }).disk.read c.output = .ok text.toUTF8 ∧
        (build (.ofFile annotated) { verbose := true, toStdout := true }).exitStatus = 0 ∧
        (build (.ofFile annotated) { verbose := true, toStdout := true }).disk =
          .ofFile annotated ∧
        render false (build (.ofFile annotated) { verbose := true, toStdout := true }).stdout =
          text ++ "\n" := by
  constructor
  · have hstatus : (build bareProject { verbose := true }).exitStatus = 0 := by decide +kernel
    obtain ⟨hdisk, hprints⟩ := build_prints bareProject { verbose := true }
    obtain ⟨c, text, hprepare, hread, hprinted, hstdout⟩ := hprints hstatus
    have hfiles : c.files = [] := by
      have hall : (prepare bareProject {}).2.toOption.map Context.files = some [] := by
        decide +kernel
      rw [hprepare] at hall
      exact Option.some.inj hall
    refine ⟨hstatus, c, text, hprepare, hfiles, hread, hprinted, hdisk, ?_⟩
    rw [hstdout false, if_pos ⟨hfiles, rfl⟩]
  · have hstatus : (build (.ofFile annotated) { verbose := true }).exitStatus = 0 := by
      decide +kernel
    obtain ⟨hdisk, hprints⟩ := build_prints (.ofFile annotated) { verbose := true }
    obtain ⟨c, text, hprepare, hread, hprinted, hstdout⟩ := hprints hstatus
    have hall : (prepare (.ofFile annotated) {}).2.toOption.map (fun c => (c.files, c.output)) =
        some ([.ofText "/a.js"], .ofText "/reddot/jsvars.txt") := by
      decide +kernel
    rw [hprepare] at hall
    obtain ⟨hfiles, houtput⟩ := Prod.mk.inj (Option.some.inj hall)
    have hbytes : ((build (.ofFile annotated) { verbose := true }).disk.read
        (.ofText "/reddot/jsvars.txt")).toOption =
        some annotatedListing.toUTF8 := by
      decide +kernel
    rw [← houtput, hread] at hbytes
    have htext := String.toByteArray_inj.mp (Option.some.inj hbytes)
    refine ⟨hstatus, c, text, hprepare, hfiles, htext, hread, hprinted, hdisk, ?_⟩
    rw [hstdout false, if_neg (by simp [hfiles]), String.empty_append]

/-- A build of nothing prints more than it would have written. -/
theorem build_prints_more : ¬∀ (d : Disk) (o : BuildOptions),
    (build d { o with toStdout := false }).exitStatus = 0 →
      (build d { o with toStdout := true }).exitStatus = 0 →
        ∃ c text, (prepare d o.overrides).2 = .ok c ∧
          (build d { o with toStdout := false }).disk.read c.output = .ok text.toUTF8 ∧
          ∀ color, render color (build d { o with toStdout := true }).stdout = text ++ "\n" := by
  intro h
  obtain ⟨c, text, hprepare, hread, hstdout⟩ :=
    h bareProject { verbose := true } (by decide +kernel) (by decide +kernel)
  have houtput : c.output = .ofText "/reddot/jsvars.txt" := by
    have hall : (prepare bareProject {}).2.toOption.map Context.output =
        some (.ofText "/reddot/jsvars.txt") := by decide +kernel
    rw [hprepare] at hall
    exact Option.some.inj hall
  have hbytes : ((build bareProject { verbose := true }).disk.read
      (.ofText "/reddot/jsvars.txt")).toOption =
      some "<!IoRangePreExecute>\n<%\n%>\n<!/IoRangePreExecute>".toUTF8 := by decide +kernel
  rw [houtput] at hread
  rw [hread] at hbytes
  obtain rfl := String.toByteArray_inj.mp (Option.some.inj hbytes)
  have hprinted := hstdout false
  revert hprinted
  decide +kernel

end Run

end CmsVariables
