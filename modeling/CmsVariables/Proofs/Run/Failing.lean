import CmsVariables.Program
import CmsVariables.Proofs.Run.Confinement

/-!
# Runs that fail

A run loads its settings, finds and reads its files, and finds a place for each copy before it
writes anything. So a run that does not fail in a write has changed nothing if it fails. Each
command reads the files in the order in which they were found, so all of them fail at the same file
if some file cannot be read.

* `readSources_eq_error_iff`: reading fails at the first file that cannot be read.
* `FailsCleanly`: a run changes nothing if it fails, unless it fails in a write.
* `runs_fail_alike`: so it is for all command lines, and the commands fail at the same file.
-/

namespace CmsVariables

/-- A file could not be written. -/
def Failure.IsOfWriting (f : Failure) : Prop := ∃ p e, f = .unwritable p e

namespace Run

variable {d : Disk}

/-! ## The first file that cannot be read -/

/-- `p` is the first of some paths that cannot be read, and `e` is the reason. -/
def FirstUnreadable (d : Disk) (ps : List Path) (p : Path) (e : SystemError) : Prop :=
  ∃ front rest, ps = front ++ p :: rest ∧ (∀ q ∈ front, ∃ bytes, d.read q = .ok bytes) ∧
    d.read p = .error e

theorem readSource_eq_error_iff {p : Path} {f : Failure} :
    readSource d p = .error f ↔ ∃ e, d.read p = .error e ∧ f = .unreadable p e := by
  rw [readSource]
  cases d.read p with
  | error e => simp [eq_comm]
  | ok bytes => simp

theorem FirstUnreadable.head {p : Path} {ps : List Path} {e : SystemError}
    (h : d.read p = .error e) : FirstUnreadable d (p :: ps) p e :=
  ⟨[], ps, rfl, List.forall_mem_nil _, h⟩

/-- The first path that cannot be read comes after one that can. -/
theorem firstUnreadable_cons_iff {p q : Path} {ps : List Path} {bytes : ByteArray} {e : SystemError}
    (hq : d.read q = .ok bytes) :
    FirstUnreadable d (q :: ps) p e ↔ FirstUnreadable d ps p e := by
  constructor
  · rintro ⟨front, rest, heq, hfront, hp⟩
    rcases List.append_eq_cons_iff.mp heq.symm with ⟨rfl, hcons⟩ | ⟨front, rfl, hps⟩
    · obtain ⟨rfl, -⟩ := List.cons_eq_cons.mp hcons
      rw [hq] at hp
      cases hp
    · exact ⟨front, rest, hps, (List.forall_mem_cons.mp hfront).2, hp⟩
  · rintro ⟨front, rest, rfl, hfront, hp⟩
    exact ⟨q :: front, rest, rfl, List.forall_mem_cons.mpr ⟨⟨bytes, hq⟩, hfront⟩, hp⟩

theorem readSources_eq_error_iff {ps : List Path} {f : Failure} :
    readSources d ps = .error f ↔ ∃ p e, FirstUnreadable d ps p e ∧ f = .unreadable p e := by
  induction ps with
  | nil =>
    refine iff_of_false (fun h => nomatch h) ?_
    rintro ⟨p, e, ⟨front, rest, heq, -⟩, -⟩
    exact absurd heq.symm (List.append_ne_nil_of_right_ne_nil _ (List.cons_ne_nil _ _))
  | cons q ps ih =>
    rw [readSources]
    cases hq : readSource d q with
    | error g =>
      obtain ⟨e, hread, rfl⟩ := readSource_eq_error_iff.mp hq
      constructor
      · intro h
        exact ⟨q, e, .head hread, (Except.error.inj h).symm⟩
      · rintro ⟨p, e', ⟨front, rest, heq, hfront, hp⟩, rfl⟩
        rcases List.append_eq_cons_iff.mp heq.symm with ⟨-, hcons⟩ | ⟨front, rfl, -⟩
        · obtain ⟨rfl, -⟩ := List.cons_eq_cons.mp hcons
          rw [Except.error.inj (hread.symm.trans hp)]
        · obtain ⟨bytes, hok⟩ := (List.forall_mem_cons.mp hfront).1
          rw [hread] at hok
          cases hok
    | ok s =>
      obtain ⟨-, bytes, hread, -⟩ := readSource_eq_ok_iff.mp hq
      simp only [firstUnreadable_cons_iff hread, ← ih]
      cases readSources d ps <;> simp

/-- If one of some paths cannot be read, reading them fails at the first such. -/
theorem exists_firstUnreadable {ps : List Path} (h : ∃ p ∈ ps, ∀ bytes, d.read p ≠ .ok bytes) :
    ∃ p e, FirstUnreadable d ps p e ∧ readSources d ps = .error (.unreadable p e) := by
  cases hread : readSources d ps with
  | error f =>
    obtain ⟨p, e, hfirst, rfl⟩ := readSources_eq_error_iff.mp hread
    exact ⟨p, e, hfirst, rfl⟩
  | ok ss =>
    obtain ⟨p, hp, hnot⟩ := h
    obtain ⟨bytes, hbytes, -⟩ := exists_source hread hp
    exact absurd hbytes (hnot bytes)

/-! ## Nothing is written before a failure -/

/-- A run from `d` changes nothing if it fails, unless it fails in a write. -/
def FailsCleanly (d : Disk) (r : Outcome) : Prop :=
  ∀ f, r.result = .error f → ¬f.IsOfWriting → r.disk = d

theorem FailsCleanly.of_status {status : Status} {r : Outcome} (h : r.result = .ok status) :
    FailsCleanly d r := by
  intro f hf
  rw [h] at hf
  cases hf

theorem FailsCleanly.of_isOfWriting {f : Failure} {r : Outcome} (h : r.result = .error f)
    (hf : f.IsOfWriting) : FailsCleanly d r := by
  intro g hg hnot
  obtain rfl : f = g := Except.error.inj (h.symm.trans hg)
  exact absurd hf hnot

theorem FailsCleanly.of_disk {r : Outcome} (h : r.disk = d) : FailsCleanly d r := fun _ _ _ => h

theorem isOfWriting_of_write {d' : Disk} {p : Path} {text : String} {f : Failure}
    (h : write d p text = (.error f, d')) : f.IsOfWriting := by
  rw [write] at h
  split at h
  · cases h
  · cases h
    exact ⟨p, _, rfl⟩

theorem isOfWriting_of_writeAll {d' : Disk} {ws : List (Path × String)} {f : Failure}
    (h : writeAll d ws = (.error f, d')) : f.IsOfWriting := by
  induction ws generalizing d with
  | nil => cases h
  | cons w ws ih =>
    rw [writeAll] at h
    split at h
    · rename_i hwrite
      cases h
      exact isOfWriting_of_write hwrite
    · exact ih h

theorem buildFrom_failsCleanly (d : Disk) (o : BuildOptions) (c : Context)
    (stderr : List Console.Line) : FailsCleanly d (buildFrom d o c stderr) := by
  rw [buildFrom]
  split
  · exact .of_disk rfl
  split
  · exact .of_disk rfl
  split
  · rename_i hwrite
    exact .of_isOfWriting rfl (isOfWriting_of_write hwrite)
  · exact .of_status rfl

theorem writeCopies_failsCleanly (d : Disk) (c : Context) (fs : List RewrittenFile) (dir : Path)
    (stderr : List Console.Line) : FailsCleanly d (writeCopies d c fs dir stderr) := by
  rw [writeCopies]
  split
  · exact .of_disk rfl
  split
  · rename_i hwrite
    exact .of_isOfWriting rfl (isOfWriting_of_writeAll hwrite)
  · exact .of_status rfl

theorem writeInPlace_failsCleanly (d : Disk) (changed : List RewrittenFile)
    (stderr : List Console.Line) : FailsCleanly d (writeInPlace d changed stderr) := by
  rw [writeInPlace]
  split
  · rename_i hwrite
    exact .of_isOfWriting rfl (isOfWriting_of_writeAll hwrite)
  · exact .of_status rfl

theorem rewriteFrom_failsCleanly (d : Disk) (mode : Mode) (c : Context)
    (stderr : List Console.Line) : FailsCleanly d (rewriteFrom d mode c stderr) := by
  rw [rewriteFrom]
  split
  · exact .of_disk rfl
  split
  · exact .of_disk rfl
  cases mode with
  | preview =>
    simp only
    split <;> exact .of_disk rfl
  | inPlace =>
    simp only
    split
    · exact .of_disk rfl
    · exact writeInPlace_failsCleanly d _ _
  | copies dir => exact writeCopies_failsCleanly d c _ _ _

theorem init_failsCleanly (d : Disk) : FailsCleanly d (init d) := by
  rw [init]
  split
  · exact .of_disk rfl
  split
  · exact .of_disk rfl
  · exact .of_status rfl

theorem execute_failsCleanly (d : Disk) (c : CommandLine.Command) :
    FailsCleanly d (Program.execute d c) := by
  cases c with
  | build o =>
    rw [Program.execute, build]
    split
    · exact .of_disk rfl
    · exact buildFrom_failsCleanly d o _ _
  | rewrite o =>
    rw [Program.execute, rewriteProject]
    split
    · exact .of_disk rfl
    · exact rewriteFrom_failsCleanly d o.mode _ _
  | init => exact init_failsCleanly d

theorem run_failsCleanly {words : List String} {r : Outcome} (h : Program.run d words = .ok r) :
    FailsCleanly d r := by
  rw [Program.run] at h
  split at h
  · cases h
  · cases h
    exact execute_failsCleanly d _
  · cases h
    exact .of_disk rfl

/-! ## Both commands fail at one file -/

theorem prepare_of_mem_scanned {o : Overrides} {p : Path} (h : p ∈ scanned d o.sourceRoot) :
    ∃ c, (prepare d o).2 = .ok c ∧ scanned d o.sourceRoot = c.files := by
  cases hprepare : (prepare d o).2 with
  | ok c => exact ⟨c, rfl, scanned_of_prepare hprepare⟩
  | error f =>
    -- which files are scanned is told with other settings, but these fail alike
    have hstart := start_prepare d o
    rw [hprepare] at hstart
    rw [scanned] at h
    split at h
    · rename_i hc
      rw [hc] at hstart
      cases hstart
    · cases h

theorem build_of_unreadable {o : BuildOptions} {f : Failure}
    (h : readSources d (scanned d o.overrides.sourceRoot) = .error f)
    (hsome : scanned d o.overrides.sourceRoot ≠ []) : (build d o).result = .error f := by
  obtain ⟨p, hp⟩ := List.exists_mem_of_ne_nil _ hsome
  obtain ⟨c, hc, hfiles⟩ := prepare_of_mem_scanned hp
  rw [hfiles] at h
  rw [build]
  cases hprepare : prepare d o.overrides with
  | mk rs prepared =>
    rw [hprepare] at hc
    obtain rfl : prepared = .ok c := hc
    simp only [buildFrom, collect, h]
    rfl

theorem rewriteProject_of_unreadable {o : RewriteOptions} {f : Failure}
    (h : readSources d (scanned d o.sourceRoot) = .error f)
    (hsome : scanned d o.sourceRoot ≠ []) : (rewriteProject d o).result = .error f := by
  obtain ⟨p, hp⟩ := List.exists_mem_of_ne_nil _ hsome
  obtain ⟨c, hc, hfiles⟩ :=
    prepare_of_mem_scanned (o := { sourceRoot := o.sourceRoot }) hp
  obtain ⟨stderr, hrun⟩ := exists_rewriteFrom hc
  rw [hfiles] at h hsome
  rw [hrun, rewriteFrom, if_neg hsome, h]

/-- Whatever the command line, a run that fails has changed nothing, unless it failed in a write. If
a file that was found cannot be read, then a build fails at the first such file, and so does a
rewriting run of the same files, each in all of its modes. -/
theorem runs_fail_alike (d : Disk) :
    (∀ words r, Program.run d words = .ok r → ∀ f, r.result = .error f → ¬f.IsOfWriting →
      r.disk = d) ∧
    ∀ sourceRoot, (∃ p ∈ scanned d sourceRoot, ∀ bytes, d.read p ≠ .ok bytes) →
      ∃ p e, FirstUnreadable d (scanned d sourceRoot) p e ∧
        (∀ o : BuildOptions, o.overrides.sourceRoot = sourceRoot →
          (build d o).result = .error (.unreadable p e)) ∧
        ∀ o : RewriteOptions, o.sourceRoot = sourceRoot →
          (rewriteProject d o).result = .error (.unreadable p e) := by
  refine ⟨fun words r h => run_failsCleanly h, fun sourceRoot h => ?_⟩
  obtain ⟨p, e, hfirst, hread⟩ := exists_firstUnreadable h
  have hsome : scanned d sourceRoot ≠ [] := List.ne_nil_of_mem h.choose_spec.1
  refine ⟨p, e, hfirst, ?_, ?_⟩
  · rintro o rfl
    exact build_of_unreadable hread hsome
  · rintro o rfl
    exact rewriteProject_of_unreadable hread hsome

/-- A project in which two of three sources are links that lead nowhere. -/
def brokenProject : Disk where
  tree := ((FileTree.empty.put [⟨"c.js", Eq.refl true⟩] (.link (.ofText "c.js"))).put
    [⟨"b.js", Eq.refl true⟩] (.link (.ofText "missing"))).put
    [⟨"a.js", Eq.refl true⟩] (.file "/*r:a*/'x'/**/".toUTF8)
  here := []

theorem runs_fail_alike_brokenProject :
    Path.ofText "/b.js" ∈ scanned brokenProject none ∧
      (∀ bytes, brokenProject.read (.ofText "/b.js") ≠ .ok bytes) ∧
      ∃ p e r, FirstUnreadable brokenProject (scanned brokenProject none) p e ∧
        (build brokenProject { toStdout := true }).result = .error (.unreadable p e) ∧
        Program.run brokenProject ["rewrite", "--apply"] = .ok r ∧
        r.result = .error (.unreadable p e) ∧ r.disk = brokenProject := by
  obtain ⟨hclean, hread⟩ := runs_fail_alike brokenProject
  have hscanned :
      scanned brokenProject none = [.ofText "/a.js", .ofText "/b.js", .ofText "/c.js"] :=
    scanned_eq_of_sorted {} .root (by decide +kernel) (by decide +kernel) (by decide +kernel)
  have hmem : Path.ofText "/b.js" ∈ scanned brokenProject none := by
    rw [hscanned]
    decide
  have hbroken : ∀ bytes, brokenProject.read (.ofText "/b.js") ≠ .ok bytes := by
    have herror : (brokenProject.read (.ofText "/b.js")).toOption = none := by decide +kernel
    intro bytes h
    rw [h] at herror
    cases herror
  obtain ⟨p, e, hfirst, hbuild, hrewrite⟩ := hread none ⟨_, hmem, hbroken⟩
  have hrun : Program.run brokenProject ["rewrite", "--apply"] =
      .ok (rewriteProject brokenProject { mode := .inPlace }) := by
    have hparse : CommandLine.parse ["rewrite", "--apply"] =
        .ok (some (.rewrite { mode := .inPlace })) := by decide +kernel
    rw [Program.run, hparse]
    rfl
  have hresult := hrewrite { mode := .inPlace } rfl
  refine ⟨hmem, hbroken, p, e, _, hfirst, hbuild { toStdout := true } rfl, hrun, hresult,
    hclean _ _ hrun _ hresult ?_⟩
  rintro ⟨q, e', h⟩
  cases h

end Run

end CmsVariables
