import CmsVariables.Proofs.Path.Ascent
import CmsVariables.Proofs.Run.Repeating

/-!
# Copies of what was there before

A run that copies reads all files before it writes the first one. So a copy holds what becomes of the
text that its file had before the run, also if the copy of another file has been written over it
since. Only another copy can spoil a copy, one that is written to the same place later; and that
takes a path that goes up over the source root and down again.

* `CopyOf`: the place of the copy of a file that was found.
* `exists_last_copy`: a copy holds the text of some file whose copy has that place.
* `copies_snapshot`: what a run leaves behind, and when each file has a copy of its own.
* `copies_collide`: two files can share a copy.
-/

namespace CmsVariables.Run

open FileTree Text

/-- The file at `a` is where the copy of the file `p` is written. -/
def CopyOf (d : Disk) (o : RewriteOptions) (dir p : Path) (a : Address) : Prop :=
  ∃ c ∈ context? d o.sourceRoot, p ∈ c.files ∧ ∃ q,
    copyPath c.sourceRoot (c.workingDirectory.join dir) p = .ok q ∧
      (rewriteProject d { o with mode := .copies dir }).disk.fileAt? q = some a

/-- Each file that was found has a copy, and it holds what becomes of the text of that file before
the run. -/
def HoldsOwnTexts (d : Disk) (o : RewriteOptions) (dir : Path) : Prop :=
  ∀ p ∈ scanned d o.sourceRoot, ∃ a text, CopyOf d o dir p a ∧ rewrittenAt d p = .ok text ∧
    (rewriteProject d { o with mode := .copies dir }).disk.tree.get? a = some (.file text.toUTF8)

/-- The copies of different files have different places. -/
def CopiesApart (d : Disk) (o : RewriteOptions) (dir : Path) : Prop :=
  ∀ p q a, CopyOf d o dir p a → CopyOf d o dir q a → p = q

section Places

variable {d : Disk} {o : RewriteOptions} {dir p q : Path} {a b : Address}

theorem CopyOf.mem_scanned (h : CopyOf d o dir p a) : p ∈ scanned d o.sourceRoot := by
  obtain ⟨c, hc, hp, -⟩ := h
  exact mem_scanned_iff.mpr ⟨c, hc, hp⟩

/-- A file has one copy. -/
theorem CopyOf.unique (h : CopyOf d o dir p a) (h' : CopyOf d o dir p b) : a = b := by
  obtain ⟨c, hc, -, r, hr, ha⟩ := h
  obtain ⟨c', hc', -, r', hr', hb⟩ := h'
  obtain rfl : c = c' := Option.some.inj (hc.symm.trans hc')
  obtain rfl : r = r' := Except.ok.inj (hr.symm.trans hr')
  exact Option.some.inj (ha.symm.trans hb)

/-- A copy holds what becomes of the text that some file had before the run, whose copy has the same
place. -/
theorem exists_last_copy (h : (rewriteProject d { o with mode := .copies dir }).exitStatus = 0)
    (hcopy : CopyOf d o dir p a) : ∃ q text, CopyOf d o dir q a ∧ rewrittenAt d q = .ok text ∧
      (rewriteProject d { o with mode := .copies dir }).disk.tree.get? a =
        some (.file text.toUTF8) := by
  obtain ⟨c, hc, hp, r, hr, ha⟩ := hcopy
  obtain ⟨c', hc', ws, hplan, hwrite⟩ := rewriteProject_copies_iff.mp ⟨h, rfl⟩
  obtain rfl : c = c' := Option.some.inj (hc.symm.trans hc')
  have hwrote := wrote_of_plan? hplan hwrite
  obtain ⟨w, hw, hplace, -⟩ := exists_of_plan? hplan hp
  obtain rfl : r = w.1 := Except.ok.inj (hr.symm.trans hplace)
  cases hlast : lastWriteTo (rewriteProject d { o with mode := .copies dir }).disk a ws with
  | none => exact absurd ha (lastWriteTo_eq_none_iff.mp hlast w hw)
  | some text =>
    obtain ⟨w', hw', hfile, rfl⟩ := exists_of_lastWriteTo hlast
    obtain ⟨q, hq, hplace', htext⟩ := (mem_plan?_iff hplan).mp hw'
    exact ⟨q, w'.2, ⟨c, hc, hq, w'.1, hplace', hfile⟩, htext, hwrote.last a w'.2 hlast⟩

theorem exists_copyOf (h : (rewriteProject d { o with mode := .copies dir }).exitStatus = 0)
    (hp : p ∈ scanned d o.sourceRoot) : ∃ a, CopyOf d o dir p a := by
  obtain ⟨c, hc, ws, hplan, hwrite⟩ := rewriteProject_copies_iff.mp ⟨h, rfl⟩
  obtain ⟨c', hc', hp⟩ := mem_scanned_iff.mp hp
  obtain rfl : c = c' := Option.some.inj (hc.symm.trans hc')
  obtain ⟨w, hw, hplace, -⟩ := exists_of_plan? hplan hp
  obtain ⟨a, ha⟩ := (wrote_of_plan? hplan hwrite).file w hw
  exact ⟨a, c, hc, hp, w.1, hplace, ha⟩

/-- What is not the place of a copy is left alone. -/
theorem leftAlone_of_not_copyOf
    (h : (rewriteProject d { o with mode := .copies dir }).exitStatus = 0)
    (ha : ∀ p, ¬CopyOf d o dir p a) :
    LeftAlone d.tree (rewriteProject d { o with mode := .copies dir }).disk.tree a := by
  obtain ⟨c, hc, ws, hplan, hwrite⟩ := rewriteProject_copies_iff.mp ⟨h, rfl⟩
  refine (wrote_of_plan? hplan hwrite).other a (lastWriteTo_eq_none_iff.mpr ?_)
  intro w hw hfile
  obtain ⟨p, hp, hplace, -⟩ := (mem_plan?_iff hplan).mp hw
  exact ha p ⟨c, hc, hp, w.1, hplace, hfile⟩

/-- All copies hold the texts of their own files if and only if files that share a copy agree. -/
theorem holdsOwnTexts_iff (h : (rewriteProject d { o with mode := .copies dir }).exitStatus = 0) :
    HoldsOwnTexts d o dir ↔ ∀ p q a, CopyOf d o dir p a → CopyOf d o dir q a →
      rewrittenAt d p = rewrittenAt d q := by
  constructor
  · intro hown p q a hp hq
    obtain ⟨a₁, text, hp', htext, hholds⟩ := hown p hp.mem_scanned
    obtain ⟨a₂, text', hq', htext', hholds'⟩ := hown q hq.mem_scanned
    obtain rfl := hp.unique hp'
    obtain rfl := hq.unique hq'
    rw [hholds, Option.some_inj, Entry.file.injEq] at hholds'
    rw [htext, htext', String.toByteArray_inj.mp hholds']
  · intro hagree p hp
    obtain ⟨a, ha⟩ := exists_copyOf h hp
    obtain ⟨q, text, hq, htext, hholds⟩ := exists_last_copy h ha
    exact ⟨a, text, ha, (hagree p q a ha hq).trans htext, hholds⟩

theorem exists_of_copyPath {root dir p q : Path} (h : copyPath root dir p = .ok q) :
    ∃ rest, p.stripPrefix? root = some rest ∧ q = dir.join rest := by
  unfold copyPath at h
  split at h
  · rename_i rest hrest
    cases h
    exact ⟨rest, hrest, rfl⟩
  · cases h

/-- If no include leads up then different files have different copies: without double dots the place
of a copy tells all steps of its file below the source root. -/
theorem copiesApart_of_keepsDown (hlinks : d.tree.LinkFree)
    (h : ∀ c ∈ context? d o.sourceRoot, ∀ s ∈ c.config.includes,
      Discovery.KeepsDown c.sourceRoot s) : CopiesApart d o dir := by
  have hsteps {c : Context} {p q : Path} {a : Address} (hc : c ∈ context? d o.sourceRoot)
      (hp : p ∈ c.files) (hq : copyPath c.sourceRoot (c.workingDirectory.join dir) p = .ok q)
      (ha : (rewriteProject d { o with mode := .copies dir }).disk.fileAt? q = some a) :
      p.rooted = true ∧ ∃ steps, p.steps = c.sourceRoot.steps ++ steps ∧
        a.map EntryName.text = steps.reverse ++ d.namesTo dir := by
    obtain ⟨rest, hstrip, rfl⟩ := exists_of_copyPath hq
    obtain ⟨hrooted, hrest, hsteps⟩ := Path.steps_of_stripPrefix? (rooted_sourceRoot hc) hstrip
    have hdown : ".." ∉ rest.steps := fun hmem =>
      notMem_steps_of_scanned hc (h c hc) hp (hsteps ▸ List.mem_append_right _ hmem)
    refine ⟨hrooted, rest.steps, hsteps, ?_⟩
    have hall : rest.steps.filter Path.isStep = rest.steps :=
      List.filter_eq_self.mpr fun s hs => (List.mem_filter.mp hs).2
    rw [names_of_fileAt? hlinks hc ha, Path.namesTo_eq, hrest, if_neg Bool.false_ne_true,
      Path.namesFrom_of_notMem hdown, hall]
  rintro p q a ⟨c, hc, hp, r, hr, ha⟩ ⟨c', hc', hq, r', hr', ha'⟩
  obtain rfl : c = c' := Option.some.inj (hc.symm.trans hc')
  obtain ⟨hprooted, ss, hss, hnames⟩ := hsteps hc hp hr ha
  obtain ⟨hqrooted, ts, hts, hnames'⟩ := hsteps hc hq hr' ha'
  obtain rfl : ss = ts :=
    List.reverse_injective (List.append_cancel_right (hnames.symm.trans hnames'))
  rw [(prepare_eq_ok (context?_eq_some_iff.mp hc)).2.2] at hp hq
  apply Path.eq_of_mem_distinct hp hq
  rw [Path.components_of_rooted hprooted, Path.components_of_rooted hqrooted, hss, hts]

end Places

/-- What a run that copies leaves behind in a tree without links, if it succeeds. Each file that was
found has a copy, and what is not the place of a copy is left alone. All copies hold what becomes of
the texts before the run, unless files that share a copy differ in that; and if no include leads up
then no files share a copy. -/
theorem copies_snapshot {d : Disk} {o : RewriteOptions} {dir : Path} (hlinks : d.tree.LinkFree)
    (h : (rewriteProject d { o with mode := .copies dir }).exitStatus = 0) :
    (∀ p ∈ scanned d o.sourceRoot, ∃ a, CopyOf d o dir p a) ∧
      (∀ a, (∀ p, ¬CopyOf d o dir p a) →
        LeftAlone d.tree (rewriteProject d { o with mode := .copies dir }).disk.tree a) ∧
      (HoldsOwnTexts d o dir ↔ ∀ p q a, CopyOf d o dir p a → CopyOf d o dir q a →
        rewrittenAt d p = rewrittenAt d q) ∧
      ((∀ c ∈ context? d o.sourceRoot, ∀ s ∈ c.config.includes,
          Discovery.KeepsDown c.sourceRoot s) →
        HoldsOwnTexts d o dir ∧ CopiesApart d o dir) := by
  refine ⟨fun p hp => exists_copyOf h hp, fun a ha => leftAlone_of_not_copyOf h ha,
    holdsOwnTexts_iff h, fun hdown => ?_⟩
  have hapart : CopiesApart d o dir := copiesApart_of_keepsDown hlinks hdown
  refine ⟨(holdsOwnTexts_iff h).mpr fun p q a hp hq => ?_, hapart⟩
  rw [hapart p q a hp hq]

theorem copies_snapshot_ofFile :
    (Disk.ofFile annotated).tree.LinkFree ∧
      (rewriteProject (.ofFile annotated) { mode := .copies (.ofText ".") }).exitStatus = 0 ∧
      scanned (.ofFile annotated) none ≠ [] ∧ HoldsOwnTexts (.ofFile annotated) {} (.ofText ".") ∧
      CopiesApart (.ofFile annotated) {} (.ofText ".") := by
  have hlinks := linkFree_ofFile annotated
  have hstatus : (rewriteProject (.ofFile annotated)
      { mode := .copies (.ofText ".") }).exitStatus = 0 := by
    decide +kernel
  have hscanned : scanned (.ofFile annotated) none ≠ [] := by
    decide +kernel
  have hincludes : ∀ c ∈ context? (.ofFile annotated) none, c.config.includes = [] := by
    decide +kernel
  obtain ⟨-, -, -, hown⟩ := @copies_snapshot (.ofFile annotated) {} (.ofText ".") hlinks hstatus
  refine ⟨hlinks, hstatus, hscanned, hown fun c hc s hs => ?_⟩
  rw [hincludes c hc] at hs
  cases hs

/-- A project with a source root `src` and one pattern, which matches the double dot. -/
def dottedProject : Disk where
  tree := ((((FileTree.empty.put [⟨".reddotrc.json", Eq.refl true⟩]
      (.file "\x7b\"includes\":[\".*\"],\"sourceRoot\":\"src\"\x7d".toUTF8)).put
    [⟨"src", Eq.refl true⟩] .directory).put
    [⟨"lib", Eq.refl true⟩] .directory).put
    [⟨"a.js", Eq.refl true⟩, ⟨"src", Eq.refl true⟩] (.file "inside".toUTF8)).put
    [⟨"a.js", Eq.refl true⟩, ⟨"lib", Eq.refl true⟩] (.file "outside".toUTF8)
  here := []

theorem linkFree_dottedProject : dottedProject.tree.LinkFree := by
  refine ((((linkFree_empty.put _ ?_).put _ ?_).put _ ?_).put _ ?_).put _ ?_
  all_goals
    intro target h
    cases h

/-- The settings of that project. -/
def dottedConfig : Config := { includes := [".*"], sourceRoot := "src" }

/-- The files that a run finds in it. -/
def dottedFiles : List Path :=
  [.ofText "/src/../lib/a.js", .ofText "/src/../src/a.js", .ofText "/src/./a.js"]

/-- The copies that a run writes under `out/lib`. -/
def dottedWrites : List (Path × String) :=
  [(.ofText "/out/lib/../lib/a.js", "outside"),
    (.ofText "/out/lib/../src/a.js", "inside"),
    (.ofText "/out/lib/a.js", "inside")]

theorem scanned_dottedProject : scanned dottedProject none = dottedFiles :=
  scanned_eq_of_sorted dottedConfig (.ofText "/src") (by decide +kernel) (by decide +kernel)
    (by decide +kernel)

theorem exists_plan_dottedProject : ∃ c ∈ context? dottedProject none,
    c.config = dottedConfig ∧ c.files = dottedFiles ∧ c.sourceRoot = .ofText "/src" ∧
      c.workingDirectory = .root ∧ plan? dottedProject c (.ofText "out/lib") = some dottedWrites := by
  have hstart : (context? dottedProject none).map
      (fun c => (c.config, c.sourceRoot, c.workingDirectory)) =
        some (dottedConfig, .ofText "/src", .root) := by
    decide +kernel
  obtain ⟨c, hc, heq⟩ := Option.map_eq_some_iff.mp hstart
  obtain ⟨hconfig, hroot, hdirectory⟩ : c.config = dottedConfig ∧ c.sourceRoot = .ofText "/src" ∧
      c.workingDirectory = .root := by simpa using heq
  have hfiles : c.files = dottedFiles := by
    rw [← scanned_dottedProject, scanned, context?_eq_some_iff.mp hc]
  refine ⟨c, hc, hconfig, hfiles, hroot, hdirectory, ?_⟩
  rw [plan?, hfiles, hroot, hdirectory]
  decide +kernel

/-- That project after the run. -/
def dottedCopies : Disk := (writeAll dottedProject dottedWrites).2

theorem writeAll_dottedProject : writeAll dottedProject dottedWrites = (.ok (), dottedCopies) := by
  have hdone : (writeAll dottedProject dottedWrites).1 = .ok () := by
    decide +kernel
  rw [dottedCopies, ← hdone]

theorem rewriteProject_dottedProject :
    (rewriteProject dottedProject { mode := .copies (.ofText "out/lib") }).exitStatus = 0 ∧
      (rewriteProject dottedProject { mode := .copies (.ofText "out/lib") }).disk = dottedCopies := by
  obtain ⟨c, hc, -, -, -, -, hplan⟩ := exists_plan_dottedProject
  have hruns := @rewriteProject_copies_iff dottedProject {} (.ofText "out/lib") dottedCopies
  exact hruns.mpr ⟨c, hc, dottedWrites, hplan, writeAll_dottedProject⟩

theorem copyOf_dottedProject {p q : Path} {a : Address} (hp : p ∈ dottedFiles)
    (hq : copyPath (.ofText "/src") (Path.root.join (.ofText "out/lib")) p = .ok q)
    (ha : dottedCopies.fileAt? q = some a) : CopyOf dottedProject {} (.ofText "out/lib") p a := by
  obtain ⟨c, hc, -, hfiles, hroot, hdirectory, -⟩ := exists_plan_dottedProject
  refine ⟨c, hc, hfiles ▸ hp, q, ?_, ?_⟩
  · rw [hroot, hdirectory]
    exact hq
  · rw [rewriteProject_dottedProject.2]
    exact ha

/-- Files can share a copy without a double dot among the includes. -/
theorem copies_collide : ¬∀ (d : Disk) (o : RewriteOptions) (dir : Path), d.tree.LinkFree →
    (∀ c ∈ context? d o.sourceRoot, ∀ s ∈ c.config.includes,
      (Path.ofText s).rooted = false ∧ ".." ∉ (Path.ofText s).segments) →
    (rewriteProject d { o with mode := .copies dir }).exitStatus = 0 →
      HoldsOwnTexts d o dir ∧ CopiesApart d o dir := by
  intro h
  have hincludes : ∀ c ∈ context? dottedProject none, ∀ s ∈ c.config.includes,
      (Path.ofText s).rooted = false ∧ ".." ∉ (Path.ofText s).segments := by
    obtain ⟨c, hc, hconfig, -⟩ := exists_plan_dottedProject
    intro c' hc' s hs
    obtain rfl : c = c' := Option.some.inj (hc.symm.trans hc')
    rw [hconfig] at hs
    rw [List.mem_singleton.mp hs]
    decide
  have hapart := (h dottedProject {} (.ofText "out/lib") linkFree_dottedProject hincludes
    rewriteProject_dottedProject.1).2
  let place : Address := [⟨"a.js", Eq.refl true⟩, ⟨"lib", Eq.refl true⟩, ⟨"out", Eq.refl true⟩]
  have houtside : CopyOf dottedProject {} (.ofText "out/lib") (.ofText "/src/../lib/a.js") place :=
    copyOf_dottedProject (q := .ofText "/out/lib/../lib/a.js") (by decide) rfl (by decide +kernel)
  have hinside : CopyOf dottedProject {} (.ofText "out/lib") (.ofText "/src/./a.js") place :=
    copyOf_dottedProject (q := .ofText "/out/lib/a.js") (by decide) rfl (by decide +kernel)
  have hsame := hapart _ _ place houtside hinside
  revert hsame
  decide

end CmsVariables.Run
