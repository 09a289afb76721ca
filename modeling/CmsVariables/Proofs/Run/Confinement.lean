import CmsVariables.Proofs.Discovery.Includes
import CmsVariables.Proofs.FileTree.LinkFree
import CmsVariables.Proofs.Run.Copies

/-!
# Where copies are written

A copy is written where the scanned path leads from the directory for copies, once the steps of the
source root are taken off its beginning. A scanned path that does not begin with these steps stops
the run; but one that begins with them can go up again by double dots, which includes may hold. Then
the file lies outside the source root, it is not noticed, and its copy can be written outside the
directory for copies.

* `copiedTo_names`: the place of each copy, in a tree without links.
* `copies_confined`: copies stay below their directory where no path goes up over the source root.
* `confined_of_keepsDown`: so it is if no include leads up.
* `copies_stray`: in general they do not.
-/

namespace CmsVariables.Run

open FileTree

/-! ## Where a run starts -/

/-- What a rewriting run starts from, if it gets that far. -/
def context? (d : Disk) (sourceRoot : Option Path) : Option Context :=
  (prepare d { sourceRoot := sourceRoot }).2.toOption

section Start

variable {d : Disk} {sourceRoot : Option Path} {c : Context}

theorem context?_eq_some_iff :
    context? d sourceRoot = some c ↔ (prepare d { sourceRoot := sourceRoot }).2 = .ok c := by
  rw [context?]
  cases (prepare d { sourceRoot := sourceRoot }).2 <;> simp [Except.toOption]

theorem mem_scanned_iff {p : Path} :
    p ∈ scanned d sourceRoot ↔ ∃ c ∈ context? d sourceRoot, p ∈ c.files := by
  rw [scanned, context?]
  cases (prepare d { sourceRoot := sourceRoot }).2 <;> simp [Except.toOption]

/-- What a run starts from is made of the settings that were loaded and of the place that they or
the command line name as source root. -/
theorem exists_of_prepare {o : Overrides} (h : (prepare d o).2 = .ok c) :
    ∃ loaded a e, Config.load d (.ofAddress d.here) = .ok loaded ∧
      d.stat (settle (.ofAddress d.here) loaded.base o.sourceRoot loaded.config.sourceRoot) =
        .ok (a, e) ∧
      c = { config := loaded.config.withOverrides o
            workingDirectory := .ofAddress d.here
            sourceRoot := .ofAddress a
            output := settle (.ofAddress d.here) loaded.base o.output loaded.config.output
            files := (discover d
              (discovery (loaded.config.withOverrides o) (.ofAddress a))).files } := by
  rw [prepare] at h
  split at h
  · cases h
  rename_i loaded hloaded
  split at h
  · cases h
  rename_i context rs hcontext
  cases h
  simp only [contextFrom] at hcontext
  split at hcontext
  · cases hcontext
  rename_i root hroot
  cases hcontext
  obtain ⟨⟨a, e⟩, hstat, rfl⟩ := Config.ok_of_map hroot
  exact ⟨loaded, a, e, hloaded, hstat, rfl⟩

/-- What a run starts from once it is prepared. -/
theorem prepare_eq_ok {o : Overrides} (h : (prepare d o).2 = .ok c) :
    c.workingDirectory = .ofAddress d.here ∧ (∃ a, c.sourceRoot = .ofAddress a) ∧
      c.files = (discover d (discovery c.config c.sourceRoot)).files := by
  obtain ⟨loaded, a, e, -, -, rfl⟩ := exists_of_prepare h
  exact ⟨rfl, ⟨a, rfl⟩, rfl⟩

/-- Where a run starts and which files it finds do not depend on where the listing goes. -/
theorem start_prepare (d : Disk) (o : Overrides) :
    (prepare d o).2.map (fun c => (c.workingDirectory, c.sourceRoot, c.files)) =
      (prepare d { sourceRoot := o.sourceRoot }).2.map
        fun c => (c.workingDirectory, c.sourceRoot, c.files) := by
  rw [prepare, prepare]
  cases Config.load d (Path.ofAddress d.here) with
  | error f => rfl
  | ok loaded =>
    simp only [contextFrom]
    cases d.canonical
      (settle (Path.ofAddress d.here) loaded.base o.sourceRoot loaded.config.sourceRoot) <;> rfl

/-- A run for which something else was prepared with the same source root starts at the same place
from the same files. -/
theorem exists_start {o : Overrides} (h : (prepare d o).2 = .ok c) :
    ∃ c', (prepare d { sourceRoot := o.sourceRoot }).2 = .ok c' ∧
      c'.workingDirectory = c.workingDirectory ∧ c'.sourceRoot = c.sourceRoot ∧
      c'.files = c.files := by
  have hstart := start_prepare d o
  rw [h] at hstart
  obtain ⟨c', hc', heq⟩ := Config.ok_of_map hstart.symm
  obtain ⟨hdirectory, hroot⟩ := Prod.mk.inj heq
  obtain ⟨hroot, hfiles⟩ := Prod.mk.inj hroot
  exact ⟨c', hc', hdirectory, hroot, hfiles⟩

theorem scanned_of_prepare {o : Overrides} (h : (prepare d o).2 = .ok c) :
    scanned d o.sourceRoot = c.files := by
  obtain ⟨c', hc', -, -, hfiles⟩ := exists_start h
  rw [scanned, hc']
  exact hfiles

theorem rooted_sourceRoot (h : c ∈ context? d sourceRoot) : c.sourceRoot.rooted = true := by
  obtain ⟨-, ⟨a, ha⟩, -⟩ := prepare_eq_ok (context?_eq_some_iff.mp h)
  rw [ha]
  rfl

/-- Files that a search finds in strict order are the files of a run. -/
theorem scanned_eq_of_sorted (config : Config) (root : Path) {ps : List Path}
    (hstart : (context? d sourceRoot).map (fun c => (c.config, c.sourceRoot)) = some (config, root))
    (hfound : (Discovery.starts d (discovery config root)).flatMap
      (Discovery.sourcesFrom d (discovery config root)) = ps)
    (hsorted : ps.Pairwise fun p q => p.before q = true) : scanned d sourceRoot = ps := by
  obtain ⟨c, hc, heq⟩ := Option.map_eq_some_iff.mp hstart
  obtain ⟨rfl, rfl⟩ := Prod.mk.inj heq
  have hprepare := context?_eq_some_iff.mp hc
  rw [scanned, hprepare]
  show c.files = ps
  rw [(prepare_eq_ok hprepare).2.2, discover, hfound, Path.distinct_eq_self hsorted]

end Start

/-! ## Files that have no place -/

theorem copyPaths_of_outside {root dir p : Path} {ps : List Path} (hp : p ∈ ps)
    (h : p.stripPrefix? root = none) : ∃ f, copyPaths root dir ps = .error f := by
  induction ps with
  | nil => cases hp
  | cons q ps ih =>
    rw [copyPaths]
    cases hq : copyPath root dir q with
    | error f => exact ⟨f, rfl⟩
    | ok target =>
      rcases List.mem_cons.mp hp with rfl | hps
      · rw [copyPath, h] at hq
        cases hq
      · obtain ⟨f, hf⟩ := ih hps
        exact ⟨f, by rw [hf]⟩

theorem rewriteFrom_of_outside {d : Disk} {c : Context} {dir p : Path}
    {stderr : List Console.Line} (hp : p ∈ c.files) (h : p.stripPrefix? c.sourceRoot = none) :
    (rewriteFrom d (.copies dir) c stderr).exitStatus = 2 ∧
      (rewriteFrom d (.copies dir) c stderr).disk = d := by
  rw [rewriteFrom, if_neg (List.ne_nil_of_mem hp)]
  cases hss : readSources d c.files with
  | error f => exact ⟨rfl, rfl⟩
  | ok ss =>
    have hpaths := paths_rewriteSource hss
    obtain ⟨f, hf⟩ : ∃ f, copyPaths c.sourceRoot (c.workingDirectory.join dir) c.files =
        .error f := copyPaths_of_outside hp h
    simp only [writeCopies, hpaths, hf]
    exact ⟨rfl, trivial⟩

/-! ## The places of copies -/

theorem exists_of_mem_copyPaths {root dir q : Path} {ps qs : List Path}
    (h : copyPaths root dir ps = .ok qs) (hq : q ∈ qs) :
    ∃ p ∈ ps, ∃ rest, p.stripPrefix? root = some rest ∧ q = dir.join rest := by
  induction ps generalizing qs with
  | nil =>
    cases h
    cases hq
  | cons p ps ih =>
    rw [copyPaths] at h
    split at h
    · cases h
    rename_i target htarget
    split at h
    · cases h
    rename_i targets htargets
    cases h
    rcases List.mem_cons.mp hq with rfl | hrest
    · rw [copyPath] at htarget
      split at htarget
      · rename_i rest hstrip
        cases htarget
        exact ⟨p, List.mem_cons_self, rest, hstrip, rfl⟩
      · cases htarget
    · obtain ⟨p', hp', hfound⟩ := ih htargets hrest
      exact ⟨p', List.mem_cons_of_mem _ hp', hfound⟩

theorem exists_of_mem_copies {d : Disk} {sourceRoot : Option Path} {dir : Path}
    {w : Path × String} (h : w ∈ copies d sourceRoot dir) :
    ∃ c ∈ context? d sourceRoot, ∃ p ∈ c.files, ∃ rest,
      p.stripPrefix? c.sourceRoot = some rest ∧ w.1 = (c.workingDirectory.join dir).join rest := by
  rw [copies] at h
  split at h
  · rename_i c hc
    rw [copiesFrom] at h
    split at h
    · rename_i ss targets hss htargets
      have hmem := (List.of_mem_zip ((prefix_finishedWrites _ _).subset h)).1
      exact ⟨c, context?_eq_some_iff.mpr hc, exists_of_mem_copyPaths htargets hmem⟩
    · cases h
  · cases h

/-- Files with texts are all that writing texts makes. -/
theorem Wrote.linkFree {d d' : Disk} {ws : List (Path × String)} (h : Wrote d d' ws)
    (hlinks : d.tree.LinkFree) : d'.tree.LinkFree := by
  intro a target ha
  cases hlast : lastWriteTo d' a ws with
  | some text =>
    rw [h.last a text hlast] at ha
    cases ha
  | none =>
    rcases h.other a hlast with heq | ⟨-, hdir⟩
    · rw [heq] at ha
      exact hlinks a target ha
    · rw [hdir] at ha
      cases ha

/-- A run makes or overwrites the file at `a` as a copy. -/
def CopiedTo (d : Disk) (o : RewriteOptions) (dir : Path) (a : Address) : Prop :=
  ∃ w ∈ copies d o.sourceRoot dir,
    (rewriteProject d { o with mode := .copies dir }).disk.fileAt? w.1 = some a

section Places

variable {d : Disk} {o : RewriteOptions} {dir : Path}

theorem leftAlone_of_not_copiedTo {a : Address} (h : ¬CopiedTo d o dir a) :
    LeftAlone d.tree (rewriteProject d { o with mode := .copies dir }).disk.tree a := by
  refine (copies_wrote d o dir).other a (lastWriteTo_eq_none_iff.mpr ?_)
  intro w hw hfile
  exact h ⟨w, hw, hfile⟩

theorem namesTo_of_stripPrefix? {c : Context} {p rest : Path}
    (hc : c ∈ context? d o.sourceRoot) (h : p.stripPrefix? c.sourceRoot = some rest) :
    d.namesTo p = rest.namesTo (d.namesTo c.sourceRoot) := by
  have hroot := rooted_sourceRoot hc
  obtain ⟨hp, hrest, hsteps⟩ := Path.steps_of_stripPrefix? hroot h
  simp only [Disk.namesTo, Path.namesTo_eq, hp, hroot, hrest, if_true, hsteps,
    Path.namesFrom_append]
  rfl

/-- In a tree without links a place below the directory for copies is where the rest of its path leads
from there. -/
theorem names_of_fileAt? {c : Context} {rest : Path} {a : Address} (hlinks : d.tree.LinkFree)
    (hc : c ∈ context? d o.sourceRoot)
    (h : (rewriteProject d { o with mode := .copies dir }).disk.fileAt?
      ((c.workingDirectory.join dir).join rest) = some a) :
    a.map EntryName.text = rest.namesTo (d.namesTo dir) := by
  obtain ⟨bytes, hstat⟩ := Disk.fileAt?_eq_some_iff.mp h
  have hwrote := copies_wrote d o dir
  rw [Disk.names_of_stat (hwrote.linkFree hlinks) hstat, Disk.namesTo, hwrote.here,
    Path.namesTo_join, Path.namesTo_join, (prepare_eq_ok (context?_eq_some_iff.mp hc)).1,
    Path.namesTo_ofAddress]
  rfl

/-- A copy lies from the directory for copies as its source lies from the source root, if both are
taken as they are spelled. -/
theorem copiedTo_names {a : Address} (hlinks : d.tree.LinkFree) (h : CopiedTo d o dir a) :
    ∃ c ∈ context? d o.sourceRoot, ∃ p ∈ c.files, ∃ rest,
      p.stripPrefix? c.sourceRoot = some rest ∧
      d.namesTo p = rest.namesTo (d.namesTo c.sourceRoot) ∧
      a.map EntryName.text = rest.namesTo (d.namesTo dir) := by
  obtain ⟨w, hw, hfile⟩ := h
  obtain ⟨c, hc, p, hp, rest, hstrip, htarget⟩ := exists_of_mem_copies hw
  rw [htarget] at hfile
  exact ⟨c, hc, p, hp, rest, hstrip, namesTo_of_stripPrefix? hc hstrip,
    names_of_fileAt? hlinks hc hfile⟩

theorem rewriteProject_of_outside {c : Context} {p : Path} (hc : c ∈ context? d o.sourceRoot)
    (hp : p ∈ c.files) (h : p.stripPrefix? c.sourceRoot = none) :
    (rewriteProject d { o with mode := .copies dir }).exitStatus = 2 ∧
      (rewriteProject d { o with mode := .copies dir }).disk = d := by
  obtain ⟨stderr, hrun⟩ : ∃ stderr, rewriteProject d { o with mode := .copies dir } =
      rewriteFrom d (.copies dir) c stderr := exists_rewriteFrom (context?_eq_some_iff.mp hc)
  rw [hrun]
  exact rewriteFrom_of_outside hp h

end Places

/-! ## Confinement -/

/-- Where a run writes copies, told from how the scanned paths are spelled. -/
structure Mirrors (d : Disk) (o : RewriteOptions) (dir : Path) : Prop where
  /-- A scanned path that does not begin with the steps of the source root stops the run before
  anything changes. -/
  refused : ∀ c ∈ context? d o.sourceRoot, ∀ p ∈ c.files, p.stripPrefix? c.sourceRoot = none →
    (rewriteProject d { o with mode := .copies dir }).exitStatus = 2 ∧
      (rewriteProject d { o with mode := .copies dir }).disk = d
  /-- A copy lies from the directory for copies as its source lies from the source root. -/
  placed : ∀ a, CopiedTo d o dir a → ∃ c ∈ context? d o.sourceRoot, ∃ p ∈ c.files, ∃ rest,
    p.stripPrefix? c.sourceRoot = some rest ∧
    d.namesTo p = rest.namesTo (d.namesTo c.sourceRoot) ∧
    a.map EntryName.text = rest.namesTo (d.namesTo dir)
  /-- Nothing but new directories is different elsewhere. -/
  other : ∀ a, ¬CopiedTo d o dir a →
    LeftAlone d.tree (rewriteProject d { o with mode := .copies dir }).disk.tree a

/-- A file that is spelled outside the source root stops the run before anything changes, and copies
are written below their directory only. -/
structure Confined (d : Disk) (o : RewriteOptions) (dir : Path) : Prop where
  refused : ∀ c ∈ context? d o.sourceRoot, ∀ p ∈ c.files,
    ¬d.namesTo c.sourceRoot <:+ d.namesTo p →
      (rewriteProject d { o with mode := .copies dir }).exitStatus = 2 ∧
        (rewriteProject d { o with mode := .copies dir }).disk = d
  below : ∀ a, CopiedTo d o dir a → d.namesTo dir <:+ a.map EntryName.text

/-- Scanned paths that begin with the steps of the source root do not go up over it again. -/
def InwardPaths (d : Disk) (sourceRoot : Option Path) : Prop :=
  ∀ c ∈ context? d sourceRoot, ∀ p ∈ c.files, ∀ rest ∈ p.stripPrefix? c.sourceRoot, rest.Inward

/-- Includes that never lead up give paths without double dots. -/
theorem notMem_steps_of_scanned {d : Disk} {sourceRoot : Option Path} {c : Context} {p : Path}
    (hc : c ∈ context? d sourceRoot)
    (h : ∀ s ∈ c.config.includes, Discovery.KeepsDown c.sourceRoot s) (hp : p ∈ c.files) :
    ".." ∉ p.steps := by
  obtain ⟨-, ⟨a, ha⟩, hfiles⟩ := prepare_eq_ok (context?_eq_some_iff.mp hc)
  have hbase : ".." ∉ c.sourceRoot.steps := by
    rw [ha, Path.steps_ofAddress]
    intro hmem
    obtain ⟨n, -, hn⟩ := List.mem_map.mp hmem
    exact n.isStep.2 hn
  exact Discovery.notMem_steps_of_mem_discover hbase h (hfiles ▸ hp)

theorem inwardPaths_of_keepsDown {d : Disk} {sourceRoot : Option Path}
    (h : ∀ c ∈ context? d sourceRoot, ∀ s ∈ c.config.includes,
      Discovery.KeepsDown c.sourceRoot s) : InwardPaths d sourceRoot := by
  intro c hc p hp rest hrest
  have hup : ".." ∉ p.steps := notMem_steps_of_scanned hc (h c hc) hp
  rw [(Path.steps_of_stripPrefix? (rooted_sourceRoot hc) hrest).2.2, List.mem_append, not_or] at hup
  exact Path.inward_of_notMem hup.2

theorem confined_of_inwardPaths {d : Disk} {o : RewriteOptions} {dir : Path}
    (hlinks : d.tree.LinkFree) (h : InwardPaths d o.sourceRoot) : Confined d o dir := by
  have hbelow {c : Context} (hc : c ∈ context? d o.sourceRoot) {p rest : Path} (hp : p ∈ c.files)
      (hstrip : p.stripPrefix? c.sourceRoot = some rest) (here : List String) :
      here <:+ rest.namesTo here := by
    have hrest := (Path.steps_of_stripPrefix? (rooted_sourceRoot hc) hstrip).2.1
    exact (h c hc p hp rest hstrip).suffix_namesTo hrest here
  constructor
  · intro c hc p hp houtside
    cases hstrip : p.stripPrefix? c.sourceRoot with
    | none => exact rewriteProject_of_outside hc hp hstrip
    | some rest =>
      rw [namesTo_of_stripPrefix? hc hstrip] at houtside
      exact absurd (hbelow hc hp hstrip _) houtside
  · intro a ha
    obtain ⟨c, hc, p, hp, rest, hstrip, -, hnames⟩ := copiedTo_names hlinks ha
    rw [hnames]
    exact hbelow hc hp hstrip _

/-- Copies stay below their directory if no include leads up. -/
theorem confined_of_keepsDown {d : Disk} {o : RewriteOptions} {dir : Path}
    (hlinks : d.tree.LinkFree)
    (h : ∀ c ∈ context? d o.sourceRoot, ∀ s ∈ c.config.includes,
      Discovery.KeepsDown c.sourceRoot s) : Confined d o dir :=
  confined_of_inwardPaths hlinks (inwardPaths_of_keepsDown h)

/-- Where a run writes copies in a tree without links, and when none of them is written elsewhere:
if no scanned path goes up over the source root. -/
theorem copies_confined {d : Disk} (hlinks : d.tree.LinkFree) (o : RewriteOptions) (dir : Path) :
    Mirrors d o dir ∧ (InwardPaths d o.sourceRoot → Confined d o dir) := by
  refine ⟨⟨?_, ?_, ?_⟩, confined_of_inwardPaths hlinks⟩
  · intro c hc p hp houtside
    exact rewriteProject_of_outside hc hp houtside
  · intro a ha
    exact copiedTo_names hlinks ha
  · intro a ha
    exact leftAlone_of_not_copiedTo ha

/-- The bytes of a file with an annotation. -/
def annotated : ByteArray := "/*r:a*/'x'/**/".toUTF8

theorem linkFree_ofFile (bytes : ByteArray) : (Disk.ofFile bytes).tree.LinkFree := by
  refine linkFree_empty.put _ ?_
  intro target h
  cases h

theorem copies_confined_ofFile :
    (Disk.ofFile annotated).tree.LinkFree ∧ InwardPaths (.ofFile annotated) none ∧
      CopiedTo (.ofFile annotated) {} (.ofText "out")
        [⟨"a.js", by decide⟩, ⟨"out", by decide⟩] ∧
      Mirrors (.ofFile annotated) {} (.ofText "out") ∧
      Confined (.ofFile annotated) {} (.ofText "out") := by
  have hlinks := linkFree_ofFile annotated
  have hinward : InwardPaths (.ofFile annotated) none := by
    unfold InwardPaths
    decide +kernel
  have hcopied : CopiedTo (.ofFile annotated) {} (.ofText "out")
      [⟨"a.js", by decide⟩, ⟨"out", by decide⟩] := by
    unfold CopiedTo
    decide +kernel
  obtain ⟨hmirrors, hconfined⟩ := copies_confined hlinks {} (.ofText "out")
  exact ⟨hlinks, hinward, hcopied, hmirrors, hconfined hinward⟩

/-- A project in which the source root is `a`, and an include leads from there to `b`. -/
def strayingProject : Disk where
  tree := (((FileTree.empty.put [⟨".reddotrc.json", Eq.refl true⟩]
      (.file "\x7b\"includes\":[\"../b\"],\"sourceRoot\":\"a\"\x7d".toUTF8)).put
    [⟨"a", Eq.refl true⟩] .directory).put
    [⟨"b", Eq.refl true⟩] .directory).put
    [⟨"x.js", Eq.refl true⟩, ⟨"b", Eq.refl true⟩] (.file "/*r:std_title*/'Welcome'/**/".toUTF8)
  here := []

theorem linkFree_strayingProject : strayingProject.tree.LinkFree := by
  refine (((linkFree_empty.put _ ?_).put _ ?_).put _ ?_).put _ ?_
  all_goals
    intro target h
    cases h

/-- A copy can be written outside the directory for copies. -/
theorem copies_stray : ¬∀ (d : Disk) (o : RewriteOptions) (dir : Path),
    d.tree.LinkFree → Confined d o dir := by
  intro h
  have hconfined := h strayingProject {} (.ofText "out/copies") linkFree_strayingProject
  have hcopied : CopiedTo strayingProject {} (.ofText "out/copies")
      [⟨"x.js", by decide⟩, ⟨"b", by decide⟩, ⟨"out", by decide⟩] := by
    unfold CopiedTo
    decide +kernel
  have hbelow := hconfined.below _ hcopied
  revert hbelow
  decide +kernel

end CmsVariables.Run
