import CmsVariables.Proofs.Discovery.Growth
import CmsVariables.Proofs.Run.Confinement
import CmsVariables.Proofs.Run.SecondRun

/-!
# Copying again

A run that copies searches for sources as any other run does. What it wrote before is left out only
if the search does not come there, or if an ignore or the extensions leave it out. So a second run
repeats the first one if it finds the same files, and it changes nothing if and only if each file
that it finds has its copy in place already. With the directory for copies below the source root, the
copies themselves are copied again, one directory deeper.

* `rewriteFrom_copies_iff`: what a run that copies plans and writes, if it succeeds.
* `idle_iff_mirrored`: when such a run changes nothing.
* `copies_repeat`: when a second run does.
* `copies_not_repeat`: in general it does not.
-/

namespace CmsVariables

open FileTree Text

theorem Disk.Alike.fileAt?_eq {d d' : Disk} (h : d.Alike d') (p : Path) :
    d.fileAt? p = d'.fileAt? p := by
  have hfind := h.stat_sameFind p
  rw [fileAt?, fileAt?]
  generalize d.stat p = found at hfind ⊢
  generalize d'.stat p = found' at hfind ⊢
  cases hfind with
  | error e => rfl
  | @ok a e e' houtline => cases e <;> cases e' <;> cases houtline <;> rfl

namespace Run

/-! ## Writes that change nothing -/

theorem lastWriteTo_eq {d d' : Disk} (h : d.Alike d') (a : Address) (ws : List (Path × String)) :
    lastWriteTo d a ws = lastWriteTo d' a ws := by
  rw [lastWriteTo, lastWriteTo]
  simp only [h.fileAt?_eq]

/-- Nothing is left to write: each path leads to a file, which holds what is written to it last. -/
structure Written (d : Disk) (ws : List (Path × String)) : Prop where
  file : ∀ w ∈ ws, ∃ a, d.fileAt? w.1 = some a
  last : ∀ a text, lastWriteTo d a ws = some text → d.tree.get? a = some (.file text.toUTF8)

theorem Wrote.written {d d' : Disk} {ws : List (Path × String)} (h : Wrote d d' ws) :
    Written d' ws :=
  ⟨h.file, h.last⟩

theorem Written.of_same {d d' : Disk} {ws : List (Path × String)} (h : Written d' ws)
    (hhere : d'.here = d.here) (hsame : ∀ a, d'.tree.get? a = d.tree.get? a) : Written d ws := by
  have halike : d.Alike d' := ⟨hhere, fun a => by rw [hsame]⟩
  constructor
  · intro w hw
    rw [halike.fileAt?_eq]
    exact h.file w hw
  · intro a text hlast
    rw [lastWriteTo_eq halike] at hlast
    rw [← hsame, h.last a text hlast]

/-- Writing again what is there already succeeds and changes nothing. -/
theorem Written.exists_writeAll {d : Disk} {ws : List (Path × String)} (h : Written d ws)
    (hwritable : ∀ w ∈ ws, Writable d w.1) :
    ∃ d', writeAll d ws = (.ok (), d') ∧ ∀ a, d'.tree.get? a = d.tree.get? a := by
  have hreads : ∀ w ∈ ws, ∃ bytes, d.read w.1 = .ok bytes := by
    intro w hw
    obtain ⟨a, ha⟩ := h.file w hw
    obtain ⟨bytes, hstat⟩ := Disk.fileAt?_eq_some_iff.mp ha
    exact ⟨bytes, Disk.read_eq_ok_iff.mpr ⟨a, hstat⟩⟩
  obtain ⟨d', hwrite, halike⟩ := Run.exists_writeAll hreads
  have hwrote := wrote_of_writeAll hwrite hwritable
  rw [finishedWrites_of_ok hwrite] at hwrote
  refine ⟨d', hwrite, fun a => ?_⟩
  cases hlast : lastWriteTo d' a ws with
  | some text =>
    rw [hwrote.last a text hlast, h.last a text (by rw [lastWriteTo_eq halike, hlast])]
  | none =>
    rcases hwrote.other a hlast with heq | ⟨hnone, hdir⟩
    · exact heq
    · rw [halike.tree.get?_eq_none hnone] at hdir
      cases hdir

/-! ## What a run writes -/

/-- The text of a file after rewriting. -/
def rewrittenAt (d : Disk) (p : Path) : Except SystemError String :=
  (d.read p).map fun bytes => (rewrite (decodeLossy bytes)).text

/-- The copies that a run is to write, if it can read all files and find all places. -/
def plan? (d : Disk) (c : Context) (dir : Path) : Option (List (Path × String)) :=
  match readSources d c.files, copyPaths c.sourceRoot (c.workingDirectory.join dir) c.files with
  | .ok ss, .ok targets => some (targets.zip (ss.map fun s => (rewrite s.text).text))
  | _, _ => none

section Plan

variable {d d' : Disk} {c c' : Context} {dir : Path} {ws : List (Path × String)}

theorem plan?_eq_some_iff :
    plan? d c dir = some ws ↔ ∃ ss targets, readSources d c.files = .ok ss ∧
      copyPaths c.sourceRoot (c.workingDirectory.join dir) c.files = .ok targets ∧
      targets.zip (ss.map fun s => (rewrite s.text).text) = ws := by
  rw [plan?]
  cases readSources d c.files with
  | error f => simp
  | ok ss =>
    cases copyPaths c.sourceRoot (c.workingDirectory.join dir) c.files with
    | error f => simp
    | ok targets => simp

theorem rewrittenAt_of_readSource {p : Path} {s : Source} (h : readSource d p = .ok s) :
    rewrittenAt d p = .ok (rewrite s.text).text := by
  obtain ⟨-, bytes, hread, htext⟩ := readSource_eq_ok_iff.mp h
  rw [rewrittenAt, hread, htext]
  rfl

/-- Each place is given the rewritten text of its own file. -/
theorem mem_zip_copyPaths_iff {root dir : Path} {ps qs : List Path} {ss : List Source}
    (hss : readSources d ps = .ok ss) (hqs : copyPaths root dir ps = .ok qs) {w : Path × String} :
    w ∈ qs.zip (ss.map fun s => (rewrite s.text).text) ↔
      ∃ p ∈ ps, copyPath root dir p = .ok w.1 ∧ rewrittenAt d p = .ok w.2 := by
  induction ps generalizing ss qs with
  | nil =>
    cases hss
    cases hqs
    simp
  | cons p ps ih =>
    rw [readSources] at hss
    rw [copyPaths] at hqs
    split at hss
    · cases hss
    rename_i s hs
    split at hss
    · cases hss
    rename_i rest hrest
    cases hss
    split at hqs
    · cases hqs
    rename_i q hq
    split at hqs
    · cases hqs
    rename_i qs hqs'
    cases hqs
    have hfirst : w = (q, (rewrite s.text).text) ↔
        copyPath root dir p = .ok w.1 ∧ rewrittenAt d p = .ok w.2 := by
      rw [hq, rewrittenAt_of_readSource hs, Prod.ext_iff, Except.ok.injEq, Except.ok.injEq,
        eq_comm, @eq_comm _ w.2]
    rw [List.map_cons, List.zip_cons_cons, List.mem_cons, hfirst, ih hrest hqs']
    simp

theorem mem_plan?_iff (h : plan? d c dir = some ws) {w : Path × String} :
    w ∈ ws ↔ ∃ p ∈ c.files,
      copyPath c.sourceRoot (c.workingDirectory.join dir) p = .ok w.1 ∧
        rewrittenAt d p = .ok w.2 := by
  obtain ⟨ss, targets, hss, htargets, rfl⟩ := plan?_eq_some_iff.mp h
  exact mem_zip_copyPaths_iff hss htargets

/-- Where each of some files has a place, so has any one of them. -/
theorem exists_copyPath {root dir p : Path} {ps qs : List Path}
    (h : copyPaths root dir ps = .ok qs) (hp : p ∈ ps) : ∃ q, copyPath root dir p = .ok q := by
  cases hstrip : p.stripPrefix? root with
  | none =>
    obtain ⟨f, hf⟩ : ∃ f, copyPaths root dir ps = .error f := copyPaths_of_outside hp hstrip
    rw [h] at hf
    cases hf
  | some rest =>
    rw [copyPath, hstrip]
    exact ⟨_, rfl⟩

/-- A plan has a write for each file. -/
theorem exists_of_plan? (h : plan? d c dir = some ws) {p : Path} (hp : p ∈ c.files) :
    ∃ w ∈ ws, copyPath c.sourceRoot (c.workingDirectory.join dir) p = .ok w.1 ∧
      rewrittenAt d p = .ok w.2 := by
  obtain ⟨ss, targets, hss, htargets, -⟩ := plan?_eq_some_iff.mp h
  obtain ⟨bytes, hread, hs⟩ := exists_source hss hp
  have hsource : readSource d p = .ok ⟨p, decodeLossy bytes⟩ := (readSources_eq_ok_iff.mp hss).2 _ hs
  have htext := rewrittenAt_of_readSource hsource
  obtain ⟨q, hq⟩ := exists_copyPath htargets hp
  exact ⟨(q, _), (mem_plan?_iff h).mpr ⟨p, hp, hq, htext⟩, hq, htext⟩

theorem writable_of_plan? (h : plan? d c dir = some ws) : ∀ w ∈ ws, Writable d w.1 := by
  obtain ⟨ss, targets, -, htargets, rfl⟩ := plan?_eq_some_iff.mp h
  exact fun w hw => Or.inl (segments_copyPaths_ne_nil htargets _ (List.of_mem_zip hw).1)

/-- A run that copies succeeds if and only if it has a plan and makes all its writes. -/
theorem rewriteFrom_copies_iff {stderr : List Console.Line} :
    (rewriteFrom d (.copies dir) c stderr).exitStatus = 0 ∧
        (rewriteFrom d (.copies dir) c stderr).disk = d' ↔
      ∃ ws, plan? d c dir = some ws ∧ writeAll d ws = (.ok (), d') := by
  rw [rewriteFrom, plan?]
  by_cases hfiles : c.files = []
  · rw [if_pos hfiles, hfiles]
    simp [readSources, copyPaths, writeAll, Outcome.exitStatus]
  rw [if_neg hfiles]
  cases hss : readSources d c.files with
  | error f => simp [Outcome.exitStatus]
  | ok ss =>
    have hpaths := paths_rewriteSource hss
    have htexts : (ss.map rewriteSource).map RewrittenFile.text =
        ss.map fun s => (rewrite s.text).text := List.map_map
    simp only [writeCopies, hpaths, htexts]
    cases copyPaths c.sourceRoot (c.workingDirectory.join dir) c.files with
    | error f => simp [Outcome.exitStatus]
    | ok targets =>
      simp only [Option.some.injEq, exists_eq_left']
      split
      · rename_i f d'' hwrite
        simp [hwrite, Outcome.exitStatus]
      · rename_i d'' hwrite
        simp [hwrite, Outcome.exitStatus]

theorem wrote_of_plan? (hplan : plan? d c dir = some ws) (hwrite : writeAll d ws = (.ok (), d')) :
    Wrote d d' ws := by
  have hwrote := wrote_of_writeAll hwrite (writable_of_plan? hplan)
  rwa [finishedWrites_of_ok hwrite] at hwrote

end Plan

section Project

variable {d : Disk} {o : RewriteOptions} {dir : Path}

/-- A run that copies succeeds if and only if it gets to its search, has a plan and makes all its
writes. -/
theorem rewriteProject_copies_iff {d' : Disk} :
    (rewriteProject d { o with mode := .copies dir }).exitStatus = 0 ∧
        (rewriteProject d { o with mode := .copies dir }).disk = d' ↔
      ∃ c ∈ context? d o.sourceRoot, ∃ ws, plan? d c dir = some ws ∧
        writeAll d ws = (.ok (), d') := by
  constructor
  · intro h
    obtain ⟨c, stderr, hprepare, -, hrun⟩ := exists_context (Outcome.exitStatus_eq_zero_iff.mp h.1)
    rw [hrun] at h
    exact ⟨c, context?_eq_some_iff.mpr hprepare, rewriteFrom_copies_iff.mp h⟩
  · rintro ⟨c, hc, hplan⟩
    obtain ⟨stderr, hrun⟩ : ∃ stderr, rewriteProject d { o with mode := .copies dir } =
        rewriteFrom d (.copies dir) c stderr := exists_rewriteFrom (context?_eq_some_iff.mp hc)
    rw [hrun]
    exact rewriteFrom_copies_iff.mpr hplan

/-! ## Runs that change nothing -/

/-- A run that copies succeeds and changes nothing. -/
def Idle (d : Disk) (o : RewriteOptions) (dir : Path) : Prop :=
  (rewriteProject d { o with mode := .copies dir }).exitStatus = 0 ∧
    ∀ a, (rewriteProject d { o with mode := .copies dir }).disk.tree.get? a = d.tree.get? a

/-- All files that a run finds can be read, each has a place, and there is its rewritten text
already. Where several files have one place, the text is that of the last one. -/
def Mirrored (d : Disk) (o : RewriteOptions) (dir : Path) : Prop :=
  ∃ c ∈ context? d o.sourceRoot, ∃ ws, plan? d c dir = some ws ∧ Written d ws

theorem idle_iff_mirrored : Idle d o dir ↔ Mirrored d o dir := by
  constructor
  · rintro ⟨hstatus, hsame⟩
    obtain ⟨c, hc, ws, hplan, hwrite⟩ := rewriteProject_copies_iff.mp ⟨hstatus, rfl⟩
    have hwrote := wrote_of_plan? hplan hwrite
    exact ⟨c, hc, ws, hplan, hwrote.written.of_same hwrote.here hsame⟩
  · rintro ⟨c, hc, ws, hplan, hwritten⟩
    obtain ⟨d', hwrite, hsame⟩ := hwritten.exists_writeAll (writable_of_plan? hplan)
    obtain ⟨hstatus, hdisk⟩ := rewriteProject_copies_iff.mpr ⟨c, hc, ws, hplan, hwrite⟩
    exact ⟨hstatus, fun a => hdisk ▸ hsame a⟩

end Project

/-- Each file that is found has a copy. -/
theorem Mirrored.exists_copy {d : Disk} {o : RewriteOptions} {dir : Path} (h : Mirrored d o dir) :
    ∃ c ∈ context? d o.sourceRoot, ∀ p ∈ c.files, ∃ q a,
      copyPath c.sourceRoot (c.workingDirectory.join dir) p = .ok q ∧ d.fileAt? q = some a := by
  obtain ⟨c, hc, ws, hplan, hwritten⟩ := h
  refine ⟨c, hc, fun p hp => ?_⟩
  obtain ⟨w, hw, hcopy, -⟩ := exists_of_plan? hplan hp
  obtain ⟨a, ha⟩ := hwritten.file w hw
  exact ⟨w.1, a, hcopy, ha⟩

/-! ## Finding the same files -/

/-- From one disk and from the other a run finds the same files below the same source root, and they
have the same texts after rewriting. -/
def FindsSame (d d' : Disk) (sourceRoot : Option Path) : Prop :=
  ∃ c ∈ context? d sourceRoot, ∃ c' ∈ context? d' sourceRoot,
    c'.sourceRoot = c.sourceRoot ∧ c'.files = c.files ∧
      ∀ p ∈ c.files, rewrittenAt d' p = rewrittenAt d p

section Same

variable {d d' : Disk} {o : RewriteOptions} {dir : Path}

theorem exists_readSources {ps : List Path} {ss : List Source} (h : readSources d ps = .ok ss)
    (hsame : ∀ p ∈ ps, rewrittenAt d' p = rewrittenAt d p) :
    ∃ ss', readSources d' ps = .ok ss' ∧
      ss'.map (fun s => (rewrite s.text).text) = ss.map fun s => (rewrite s.text).text := by
  induction ps generalizing ss with
  | nil => exact ⟨ss, h, rfl⟩
  | cons p ps ih =>
    obtain ⟨hp, hps⟩ := List.forall_mem_cons.mp hsame
    rw [readSources] at h
    split at h
    · cases h
    rename_i s hs
    split at h
    · cases h
    rename_i rest hrest
    cases h
    obtain ⟨rest', hrest', htexts⟩ := ih hrest hps
    obtain ⟨-, bytes, hread, htext⟩ := readSource_eq_ok_iff.mp hs
    rw [rewrittenAt, rewrittenAt, hread] at hp
    obtain ⟨bytes', hread', hrewritten⟩ := Config.ok_of_map hp
    have hs' : readSource d' p = .ok ⟨p, decodeLossy bytes'⟩ :=
      readSource_eq_ok_iff.mpr ⟨rfl, bytes', hread', rfl⟩
    refine ⟨⟨p, decodeLossy bytes'⟩ :: rest', ?_, ?_⟩
    · rw [readSources, hs', hrest']
    · rw [List.map_cons, List.map_cons, htexts, htext, hrewritten]

theorem plan?_of_same {c c' : Context} {ws : List (Path × String)} (h : plan? d c dir = some ws)
    (hdirectory : c'.workingDirectory = c.workingDirectory) (hroot : c'.sourceRoot = c.sourceRoot)
    (hfiles : c'.files = c.files) (hsame : ∀ p ∈ c.files, rewrittenAt d' p = rewrittenAt d p) :
    plan? d' c' dir = some ws := by
  obtain ⟨ss, targets, hss, htargets, rfl⟩ := plan?_eq_some_iff.mp h
  obtain ⟨ss', hss', htexts⟩ := exists_readSources hss hsame
  rw [plan?_eq_some_iff, hdirectory, hroot, hfiles]
  exact ⟨ss', targets, hss', htargets, by rw [htexts]⟩

/-- After a run that copies, all that a second run is to write is there, if it finds the same. -/
theorem mirrored_of_findsSame
    (h : (rewriteProject d { o with mode := .copies dir }).exitStatus = 0)
    (hsame : FindsSame d (rewriteProject d { o with mode := .copies dir }).disk o.sourceRoot) :
    Mirrored (rewriteProject d { o with mode := .copies dir }).disk o dir := by
  obtain ⟨c, hc, ws, hplan, hwrite⟩ := rewriteProject_copies_iff.mp ⟨h, rfl⟩
  have hwrote := wrote_of_plan? hplan hwrite
  obtain ⟨c₁, hc₁, c', hc', hroot, hfiles, htexts⟩ := hsame
  obtain rfl : c₁ = c := Option.some.inj (hc₁.symm.trans hc)
  have hdirectory : c'.workingDirectory = c₁.workingDirectory := by
    rw [(prepare_eq_ok (context?_eq_some_iff.mp hc)).1,
      (prepare_eq_ok (context?_eq_some_iff.mp hc')).1, hwrote.here]
  exact ⟨c', hc', ws, plan?_of_same hplan hdirectory hroot hfiles htexts, hwrote.written⟩

end Same

/-! ## Copies that are not found -/

theorem context?_of_load {d : Disk} {sourceRoot : Option Path} {loaded : Config.Loaded} {a : Address}
    {e : Entry} (hload : Config.load d (.ofAddress d.here) = .ok loaded)
    (hstat : d.stat (settle (.ofAddress d.here) loaded.base sourceRoot loaded.config.sourceRoot) =
      .ok (a, e)) :
    ∃ c ∈ context? d sourceRoot,
      c.config = loaded.config.withOverrides { sourceRoot := sourceRoot } ∧
      c.sourceRoot = .ofAddress a := by
  have hcanonical : d.canonical
      (settle (.ofAddress d.here) loaded.base sourceRoot loaded.config.sourceRoot) =
      .ok (.ofAddress a) := by
    rw [Disk.canonical, hstat]
    rfl
  unfold context? prepare contextFrom
  rw [hload]
  simp only [hcanonical]
  exact ⟨_, rfl, rfl, rfl⟩

/-- The copies of a run make no difference to the search of a second run: the settings and the places
to walk from are the same, and none of the files that are found then is a copy. -/
structure CopiesUnseen (d : Disk) (o : RewriteOptions) (dir : Path) : Prop where
  settings : Config.load (rewriteProject d { o with mode := .copies dir }).disk (.ofAddress d.here) =
    Config.load d (.ofAddress d.here)
  starts : ∀ c ∈ context? d o.sourceRoot,
    Discovery.starts (rewriteProject d { o with mode := .copies dir }).disk
      (discovery c.config c.sourceRoot) = Discovery.starts d (discovery c.config c.sourceRoot)
  unseen : ∀ c ∈ context? d o.sourceRoot, ∀ a, CopiedTo d o dir a →
    ¬Discovery.Resolved (rewriteProject d { o with mode := .copies dir }).disk
      (discovery c.config c.sourceRoot) (a.map EntryName.text)

section Unseen

variable {d : Disk} {o : RewriteOptions} {dir : Path}

theorem CopiesUnseen.growsUnseen (h : CopiesUnseen d o dir) (hlinks : d.tree.LinkFree) {c : Context}
    (hc : c ∈ context? d o.sourceRoot) {start : Path}
    (hstart : start ∈ Discovery.starts d (discovery c.config c.sourceRoot)) :
    Discovery.GrowsUnseen d (rewriteProject d { o with mode := .copies dir }).disk
      (discovery c.config c.sourceRoot) start := by
  have hwrote := copies_wrote d o dir
  have hbase : ∃ x, d.stat (discovery c.config c.sourceRoot).base = .ok x := by
    obtain ⟨loaded, a, e, -, hstat, rfl⟩ := exists_of_prepare (context?_eq_some_iff.mp hc)
    obtain ⟨-, -, -, hget⟩ := Disk.stat_eq_ok_iff.mp hstat
    exact ⟨_, Disk.stat_ofAddress hget (hlinks.ne_link hget)⟩
  refine ⟨hlinks, hwrote.linkFree hlinks, hwrote.here, hwrote.keeps,
    Discovery.exists_stat_of_mem_starts hbase hstart, fun p hp a hnames => ?_⟩
  refine leftAlone_of_not_copiedTo fun hcopied => h.unseen c hc a hcopied ?_
  rw [Discovery.resolved_iff_finds]
  refine ⟨p, Discovery.mem_sources_iff.mp (List.mem_flatMap.mpr ⟨start, ?_, hp⟩), hnames.symm⟩
  rw [h.starts c hc]
  exact hstart

theorem CopiesUnseen.files_eq (h : CopiesUnseen d o dir) (hlinks : d.tree.LinkFree) {c : Context}
    (hc : c ∈ context? d o.sourceRoot) :
    (discover (rewriteProject d { o with mode := .copies dir }).disk
      (discovery c.config c.sourceRoot)).files = c.files := by
  rw [Discovery.files_discover_of_growsUnseen (h.starts c hc) fun _ => h.growsUnseen hlinks hc,
    (prepare_eq_ok (context?_eq_some_iff.mp hc)).2.2]

/-- A file that was found holds what it held before. -/
theorem CopiesUnseen.read_eq (h : CopiesUnseen d o dir) (hlinks : d.tree.LinkFree)
    {c : Context} (hc : c ∈ context? d o.sourceRoot) {p : Path} (hp : p ∈ c.files)
    {bytes : ByteArray} (hread : d.read p = .ok bytes) :
    (rewriteProject d { o with mode := .copies dir }).disk.read p = d.read p := by
  have hwrote := copies_wrote d o dir
  obtain ⟨a, hstat⟩ := Disk.read_eq_ok_iff.mp hread
  obtain ⟨-, -, -, hget⟩ := Disk.stat_eq_ok_iff.mp hstat
  have hleft : LeftAlone d.tree (rewriteProject d { o with mode := .copies dir }).disk.tree a := by
    refine leftAlone_of_not_copiedTo fun hcopied => h.unseen c hc a hcopied ?_
    rw [Disk.names_of_stat hlinks hstat]
    refine ⟨p, by rwa [h.files_eq hlinks hc], ?_⟩
    rw [Disk.namesTo, Disk.namesTo, hwrote.here]
  rw [hread, Disk.read_eq_ok_iff]
  exact ⟨a, Disk.stat_of_keeps hstat hwrote.here hwrote.keeps (hleft.get?_of_some hget)
    (hlinks.ne_link hget)⟩

/-- A second run starts from the same settings at the same source root. -/
theorem CopiesUnseen.exists_context? (h : CopiesUnseen d o dir) (hlinks : d.tree.LinkFree)
    {c : Context} (hc : c ∈ context? d o.sourceRoot) :
    ∃ c' ∈ context? (rewriteProject d { o with mode := .copies dir }).disk o.sourceRoot,
      c'.config = c.config ∧ c'.sourceRoot = c.sourceRoot := by
  have hwrote := copies_wrote d o dir
  obtain ⟨loaded, a, e, hload, hstat, rfl⟩ := exists_of_prepare (context?_eq_some_iff.mp hc)
  obtain ⟨e', hstat'⟩ := Disk.exists_stat_of_keeps hlinks hstat hwrote.here hwrote.keeps
  have hload' := h.settings.trans hload
  rw [← hwrote.here] at hload' hstat'
  exact context?_of_load hload' hstat'

theorem findsSame_of_copiesUnseen (hlinks : d.tree.LinkFree)
    (h : (rewriteProject d { o with mode := .copies dir }).exitStatus = 0)
    (hunseen : CopiesUnseen d o dir) :
    FindsSame d (rewriteProject d { o with mode := .copies dir }).disk o.sourceRoot := by
  obtain ⟨c, hc, ws, hplan, -⟩ := rewriteProject_copies_iff.mp ⟨h, rfl⟩
  obtain ⟨ss, -, hss, -⟩ := plan?_eq_some_iff.mp hplan
  obtain ⟨c', hc', hconfig, hroot⟩ := hunseen.exists_context? hlinks hc
  refine ⟨c, hc, c', hc', hroot, ?_, fun p hp => ?_⟩
  · rw [(prepare_eq_ok (context?_eq_some_iff.mp hc')).2.2, hconfig, hroot,
      hunseen.files_eq hlinks hc]
  · obtain ⟨bytes, hread, -⟩ := exists_source hss hp
    rw [rewrittenAt, rewrittenAt, hunseen.read_eq hlinks hc hp hread]

end Unseen

/-! ## The second run -/

/-- When a second run changes nothing after one that wrote copies: if and only if each file that it
finds has its copy already. So it is if it finds the same files with the same texts after rewriting,
and in particular if it has the same settings, walks from the same places and finds no copy. -/
theorem copies_repeat {d : Disk} {o : RewriteOptions} {dir : Path} (hlinks : d.tree.LinkFree)
    (h : (rewriteProject d { o with mode := .copies dir }).exitStatus = 0) :
    (Idle (rewriteProject d { o with mode := .copies dir }).disk o dir ↔
        Mirrored (rewriteProject d { o with mode := .copies dir }).disk o dir) ∧
      (FindsSame d (rewriteProject d { o with mode := .copies dir }).disk o.sourceRoot →
        Idle (rewriteProject d { o with mode := .copies dir }).disk o dir) ∧
      (CopiesUnseen d o dir →
        Idle (rewriteProject d { o with mode := .copies dir }).disk o dir) := by
  refine ⟨idle_iff_mirrored, fun hsame => ?_, fun hunseen => ?_⟩
  · exact idle_iff_mirrored.mpr (mirrored_of_findsSame h hsame)
  · exact idle_iff_mirrored.mpr
      (mirrored_of_findsSame h (findsSame_of_copiesUnseen hlinks h hunseen))

/-- A project with its source files in a directory of their own. -/
def sourceProject : Disk where
  tree := (FileTree.empty.put [⟨"src", Eq.refl true⟩] .directory).put
    [⟨"a.js", Eq.refl true⟩, ⟨"src", Eq.refl true⟩] (.file annotated)
  here := []

/-- Options that make that directory the source root. -/
def fromSources : RewriteOptions := { sourceRoot := some (.ofText "src") }

/-- The project with copies of its source files in another directory. -/
def mirroredProject : Disk :=
  (rewriteProject sourceProject { fromSources with mode := .copies (.ofText "out") }).disk

theorem linkFree_sourceProject : sourceProject.tree.LinkFree := by
  refine (linkFree_empty.put _ ?_).put _ ?_
  all_goals
    intro target h
    cases h

theorem copiesUnseen_sourceProject : CopiesUnseen sourceProject fromSources (.ofText "out") where
  settings := by
    have hbefore : Config.search sourceProject (.ofAddress []) = none := by decide +kernel
    have hafter : Config.search mirroredProject (.ofAddress []) = none := by decide +kernel
    show Config.load mirroredProject (.ofAddress []) = Config.load sourceProject (.ofAddress [])
    rw [Config.load, Config.load, hbefore, hafter]
  starts := by decide +kernel
  unseen := by
    have hplaces : ∀ c ∈ context? sourceProject fromSources.sourceRoot,
        ∀ w ∈ copies sourceProject fromSources.sourceRoot (.ofText "out"),
          ∀ a ∈ mirroredProject.fileAt? w.1,
            ∀ p ∈ (discover mirroredProject (discovery c.config c.sourceRoot)).files,
              mirroredProject.namesTo p ≠ a.map EntryName.text := by
      decide +kernel
    rintro c hc a ⟨w, hw, hfile⟩ ⟨p, hp, hnames⟩
    exact hplaces c hc w hw a hfile p hp hnames

theorem copies_repeat_sourceProject :
    sourceProject.tree.LinkFree ∧
      (rewriteProject sourceProject
        { fromSources with mode := .copies (.ofText "out") }).exitStatus = 0 ∧
      CopiesUnseen sourceProject fromSources (.ofText "out") ∧
      Mirrored mirroredProject fromSources (.ofText "out") ∧
      Idle mirroredProject fromSources (.ofText "out") := by
  have hstatus : (rewriteProject sourceProject
      { fromSources with mode := .copies (.ofText "out") }).exitStatus = 0 := by
    decide +kernel
  obtain ⟨hiff, -, hrepeat⟩ := @copies_repeat sourceProject fromSources (.ofText "out")
    linkFree_sourceProject hstatus
  have hidle := hrepeat copiesUnseen_sourceProject
  exact ⟨linkFree_sourceProject, hstatus, copiesUnseen_sourceProject, hiff.mp hidle, hidle⟩

/-- Copies written below the source root are copied themselves by the next run. -/
theorem copies_not_repeat : ¬∀ (d : Disk) (o : RewriteOptions) (dir : Path), d.tree.LinkFree →
    (rewriteProject d { o with mode := .copies dir }).exitStatus = 0 →
      Idle (rewriteProject d { o with mode := .copies dir }).disk o dir := by
  intro h
  have hidle := h (.ofFile annotated) {} (.ofText "out") (linkFree_ofFile annotated)
    (by decide +kernel)
  obtain ⟨c, hc, hcopies⟩ := (idle_iff_mirrored.mp hidle).exists_copy
  have hstart : (context? (rewriteProject (.ofFile annotated)
      { mode := .copies (.ofText "out") }).disk none).map
        (fun c => (c.config, c.sourceRoot, c.workingDirectory)) = some ({}, .root, .root) := by
    decide +kernel
  rw [hc] at hstart
  obtain ⟨hconfig, hroot, hdirectory⟩ : c.config = {} ∧ c.sourceRoot = .root ∧
      c.workingDirectory = .root := by simpa using hstart
  have hfound : .ofText "/out/a.js" ∈ c.files := by
    rw [(prepare_eq_ok (context?_eq_some_iff.mp hc)).2.2, hconfig, hroot, discover,
      Path.mem_distinct_iff]
    decide +kernel
  obtain ⟨q, a, hcopy, hfile⟩ := hcopies _ hfound
  rw [hroot, hdirectory] at hcopy
  have hplace : copyPath .root (Path.root.join (.ofText "out")) (.ofText "/out/a.js") =
      .ok (.ofText "/out/out/a.js") := rfl
  obtain rfl : q = .ofText "/out/out/a.js" := Except.ok.inj (hcopy.symm.trans hplace)
  have hnone : (rewriteProject (.ofFile annotated) { mode := .copies (.ofText "out") }).disk.fileAt?
      (.ofText "/out/out/a.js") = none := by
    decide +kernel
  rw [hnone] at hfile
  cases hfile

end Run

end CmsVariables
