import CmsVariables.Proofs.Run.Writing

/-!
# What a rewriting run reads and writes

A run reads all files that it scanned before it writes the first one. So what a run in place writes
is told by the disk before the run: `replacements` of the sources that were read.

* `readSources_eq_ok_iff`: what was read.
* `rewriteFrom_inPlace_finished`: the writes of a run in place, as far as it gets.
* `inPlace_wrote`: all the writes of a run in place that succeeds.
* `read_inPlace`: what a scanned file holds after it.
-/

namespace CmsVariables

/-- A project of one source file, `a.js`, and nothing else. -/
def Disk.ofFile (bytes : ByteArray) : Disk where
  tree := FileTree.empty.put [⟨"a.js", Eq.refl true⟩] (.file bytes)
  here := []

namespace Run

open Text

theorem Outcome.exitStatus_eq_zero_iff {r : Outcome} : r.exitStatus = 0 ↔ r.result = .ok .done := by
  rw [exitStatus]
  split
  · rename_i h
    simp [h]
  · rename_i h
    simp [h]
  · rename_i h
    simp [h]

/-- The source files that a run finds. -/
def scanned (d : Disk) (sourceRoot : Option Path) : List Path :=
  match (prepare d { sourceRoot := sourceRoot }).2 with
  | .ok c => c.files
  | .error _ => []

/-! ## Reading -/

theorem readSource_eq_ok_iff {d : Disk} {p : Path} {s : Source} :
    readSource d p = .ok s ↔ s.path = p ∧ ∃ bytes, d.read p = .ok bytes ∧
      s.text = decodeLossy bytes := by
  obtain ⟨path, text⟩ := s
  rw [readSource]
  cases d.read p with
  | error e => simp
  | ok bytes => simp [eq_comm]

theorem readSources_eq_ok_iff {d : Disk} {ps : List Path} {ss : List Source} :
    readSources d ps = .ok ss ↔
      ss.map Source.path = ps ∧ ∀ s ∈ ss, readSource d s.path = .ok s := by
  induction ps generalizing ss with
  | nil =>
    rw [readSources, List.map_eq_nil_iff]
    constructor
    · intro h
      cases h
      exact ⟨rfl, List.forall_mem_nil _⟩
    · rintro ⟨rfl, -⟩
      rfl
  | cons p ps ih =>
    rw [readSources]
    constructor
    · intro h
      split at h
      · cases h
      rename_i s hs
      split at h
      · cases h
      rename_i rest hrest
      cases h
      obtain ⟨hpaths, hall⟩ := ih.mp hrest
      have hpath := (readSource_eq_ok_iff.mp hs).1
      exact ⟨by rw [List.map_cons, hpath, hpaths],
        List.forall_mem_cons.mpr ⟨hpath.symm ▸ hs, hall⟩⟩
    · rintro ⟨hpaths, hall⟩
      cases ss with
      | nil => cases hpaths
      | cons s ss =>
        obtain ⟨rfl, hrest⟩ := List.cons_eq_cons.mp hpaths
        obtain ⟨hs, hall⟩ := List.forall_mem_cons.mp hall
        rw [hs, ih.mpr ⟨hrest, hall⟩]

/-- Sources that were read come from the files that were scanned. -/
theorem exists_source {d : Disk} {ps : List Path} {ss : List Source}
    (h : readSources d ps = .ok ss) {p : Path} (hp : p ∈ ps) :
    ∃ bytes, d.read p = .ok bytes ∧ ⟨p, decodeLossy bytes⟩ ∈ ss := by
  obtain ⟨hpaths, hall⟩ := readSources_eq_ok_iff.mp h
  obtain ⟨s, hs, rfl⟩ := List.mem_map.mp (hpaths ▸ hp)
  obtain ⟨-, bytes, hread, htext⟩ := readSource_eq_ok_iff.mp (hall s hs)
  exact ⟨bytes, hread, htext ▸ hs⟩

theorem exists_read {d : Disk} {ps : List Path} {ss : List Source}
    (h : readSources d ps = .ok ss) {s : Source} (hs : s ∈ ss) :
    s.path ∈ ps ∧ ∃ bytes, d.read s.path = .ok bytes ∧ s.text = decodeLossy bytes := by
  obtain ⟨hpaths, hall⟩ := readSources_eq_ok_iff.mp h
  exact ⟨hpaths ▸ List.mem_map_of_mem hs, (readSource_eq_ok_iff.mp (hall s hs)).2⟩

/-- Rewritten sources keep the paths of the files that they were read from. -/
theorem paths_rewriteSource {d : Disk} {ps : List Path} {ss : List Source}
    (h : readSources d ps = .ok ss) : (ss.map rewriteSource).map RewrittenFile.path = ps := by
  rw [← (readSources_eq_ok_iff.mp h).1, List.map_map]
  rfl

/-! ## Writing in place -/

/-- The writes that put rewritten sources in their places. -/
def replacements (ss : List Source) : List (Path × String) :=
  ((ss.map rewriteSource).filter RewrittenFile.isChanged).map fun f => (f.path, f.text)

theorem mem_replacements_iff {ss : List Source} {w : Path × String} :
    w ∈ replacements ss ↔
      ∃ s ∈ ss, (rewrite s.text).count ≠ 0 ∧ w = (s.path, (rewrite s.text).text) := by
  simp only [replacements, List.mem_map, List.mem_filter]
  constructor
  · rintro ⟨f, ⟨⟨s, hs, rfl⟩, hchanged⟩, rfl⟩
    exact ⟨s, hs, by simpa [RewrittenFile.isChanged, rewriteSource] using hchanged, rfl⟩
  · rintro ⟨s, hs, hcount, rfl⟩
    exact ⟨rewriteSource s, ⟨⟨s, hs, rfl⟩,
      by simpa [RewrittenFile.isChanged, rewriteSource] using hcount⟩, rfl⟩

theorem writeInPlace_wrote {d : Disk} {ps : List Path} {ss : List Source}
    {stderr : List Console.Line} (hss : readSources d ps = .ok ss) :
    Wrote d (writeInPlace d ((ss.map rewriteSource).filter RewrittenFile.isChanged) stderr).disk
      (finishedWrites d (replacements ss)) := by
  have hwritable : ∀ w ∈ replacements ss, Writable d w.1 := by
    intro w hw
    obtain ⟨s, hs, -, rfl⟩ := mem_replacements_iff.mp hw
    obtain ⟨-, bytes, hread, -⟩ := exists_read hss hs
    exact Or.inr ⟨bytes, hread⟩
  rw [writeInPlace, ← replacements]
  split
  · rename_i f d' hwrite
    exact wrote_of_writeAll hwrite hwritable
  · rename_i d' hwrite
    exact wrote_of_writeAll hwrite hwritable

section InPlace

variable {d : Disk} {c : Context} {ss : List Source} {stderr : List Console.Line} {status : Status}

/-- A run in place makes its replacements up to the first one that fails. -/
theorem rewriteFrom_inPlace_finished (hss : readSources d c.files = .ok ss) :
    Wrote d (rewriteFrom d .inPlace c stderr).disk (finishedWrites d (replacements ss)) := by
  rw [rewriteFrom]
  by_cases hfiles : c.files = []
  · rw [hfiles] at hss
    cases hss
    rw [if_pos hfiles]
    exact .of_addsDirectories rfl (.refl _)
  rw [if_neg hfiles, hss]
  by_cases hchanged : (ss.map rewriteSource).filter RewrittenFile.isChanged = []
  · simp only [replacements, hchanged, if_true]
    exact .of_addsDirectories rfl (.refl _)
  · simp only [hchanged, if_false]
    exact writeInPlace_wrote hss

theorem finishedWrites_replacements (hss : readSources d c.files = .ok ss)
    (h : (rewriteFrom d .inPlace c stderr).result = .ok status) :
    finishedWrites d (replacements ss) = replacements ss := by
  rw [rewriteFrom] at h
  by_cases hfiles : c.files = []
  · rw [hfiles] at hss
    cases hss
    rfl
  rw [if_neg hfiles, hss] at h
  by_cases hchanged : (ss.map rewriteSource).filter RewrittenFile.isChanged = []
  · rw [replacements, hchanged]
    rfl
  · simp only [hchanged, if_false] at h
    rw [writeInPlace, ← replacements] at h
    split at h
    · cases h
    · rename_i d' hwrite
      exact finishedWrites_of_ok hwrite

/-- A run in place that does not fail reads all files and makes all replacements. -/
theorem rewriteFrom_inPlace_wrote (h : (rewriteFrom d .inPlace c stderr).result = .ok status) :
    ∃ ss, readSources d c.files = .ok ss ∧
      Wrote d (rewriteFrom d .inPlace c stderr).disk (replacements ss) := by
  cases hss : readSources d c.files with
  | error f =>
    have hfiles : c.files ≠ [] := by
      intro hnil
      rw [hnil] at hss
      cases hss
    rw [rewriteFrom, if_neg hfiles, hss] at h
    cases h
  | ok ss =>
    have hwrote : Wrote d (rewriteFrom d .inPlace c stderr).disk
        (finishedWrites d (replacements ss)) := rewriteFrom_inPlace_finished hss
    rw [finishedWrites_replacements hss h] at hwrote
    exact ⟨ss, rfl, hwrote⟩

end InPlace

theorem exists_rewriteFrom {d : Disk} {o : RewriteOptions} {c : Context}
    (h : (prepare d { sourceRoot := o.sourceRoot }).2 = .ok c) :
    ∃ stderr, rewriteProject d o = rewriteFrom d o.mode c stderr := by
  rw [rewriteProject]
  cases hprepare : prepare d { sourceRoot := o.sourceRoot } with
  | mk rs prepared =>
    rw [hprepare] at h
    obtain rfl : prepared = .ok c := h
    exact ⟨remarkLines o.verbose rs, rfl⟩

/-- A run that gets past its preparation rewrites the files scanned. -/
theorem exists_context {d : Disk} {o : RewriteOptions} {status : Status}
    (h : (rewriteProject d o).result = .ok status) :
    ∃ c stderr, (prepare d { sourceRoot := o.sourceRoot }).2 = .ok c ∧
      scanned d o.sourceRoot = c.files ∧ rewriteProject d o = rewriteFrom d o.mode c stderr := by
  rw [rewriteProject] at h ⊢
  rw [scanned]
  cases hprepare : prepare d { sourceRoot := o.sourceRoot } with
  | mk rs prepared =>
    cases prepared with
    | error f =>
      rw [hprepare] at h
      cases h
    | ok c => exact ⟨c, remarkLines o.verbose rs, rfl, rfl, rfl⟩

theorem inPlace_wrote {d : Disk} {o : RewriteOptions} {status : Status}
    (h : (rewriteProject d { o with mode := .inPlace }).result = .ok status) :
    ∃ ss, readSources d (scanned d o.sourceRoot) = .ok ss ∧
      Wrote d (rewriteProject d { o with mode := .inPlace }).disk (replacements ss) := by
  obtain ⟨c, stderr, -, hscanned, hrun⟩ := exists_context h
  rw [hrun] at h ⊢
  exact hscanned ▸ rewriteFrom_inPlace_wrote h

/-- After a run in place a file that was scanned holds its rewritten text, or the same bytes as
before if there was nothing to rewrite. -/
theorem read_inPlace {d : Disk} {o : RewriteOptions} {status : Status}
    (h : (rewriteProject d { o with mode := .inPlace }).result = .ok status) {p : Path}
    (hp : p ∈ scanned d o.sourceRoot) :
    ∃ bytes, d.read p = .ok bytes ∧ (rewriteProject d { o with mode := .inPlace }).disk.read p =
      .ok (if (rewrite (decodeLossy bytes)).count = 0 then bytes
        else (rewrite (decodeLossy bytes)).text.toUTF8) := by
  obtain ⟨ss, hss, hwrote⟩ := inPlace_wrote h
  generalize (rewriteProject d { o with mode := .inPlace }).disk = after at hwrote ⊢
  obtain ⟨bytes, hread, hsource⟩ := exists_source hss hp
  obtain ⟨a, hstat⟩ := Disk.read_eq_ok_iff.mp hread
  obtain ⟨hfile, hafter⟩ := hwrote.read hstat
  refine ⟨bytes, hread, hafter.trans (congrArg Except.ok ?_)⟩
  cases hlast : lastWriteTo after a (replacements ss) with
  | none =>
    have hcount : (rewrite (decodeLossy bytes)).count = 0 := Decidable.by_contra fun hcount =>
      lastWriteTo_eq_none_iff.mp hlast (p, (rewrite (decodeLossy bytes)).text)
        (mem_replacements_iff.mpr ⟨_, hsource, hcount, rfl⟩) hfile
    rw [if_pos hcount]
    rfl
  | some text =>
    -- whatever path was written to, it led to this file before, so its text was read from here
    obtain ⟨w, hw, hwfile, rfl⟩ := exists_of_lastWriteTo hlast
    obtain ⟨s, hs, hcount, rfl⟩ := mem_replacements_iff.mp hw
    obtain ⟨-, bytes', hread', htext⟩ := exists_read hss hs
    obtain ⟨a', hstat'⟩ := Disk.read_eq_ok_iff.mp hread'
    obtain rfl : a' = a := Option.some.inj ((hwrote.read hstat').1.symm.trans hwfile)
    obtain ⟨-, -, -, hget⟩ := Disk.stat_eq_ok_iff.mp hstat
    obtain ⟨-, -, -, hget'⟩ := Disk.stat_eq_ok_iff.mp hstat'
    obtain rfl : bytes' = bytes := Entry.file.inj (Option.some.inj (hget'.symm.trans hget))
    rw [htext] at hcount
    rw [if_neg hcount, htext]
    rfl

end Run

end CmsVariables
