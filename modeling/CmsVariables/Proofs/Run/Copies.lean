import CmsVariables.Proofs.Path.Spelling
import CmsVariables.Proofs.Run.Sources

/-!
# Copies that land on sources

A run that copies is meant to leave the sources as they are, but nothing keeps the place of a copy
apart from the files that were read: the directory for copies can be the source root itself, lie
below a link to it, or lead there over an include with a double dot. Then the copy is written over a
source.

* `copies_wrote`: the writes of a run, as far as it gets.
* `copies_keep_sources_iff`: the sources are left as they are if and only if the last copy that lands
  on a source holds the same bytes.
-/

namespace CmsVariables

open FileTree

namespace Run

/-! ## The places of copies -/

theorem segments_copyPath_ne_nil {sourceRoot dir p q : Path}
    (h : copyPath sourceRoot dir p = .ok q) : q.segments ≠ [] := by
  rw [copyPath] at h
  split at h
  · rename_i rest hrest
    cases h
    exact dir.segments_join_ne_nil (Path.segments_ne_nil_of_stripPrefix? hrest)
  · cases h

theorem segments_copyPaths_ne_nil {sourceRoot dir : Path} {ps qs : List Path}
    (h : copyPaths sourceRoot dir ps = .ok qs) : ∀ q ∈ qs, q.segments ≠ [] := by
  induction ps generalizing qs with
  | nil =>
    cases h
    exact List.forall_mem_nil _
  | cons p ps ih =>
    rw [copyPaths] at h
    split at h
    · cases h
    rename_i q hq
    split at h
    · cases h
    rename_i rest hrest
    cases h
    exact List.forall_mem_cons.mpr ⟨segments_copyPath_ne_nil hq, ih hrest⟩

/-! ## The writes of a run -/

/-- The copies that a run writes under a directory before it ends or fails. -/
def copiesFrom (d : Disk) (c : Context) (dir : Path) : List (Path × String) :=
  match readSources d c.files, copyPaths c.sourceRoot (c.workingDirectory.join dir) c.files with
  | .ok ss, .ok targets =>
    finishedWrites d (targets.zip (ss.map fun s => (rewrite s.text).text))
  | _, _ => []

theorem rewriteFrom_copies_wrote (d : Disk) (c : Context) (dir : Path)
    (stderr : List Console.Line) :
    Wrote d (rewriteFrom d (.copies dir) c stderr).disk (copiesFrom d c dir) := by
  rw [rewriteFrom, copiesFrom]
  by_cases hfiles : c.files = []
  · rw [if_pos hfiles, hfiles]
    exact .of_addsDirectories rfl (.refl _)
  rw [if_neg hfiles]
  cases hss : readSources d c.files with
  | error f => exact .of_addsDirectories rfl (.refl _)
  | ok ss =>
    have hpaths := paths_rewriteSource hss
    have htexts : (ss.map rewriteSource).map RewrittenFile.text =
        ss.map fun s => (rewrite s.text).text := List.map_map
    simp only [writeCopies, hpaths, htexts]
    cases htargets : copyPaths c.sourceRoot (c.workingDirectory.join dir) c.files with
    | error f => exact .of_addsDirectories rfl (.refl _)
    | ok targets =>
      have hwritable : ∀ w ∈ targets.zip (ss.map fun s => (rewrite s.text).text), Writable d w.1 :=
        fun w hw => Or.inl (segments_copyPaths_ne_nil htargets _ (List.of_mem_zip hw).1)
      simp only
      split
      · rename_i f d' hwrite
        exact wrote_of_writeAll hwrite hwritable
      · rename_i d' hwrite
        exact wrote_of_writeAll hwrite hwritable

/-- The copies that a run for a project writes before it ends or fails. -/
def copies (d : Disk) (sourceRoot : Option Path) (dir : Path) : List (Path × String) :=
  match (prepare d { sourceRoot := sourceRoot }).2 with
  | .ok c => copiesFrom d c dir
  | .error _ => []

theorem copies_wrote (d : Disk) (o : RewriteOptions) (dir : Path) :
    Wrote d (rewriteProject d { o with mode := .copies dir }).disk (copies d o.sourceRoot dir) := by
  rw [rewriteProject, copies]
  cases hprepare : prepare d { sourceRoot := o.sourceRoot } with
  | mk rs prepared =>
    cases prepared with
    | error f => exact .of_addsDirectories rfl (.refl _)
    | ok c => exact rewriteFrom_copies_wrote d c dir _

/-- A scanned file that cannot be read keeps a run from writing anything. -/
theorem disk_rewriteProject_of_unreadable {d : Disk} {o : RewriteOptions} {dir p : Path}
    {e : SystemError} (hp : p ∈ scanned d o.sourceRoot) (h : d.read p = .error e) :
    (rewriteProject d { o with mode := .copies dir }).disk = d := by
  rw [scanned] at hp
  rw [rewriteProject]
  cases hprepare : prepare d { sourceRoot := o.sourceRoot } with
  | mk rs prepared =>
    cases prepared with
    | error f => rfl
    | ok c =>
      rw [hprepare] at hp
      have hfiles : c.files ≠ [] := List.ne_nil_of_mem hp
      simp only [rewriteFrom, hfiles, if_false]
      cases hss : readSources d c.files with
      | error f => rfl
      | ok ss =>
        obtain ⟨bytes, hread, -⟩ := exists_source hss hp
        rw [hread] at h
        cases h

/-! ## What becomes of the sources -/

/-- The text of the last copy that lands on the file at the end of a path. -/
def copyOver (d : Disk) (o : RewriteOptions) (dir p : Path) : Option String :=
  let after := (rewriteProject d { o with mode := .copies dir }).disk
  (after.fileAt? p).bind fun a => lastWriteTo after a (copies d o.sourceRoot dir)

theorem read_copies_iff {d : Disk} {o : RewriteOptions} {dir p : Path}
    (hp : p ∈ scanned d o.sourceRoot) :
    (rewriteProject d { o with mode := .copies dir }).disk.read p = d.read p ↔
      ∀ text, copyOver d o dir p = some text → d.read p = .ok text.toUTF8 := by
  have hwrote := copies_wrote d o dir
  cases hread : d.read p with
  | error e =>
    -- the run fails before it writes, so no copy lands anywhere
    have hfile : d.fileAt? p = none := by
      rw [Option.eq_none_iff_forall_ne_some]
      intro a ha
      rw [Disk.read_eq_ok_iff.mpr ⟨a, (Disk.fileAt?_eq_some_iff.mp ha).choose_spec⟩] at hread
      cases hread
    rw [copyOver, disk_rewriteProject_of_unreadable hp hread, hfile]
    exact iff_of_true hread fun _ h => nomatch h
  | ok bytes =>
    obtain ⟨a, hstat⟩ := Disk.read_eq_ok_iff.mp hread
    obtain ⟨hfile, hafter⟩ := hwrote.read hstat
    rw [hafter, copyOver, hfile]
    simp only [Option.bind_some, Except.ok.injEq]
    cases lastWriteTo (rewriteProject d { o with mode := .copies dir }).disk a
        (copies d o.sourceRoot dir) with
    | none => simp
    | some text => simp [eq_comm]

/-- A run that copies leaves the sources as they are if and only if no copy with other bytes lands
on one of them, or is the last one to do so. -/
theorem copies_keep_sources_iff (d : Disk) (o : RewriteOptions) (dir : Path) :
    (∀ p ∈ scanned d o.sourceRoot,
        (rewriteProject d { o with mode := .copies dir }).disk.read p = d.read p) ↔
      ∀ p ∈ scanned d o.sourceRoot, ∀ text, copyOver d o dir p = some text →
        d.read p = .ok text.toUTF8 :=
  forall₂_congr fun _ hp => read_copies_iff hp

/-- Copies written under the working directory replace sources that lie there. -/
theorem copies_replace_sources : ¬∀ (d : Disk) (o : RewriteOptions) (dir p : Path),
    p ∈ scanned d o.sourceRoot →
      (rewriteProject d { o with mode := .copies dir }).disk.read p = d.read p := by
  intro h
  have hread := h (.ofFile "/*r:std_x*/'y'/**/".toUTF8) {} (.ofText ".") (.ofText "/a.js")
    (by decide +kernel)
  have hbytes := congrArg Except.toOption hread
  revert hbytes
  decide +kernel

end Run

end CmsVariables
