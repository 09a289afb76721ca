import CmsVariables.Proofs.FileTree.Correspondence
import CmsVariables.Proofs.Run.Sources
import CmsVariables.Run.Build

/-!
# Runs on disks that correspond

A run that has found its files looks at the disk only where it reads them and where it writes. So on
disks that correspond on these paths it does the same: it prints the same lines, ends in the same way
and leaves related disks.

* `readSources_congr`, `writeAll_endAlike`: reading all sources, and writing one after another.
* `buildFrom_alike`, `rewriteFrom_alike`: what becomes of a run from what was found.
-/

namespace CmsVariables.Run

open Disk Console

/-- Two runs print the same lines and end in the same way, on related disks. -/
structure SameRun (R : Disk → Disk → Prop) (r r' : Outcome) : Prop where
  result : r'.result = r.result
  stdout : r'.stdout = r.stdout
  stderr : r'.stderr = r.stderr
  disk : R r.disk r'.disk

variable {R : Disk → Disk → Prop} {Good : Path → Prop} {d d' : Disk} {p : Path} {c : Context}
  {stderr : List Line}

/-! ## Reading and writing -/

theorem readSources_congr (hR : Correspondence R Good) {ps : List Path} (h : R d d')
    (hps : ∀ p ∈ ps, Good p) : readSources d' ps = readSources d ps := by
  induction ps with
  | nil => rfl
  | cons p ps ih =>
    obtain ⟨hp, hrest⟩ := List.forall_mem_cons.mp hps
    unfold readSources readSource
    rw [ih hrest, hR.read_eq h hp]

theorem write_endAlike (hR : Correspondence R Good) (h : R d d') (hp : Good p) (text : String) :
    EndAlike R (write d p text) (write d' p text) := by
  have hwrite := hR.writeText h hp text
  unfold write
  generalize d.writeText p text = r at hwrite ⊢
  generalize d'.writeText p text = r' at hwrite ⊢
  cases hwrite with
  | error e hdisk => exact .error _ hdisk
  | ok hdisk => exact .ok hdisk

theorem writeAll_endAlike (hR : Correspondence R Good) {ws : List (Path × String)} (h : R d d')
    (hws : ∀ w ∈ ws, Good w.1) : EndAlike R (writeAll d ws) (writeAll d' ws) := by
  induction ws generalizing d d' with
  | nil => exact .ok h
  | cons w ws ih =>
    obtain ⟨p, text⟩ := w
    obtain ⟨hp, hrest⟩ := List.forall_mem_cons.mp hws
    have hwrite := write_endAlike hR h hp text
    unfold writeAll
    generalize write d p text = r at hwrite ⊢
    generalize write d' p text = r' at hwrite ⊢
    cases hwrite with
    | error f hdisk => exact .error f hdisk
    | ok hdisk => exact ih hdisk hrest

/-! ## Runs -/

theorem buildFrom_alike (hR : Correspondence R Good) (h : R d d') (o : BuildOptions)
    (hfiles : ∀ p ∈ c.files, Good p) (houtput : Good c.output) :
    SameRun R (buildFrom d o c stderr) (buildFrom d' o c stderr) := by
  unfold buildFrom collect
  rw [readSources_congr hR h hfiles]
  cases readSources d c.files with
  | error f => exact ⟨rfl, rfl, rfl, h⟩
  | ok ss =>
    simp only [Except.map]
    split
    · exact ⟨rfl, rfl, rfl, h⟩
    · have hwrite := write_endAlike hR h houtput (listing c (declarationsOf ss))
      generalize write d c.output _ = r at hwrite ⊢
      generalize write d' c.output _ = r' at hwrite ⊢
      cases hwrite with
      | error f hdisk => exact ⟨rfl, rfl, rfl, hdisk⟩
      | ok hdisk => exact ⟨rfl, rfl, rfl, hdisk⟩

theorem writeInPlace_alike (hR : Correspondence R Good) (h : R d d')
    {changed : List RewrittenFile} (hchanged : ∀ f ∈ changed, Good f.path) :
    SameRun R (writeInPlace d changed stderr) (writeInPlace d' changed stderr) := by
  have hpaths : ∀ w ∈ changed.map (fun f => (f.path, f.text)), Good w.1 := by
    intro w hw
    obtain ⟨f, hf, rfl⟩ := List.mem_map.mp hw
    exact hchanged f hf
  have hwrite := writeAll_endAlike hR h hpaths
  unfold writeInPlace
  generalize writeAll d _ = r at hwrite ⊢
  generalize writeAll d' _ = r' at hwrite ⊢
  cases hwrite with
  | error f hdisk => exact ⟨rfl, rfl, rfl, hdisk⟩
  | ok hdisk => exact ⟨rfl, rfl, rfl, hdisk⟩

theorem writeCopies_alike (hR : Correspondence R Good) (h : R d d') {fs : List RewrittenFile}
    {dir : Path} (htargets : ∀ targets,
      copyPaths c.sourceRoot dir (fs.map RewrittenFile.path) = .ok targets →
        ∀ q ∈ targets, Good q) :
    SameRun R (writeCopies d c fs dir stderr) (writeCopies d' c fs dir stderr) := by
  unfold writeCopies
  cases hcopy : copyPaths c.sourceRoot dir (fs.map RewrittenFile.path) with
  | error f => exact ⟨rfl, rfl, rfl, h⟩
  | ok targets =>
    have hpaths : ∀ w ∈ targets.zip (fs.map RewrittenFile.text), Good w.1 := fun w hw =>
      htargets targets hcopy w.1 (List.of_mem_zip hw).1
    have hwrite := writeAll_endAlike hR h hpaths
    simp only
    generalize writeAll d _ = r at hwrite ⊢
    generalize writeAll d' _ = r' at hwrite ⊢
    cases hwrite with
    | error f hdisk => exact ⟨rfl, rfl, rfl, hdisk⟩
    | ok hdisk => exact ⟨rfl, rfl, rfl, hdisk⟩

/-- All places for copies are on paths where disks correspond. -/
def CopiesGood (Good : Path → Prop) (c : Context) : Mode → Prop
  | .copies dir => ∀ targets,
      copyPaths c.sourceRoot (c.workingDirectory.join dir) c.files = .ok targets →
        ∀ q ∈ targets, Good q
  | _ => True

theorem rewriteFrom_alike (hR : Correspondence R Good) (h : R d d') {mode : Mode}
    (hfiles : ∀ p ∈ c.files, Good p) (hcopies : CopiesGood Good c mode) :
    SameRun R (rewriteFrom d mode c stderr) (rewriteFrom d' mode c stderr) := by
  unfold rewriteFrom
  rw [readSources_congr hR h hfiles]
  split
  · exact ⟨rfl, rfl, rfl, h⟩
  cases hread : readSources d c.files with
  | error f => exact ⟨rfl, rfl, rfl, h⟩
  | ok ss =>
    have hpaths := paths_rewriteSource hread
    cases mode with
    | preview =>
      simp only
      split <;> exact ⟨rfl, rfl, rfl, h⟩
    | inPlace =>
      simp only
      split
      · exact ⟨rfl, rfl, rfl, h⟩
      · refine writeInPlace_alike hR h fun f hf => hfiles f.path ?_
        rw [← hpaths]
        exact List.mem_map_of_mem (List.mem_filter.mp hf).1
    | copies dir =>
      refine writeCopies_alike hR h ?_
      rw [hpaths]
      exact hcopies

end CmsVariables.Run
