import CmsVariables.Config.Lookup
import CmsVariables.Proofs.Discovery.Standpoint
import CmsVariables.Proofs.Discovery.Walking
import CmsVariables.Proofs.FileTree.Relocation

/-!
# Where the config file is found

The search for a config file goes from a directory to those above it, so all paths that it looks at
start at the root if the first one does, and the directory of what it finds has a path from the root
as well. So the settings that are loaded depend on the file that is found, not on the place that the
search starts from.

* `load_eq_of_search`: from two directories the same file gives the same settings.
* `rooted_of_search`, `rooted_base_of_load`: paths from the root.
* `readFile_eq_ok_iff`: the settings that a file gives.
* `load_of_file`: a config file in the directory itself is the one that counts.
-/

namespace CmsVariables

open Disk

namespace Config

variable {d d' : Disk} {start p : Path}

/-- The name of the config file. -/
def entryName : EntryName := ⟨configFileName, by decide⟩

/-- The config file lies in a directory above the start. -/
theorem exists_of_search (h : search d start = some p) :
    ∃ dir ∈ start.ancestors, p = dir.child configFileName := by
  unfold search at h
  generalize start.ancestors = dirs at h ⊢
  induction dirs with
  | nil => cases h
  | cons dir above ih =>
    rw [searchAlong] at h
    split at h
    · exact ⟨dir, List.mem_cons_self, (Option.some.inj h).symm⟩
    split at h
    · cases h
    · obtain ⟨dir', hmem, hp⟩ := ih h
      exact ⟨dir', List.mem_cons_of_mem _ hmem, hp⟩

/-- A config file found from a directory has a path from the root, and so has its directory. -/
theorem rooted_of_search (hstart : start.rooted = true) (h : search d start = some p) :
    p.rooted = true ∧ ∃ base, p.parent? = some base ∧ base.rooted = true := by
  obtain ⟨dir, hmem, rfl⟩ := exists_of_search h
  have hdir := Path.rooted_of_mem_ancestors hstart hmem
  have hrooted := (dir.rooted_child configFileName).trans hdir
  obtain ⟨base, hbase, -⟩ := dir.exists_parent?_child entryName
  exact ⟨hrooted, base, hbase, (Path.segments_of_parent? hbase).1.trans hrooted⟩

/-- Two searches that find the same file load the same settings. -/
theorem load_eq_of_search (h : d'.tree = d.tree) {start' : Path} (hstart : start.rooted = true)
    (hsearch : search d start = some p) (hsearch' : search d' start' = some p) :
    load d' start' = load d start := by
  obtain ⟨hp, base, hbase, -⟩ := rooted_of_search hstart hsearch
  have hread : readFile d' p = readFile d p := by
    unfold readFile
    rw [seenFrom_correspondence.read_eq h hp]
  unfold load
  simp only [hsearch, hsearch', hread, hbase, Option.getD_some]

theorem rooted_base_of_load (hstart : start.rooted = true) {loaded : Loaded}
    (h : load d start = .ok loaded) : loaded.base.rooted = true := by
  unfold load at h
  split at h
  · rename_i p hp
    obtain ⟨-, base, hbase, hrooted⟩ := rooted_of_search hstart hp
    rw [hbase] at h
    cases hread : readFile d p with
    | error f =>
      rw [hread] at h
      cases h
    | ok c =>
      rw [hread] at h
      cases h
      exact hrooted
  · cases h
    exact hstart

/-- The settings in a config file are valid and what its text spells. -/
theorem readFile_eq_ok_iff {c : Config} :
    readFile d p = .ok c ↔
      ∃ text : String, d.read p = .ok text.toUTF8 ∧ parse text = .ok c ∧ c.problem? = none := by
  rw [readFile]
  constructor
  · intro h
    split at h
    · cases h
    rename_i bytes hread
    split at h
    · cases h
    rename_i text htext
    split at h
    · cases h
    rename_i c' hparse
    split at h
    · cases h
    · rename_i hproblem
      cases h
      exact ⟨text, by rw [hread, Text.decode?_eq_some_iff.mp htext], hparse, hproblem⟩
  · rintro ⟨text, hread, hparse, hproblem⟩
    simp only [hread, Text.decode?_eq_some_iff.mpr rfl, hparse, hproblem]

end Config

/-! ## A config file in the directory of a run -/

namespace Config

/-- A config file in a directory gives the settings for runs in it, which start from there. -/
theorem load_of_file {d : Disk} {b : Address} {text : String} {c : Config}
    (h : d.tree.get? (entryName :: b) = some (.file text.toUTF8)) (hparse : parse text = .ok c)
    (hproblem : c.problem? = none) :
    load d (.ofAddress b) = .ok ⟨c, true, .ofAddress b⟩ := by
  have hstat : d.stat ((Path.ofAddress b).child configFileName) =
      .ok (entryName :: b, .file text.toUTF8) := Disk.stat_child_ofAddress h
  have hparent : ((Path.ofAddress b).child configFileName).parent? = some (.ofAddress b) :=
    Path.parent?_child_ofAddress b entryName
  have hsearch : search d (.ofAddress b) = some ((Path.ofAddress b).child configFileName) := by
    obtain ⟨above, habove⟩ := (Path.ofAddress b).exists_ancestors_eq
    unfold search
    rw [habove, searchAlong, if_pos (Disk.exists?_iff.mpr ⟨_, hstat⟩)]
  have hread : readFile d ((Path.ofAddress b).child configFileName) = .ok c :=
    readFile_eq_ok_iff.mpr ⟨text, Disk.read_eq_ok_iff.mpr ⟨_, hstat⟩, hparse, hproblem⟩
  unfold load
  simp only [hsearch, hread, hparent]
  rfl

end Config

end CmsVariables
