import CmsVariables.Proofs.Config.Lookup
import CmsVariables.Proofs.Path.Ancestors

/-!
# The nearest config file

Of the directories from the start up to the root, the search takes the nearest one that holds a
config file, as long as no nearer one is the top of a repository. A link that leads nowhere counts
neither as a config file nor as the mark of a repository. Which directories lie above the start is
told by its components; no link is followed for it.

* `Governs`: the directory whose config file counts.
* `searchAlong_eq_some_iff`, `search_eq_some_iff`: the search finds its config file, or nothing.
* `load_nearest`: the settings come from that file, or are the defaults.
-/

namespace CmsVariables.Config

variable {d : Disk} {dir start p : Path}

/-- The directory holds neither a config file nor the mark of a repository. -/
def Unmarked (d : Disk) (dir : Path) : Prop :=
  d.exists? (dir.child configFileName) = false ∧ d.exists? (dir.child repositoryMark) = false

instance (d : Disk) (dir : Path) : Decidable (Unmarked d dir) :=
  inferInstanceAs (Decidable (_ ∧ _))

/-- The config file in `dir` counts for a run in `start`: `dir` is `start` or lies above it and holds
a config file, and all that lies nearer is unmarked. -/
structure Governs (d : Disk) (dir start : Path) : Prop where
  above : dir ∈ start.ancestors
  holds : d.exists? (dir.child configFileName) = true
  nearer : ∀ q ∈ start.ancestors, dir.Above q → Unmarked d q

/-! ## The search -/

theorem searchAlong_cons_of_unmarked (h : Unmarked d dir) (dirs : List Path) :
    searchAlong d (dir :: dirs) = searchAlong d dirs := by
  rw [searchAlong, if_neg (Bool.eq_false_iff.mp h.1), if_neg (Bool.eq_false_iff.mp h.2)]

theorem searchAlong_eq_some_iff {dirs : List Path} :
    searchAlong d dirs = some p ↔ ∃ nearer dir above, dirs = nearer ++ dir :: above ∧
      p = dir.child configFileName ∧ d.exists? (dir.child configFileName) = true ∧
        ∀ q ∈ nearer, Unmarked d q := by
  constructor
  · intro h
    induction dirs with
    | nil => cases h
    | cons dir dirs ih =>
      rw [searchAlong] at h
      split at h
      · rename_i hholds
        exact ⟨[], dir, dirs, rfl, (Option.some.inj h).symm, hholds, List.forall_mem_nil _⟩
      rename_i hconfig
      split at h
      · cases h
      rename_i hmark
      obtain ⟨nearer, found, above, rfl, hp, hholds, hnearer⟩ := ih h
      have hdir : Unmarked d dir := ⟨Bool.eq_false_iff.mpr hconfig, Bool.eq_false_iff.mpr hmark⟩
      exact ⟨dir :: nearer, found, above, rfl, hp, hholds, List.forall_mem_cons.mpr ⟨hdir, hnearer⟩⟩
  · rintro ⟨nearer, dir, above, rfl, rfl, hholds, hnearer⟩
    induction nearer with
    | nil => rw [List.nil_append, searchAlong, if_pos hholds]
    | cons q nearer ih =>
      obtain ⟨hq, hnearer⟩ := List.forall_mem_cons.mp hnearer
      rw [List.cons_append, searchAlong_cons_of_unmarked hq, ih hnearer]

/-- Before a path among those above another one stand those that it lies above. -/
theorem mem_nearer_iff {nearer above : List Path} (h : start.ancestors = nearer ++ dir :: above)
    (q : Path) : q ∈ nearer ↔ q ∈ start.ancestors ∧ dir.Above q := by
  have hordered := start.pairwise_above_ancestors
  rw [h, List.pairwise_append, List.pairwise_cons] at hordered
  obtain ⟨-, ⟨hdir, -⟩, hnearer⟩ := hordered
  rw [h, List.mem_append, List.mem_cons]
  constructor
  · intro hq
    exact ⟨Or.inl hq, hnearer q hq dir List.mem_cons_self⟩
  · rintro ⟨hq | rfl | hq, habove⟩
    · exact hq
    · exact absurd rfl habove.2
    · exact absurd (hdir q hq) habove.asymm

theorem search_eq_some_iff :
    search d start = some p ↔ ∃ dir, Governs d dir start ∧ p = dir.child configFileName := by
  rw [search, searchAlong_eq_some_iff]
  constructor
  · rintro ⟨nearer, dir, above, hchain, hp, hholds, hnearer⟩
    refine ⟨dir, ⟨?_, hholds, fun q hq habove => ?_⟩, hp⟩
    · rw [hchain]
      exact List.mem_append_right _ List.mem_cons_self
    · exact hnearer q ((mem_nearer_iff hchain q).mpr ⟨hq, habove⟩)
  · rintro ⟨dir, hgoverns, hp⟩
    obtain ⟨nearer, above, hchain⟩ := List.append_of_mem hgoverns.above
    refine ⟨nearer, dir, above, hchain, hp, hgoverns.holds, fun q hq => ?_⟩
    obtain ⟨hmem, habove⟩ := (mem_nearer_iff hchain q).mp hq
    exact hgoverns.nearer q hmem habove

theorem Governs.search_eq (h : Governs d dir start) :
    search d start = some (dir.child configFileName) :=
  search_eq_some_iff.mpr ⟨dir, h, rfl⟩

theorem search_eq_none (h : ∀ dir, ¬Governs d dir start) : search d start = none := by
  rw [Option.eq_none_iff_forall_ne_some]
  intro p hp
  obtain ⟨dir, hgoverns, -⟩ := search_eq_some_iff.mp hp
  exact h dir hgoverns

/-! ## The settings -/

/-- The directory of the config file that counts, as it is spelled by the path of that file. -/
theorem Governs.exists_base (h : Governs d dir start) (hstart : start.rooted = true) :
    ∃ base, (dir.child configFileName).parent? = some base ∧ base.components = dir.components ∧
      d.isDirectory base = true := by
  obtain ⟨base, hbase, hcomponents⟩ := dir.exists_parent?_child entryName
  refine ⟨base, hbase, hcomponents, ?_⟩
  obtain ⟨⟨a, e⟩, hstat⟩ := Disk.exists?_iff.mp h.holds
  obtain ⟨place, hplace, -, -⟩ := Disk.stat_eq_ok_iff.mp hstat
  refine Disk.isDirectory_of_parent? hplace hbase ?_
  have hdir : dir.rooted = true := Path.rooted_of_mem_ancestors hstart h.above
  rw [hcomponents, Path.components_of_rooted hdir]
  exact List.cons_ne_nil _ _

/-- A run from the root uses the config file in the nearest directory that has one, if nothing nearer
is the top of a repository, and that directory as its base; else it uses the defaults, and starts
from where it is. The directories are the start and all above it, up to the root. -/
theorem load_nearest (d : Disk) {start : Path} (hstart : start.rooted = true) :
    start.ancestors.map Path.components = start.components.inits.tail.reverse ∧
      (∀ dir, Governs d dir start →
        search d start = some (dir.child configFileName) ∧
          ∃ base, base.components = dir.components ∧ d.isDirectory base = true ∧
            load d start =
              (readFile d (dir.child configFileName)).map fun c => ⟨c, true, base⟩) ∧
      ((∀ dir, ¬Governs d dir start) →
        search d start = none ∧ load d start = .ok ⟨{}, false, start⟩) ∧
      ∀ p c, readFile d p = .ok c ↔
        ∃ text : String, d.read p = .ok text.toUTF8 ∧ parse text = .ok c ∧ c.problem? = none := by
  refine ⟨Path.components_ancestors hstart, ?_, ?_, fun p c => readFile_eq_ok_iff⟩
  · intro dir hgoverns
    obtain ⟨base, hbase, hcomponents, hdirectory⟩ := hgoverns.exists_base hstart
    refine ⟨hgoverns.search_eq, base, hcomponents, hdirectory, ?_⟩
    rw [load, hgoverns.search_eq]
    simp only [hbase, Option.getD_some]
  · intro hnone
    refine ⟨search_eq_none hnone, ?_⟩
    rw [load, search_eq_none hnone]

/-- A site in a repository. What would mark the directory of the site are links that lead nowhere; at
the root there are a config file and the mark of a repository. -/
def linkedSite : Disk where
  tree := ((((FileTree.empty.put [⟨"site", Eq.refl true⟩] .directory).put
    [entryName, ⟨"site", Eq.refl true⟩] (.link (.ofText "missing.json"))).put
    [⟨".git", Eq.refl true⟩, ⟨"site", Eq.refl true⟩] (.link (.ofText "/missing"))).put
    [entryName] (.file "\x7b\"output\": \"vars.txt\"\x7d".toUTF8)).put
    [⟨".git", Eq.refl true⟩] .directory
  here := []

theorem load_nearest_linkedSite :
    (Path.ofText "/site/src").rooted = true ∧ Governs linkedSite .root (.ofText "/site/src") ∧
      search linkedSite (.ofText "/site/src") = some (.ofText "/.reddotrc.json") ∧
      ∃ base, base.components = [.root] ∧ linkedSite.isDirectory base = true ∧
        load linkedSite (.ofText "/site/src") = .ok ⟨{ output := "vars.txt" }, true, base⟩ := by
  have hstart : (Path.ofText "/site/src").rooted = true := by decide
  have hgoverns : Governs linkedSite .root (.ofText "/site/src") :=
    ⟨by decide, by decide +kernel, by decide +kernel⟩
  obtain ⟨-, hload, -, -⟩ := load_nearest linkedSite hstart
  obtain ⟨hsearch, base, hbase, hdirectory, hloaded⟩ := hload _ hgoverns
  have hsettings : readFile linkedSite (Path.root.child configFileName) =
      .ok { output := "vars.txt" } := by
    decide +kernel
  rw [hsettings] at hloaded
  exact ⟨hstart, hgoverns, hsearch, base, hbase, hdirectory, hloaded⟩

end CmsVariables.Config
