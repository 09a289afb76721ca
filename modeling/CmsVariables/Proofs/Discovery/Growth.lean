import CmsVariables.Proofs.Discovery.Spellings

/-!
# Searching a tree that has grown

New files make no difference to a search that does not find them, and new directories make none at
all, as long as it walks from the same places. Without links what a search finds are files, so it is
enough to look at these.

* `mem_sourcesFrom_iff_file`: what a walk finds without links.
* `sourcesFrom_perm_of_growsUnseen`: where the new files are not found, a walk finds the same.
* `files_discover_of_growsUnseen`: and so does a search.
-/

namespace CmsVariables

open FileTree

namespace FileTree

/-- Files are the same where all is left alone. -/
theorem LeftAlone.get?_eq_file {t t' : FileTree} {a : Address} (h : LeftAlone t t' a)
    {bytes : ByteArray} (hget : t'.get? a = some (.file bytes)) : t.get? a = some (.file bytes) := by
  rcases h with heq | ⟨-, hdir⟩
  · rw [← heq, hget]
  · rw [hdir] at hget
    cases hget

end FileTree

namespace Disk

variable {d d' : Disk} {start p : Path} {e : Entry}

/-- The path of an address leads there. -/
theorem stat_ofAddress {a : Address} (h : d.tree.get? a = some e) (he : ∀ target, e ≠ .link target) :
    d.stat (.ofAddress a) = .ok (a, e) := by
  cases a with
  | nil => exact stat_eq_ok_iff.mpr ⟨_, d.resolve_root .target, rfl, h⟩
  | cons n a =>
    have hpath : Path.ofAddress (n :: a) = Path.under a [n.text] := by
      rw [Path.under, Path.ofAddress, List.reverse_cons, List.map_append]
      rfl
    rw [hpath]
    exact stat_under_name h he

/-- Without links a path leads to the same place after the tree has grown. -/
theorem exists_stat_of_keeps {a : Address} (hlinks : d.tree.LinkFree) (h : d.stat p = .ok (a, e))
    (hhere : d'.here = d.here) (hkeeps : Keeps d.tree d'.tree) : ∃ e', d'.stat p = .ok (a, e') := by
  obtain ⟨-, -, -, hget⟩ := stat_eq_ok_iff.mp h
  obtain ⟨e', hget', hlink⟩ := hkeeps.get?_ne_link hget (hlinks.ne_link hget)
  exact ⟨e', stat_of_keeps h hhere hkeeps hget' hlink⟩

theorem Meets.exists_get? (hlinks : d.tree.LinkFree) (h : Meets d start p e) :
    ∃ a, d.tree.get? a = some e := by
  cases h with
  | @start a _ hentry =>
    rw [entryAt_eq_stat hlinks] at hentry
    obtain ⟨-, -, -, hget⟩ := stat_eq_ok_iff.mp hentry
    exact ⟨a, hget⟩
  | inside _ hget => exact ⟨_, hget⟩

end Disk

namespace Discovery

variable {d d' : Disk} {q : Discovery} {start p : Path}

/-- Without links a walk meets the file that its path leads to, or those below the directory. -/
theorem meets_file_iff (hlinks : d.tree.LinkFree) {a : Address} {e : Entry} {bytes : ByteArray}
    (hstat : d.stat start = .ok (a, e)) : d.Meets start p (.file bytes) ↔
      ∃ ns, p = start.below ns ∧ d.tree.get? (ns.reverse ++ a) = some (.file bytes) := by
  obtain ⟨-, -, -, hget⟩ := Disk.stat_eq_ok_iff.mp hstat
  by_cases hdir : e = .directory
  · subst hdir
    have hnot : Entry.file bytes ≠ .directory := fun h => nomatch h
    rw [meets_iff hlinks hstat hnot]
    refine exists_congr fun ns => and_iff_right_of_imp ?_
    rintro ⟨-, hfile⟩ rfl
    rw [List.reverse_nil, List.nil_append, hget] at hfile
    cases hfile
  have hentry := (Disk.entryAt_eq_stat hlinks start).trans hstat
  constructor
  · intro h
    cases h with
    | start hentry' =>
      rw [hentry] at hentry'
      cases hentry'
      exact ⟨[], rfl, hget⟩
    | inside henters =>
      obtain ⟨b, hstart⟩ := henters.exists_stat
      rw [hstat] at hstart
      cases hstart
      exact absurd rfl hdir
  · rintro ⟨ns, rfl, hfile⟩
    rcases List.eq_nil_or_concat ns with rfl | ⟨front, n, rfl⟩
    · rw [List.reverse_nil, List.nil_append, hget] at hfile
      cases hfile
      exact .start hentry (Disk.exists?_iff.mpr ⟨_, hstat⟩)
    · -- nothing lies below what is no directory
      rw [List.concat_eq_append, reverse_concat_append] at hfile
      have hparent := get?_directory_of_append (get?_tail hfile)
      rw [hget] at hparent
      exact absurd (Option.some.inj hparent) hdir

/-- Without links a walk finds the files met that have one of the extensions and are not ignored. -/
theorem mem_sourcesFrom_iff_file (hlinks : d.tree.LinkFree) :
    p ∈ sourcesFrom d q start ↔ (∃ bytes, d.Meets start p (.file bytes)) ∧
      (∃ x ∈ q.extensions, p.extension? = some x) ∧ ¬IsIgnored q p := by
  rw [mem_sourcesFrom_iff]
  constructor
  · rintro ⟨e, hmeets, hwanted⟩
    refine ⟨?_, hwanted.extension, hwanted.kept⟩
    rcases hwanted.candidate with ⟨bytes, rfl⟩ | ⟨⟨target, rfl⟩, -⟩
    · exact ⟨bytes, hmeets⟩
    · obtain ⟨a, hget⟩ := hmeets.exists_get? hlinks
      exact absurd hget (hlinks a target)
  · rintro ⟨⟨bytes, hmeets⟩, hextension, hkept⟩
    exact ⟨_, hmeets, Or.inl ⟨bytes, rfl⟩, hextension, hkept⟩

/-- How a tree without links can grow for a walk: what the walk finds afterwards is in no place where
a file is new or different. -/
structure GrowsUnseen (d d' : Disk) (q : Discovery) (start : Path) : Prop where
  linkFree : d.tree.LinkFree
  linkFree' : d'.tree.LinkFree
  here : d'.here = d.here
  keeps : Keeps d.tree d'.tree
  exists_start : ∃ x, d.stat start = .ok x
  unseen : ∀ p ∈ sourcesFrom d' q start, ∀ b : Address, b.map EntryName.text = d'.namesTo p →
    LeftAlone d.tree d'.tree b

theorem GrowsUnseen.exists_stat (h : GrowsUnseen d d' q start) :
    ∃ a e e', d.stat start = .ok (a, e) ∧ d'.stat start = .ok (a, e') := by
  obtain ⟨⟨a, e⟩, hstat⟩ := h.exists_start
  obtain ⟨e', hstat'⟩ := Disk.exists_stat_of_keeps h.linkFree hstat h.here h.keeps
  exact ⟨a, e, e', hstat, hstat'⟩

theorem sourcesFrom_perm_of_growsUnseen (h : GrowsUnseen d d' q start) :
    (sourcesFrom d q start).Perm (sourcesFrom d' q start) := by
  have hnodup (d : Disk) : (sourcesFrom d q start).Nodup :=
    List.Nodup.of_map Path.places (nodup_sourcesFrom d q start)
  obtain ⟨a, e, e', hstat, hstat'⟩ := h.exists_stat
  refine (List.perm_ext_iff_of_nodup (hnodup d) (hnodup d')).mpr fun p => ?_
  constructor
  · intro hp
    obtain ⟨⟨bytes, hmeets⟩, hwanted⟩ := (mem_sourcesFrom_iff_file h.linkFree).mp hp
    obtain ⟨ns, hpath, hfile⟩ := (meets_file_iff h.linkFree hstat).mp hmeets
    obtain ⟨bytes', hfile'⟩ := h.keeps.file hfile
    exact (mem_sourcesFrom_iff_file h.linkFree').mpr
      ⟨⟨bytes', (meets_file_iff h.linkFree' hstat').mpr ⟨ns, hpath, hfile'⟩⟩, hwanted⟩
  · intro hp
    obtain ⟨⟨bytes, hmeets⟩, hwanted⟩ := (mem_sourcesFrom_iff_file h.linkFree').mp hp
    obtain ⟨ns, rfl, hfile⟩ := (meets_file_iff h.linkFree' hstat').mp hmeets
    have hleft := h.unseen _ hp _ (names_below h.linkFree' hstat' ns).symm
    exact (mem_sourcesFrom_iff_file h.linkFree).mpr
      ⟨⟨bytes, (meets_file_iff h.linkFree hstat).mpr ⟨ns, rfl, hleft.get?_eq_file hfile⟩⟩, hwanted⟩

/-- A search that walks from the same places finds the same files. -/
theorem files_discover_of_growsUnseen (hstarts : starts d' q = starts d q)
    (h : ∀ start ∈ starts d q, GrowsUnseen d d' q start) :
    (discover d' q).files = (discover d q).files := by
  rw [discover, discover, hstarts]
  exact (Path.distinct_flatMap_congr
    (fun start hstart => sourcesFrom_perm_of_growsUnseen (h start hstart))
    fun start _ => nodup_sourcesFrom d q start).symm

/-- A walk starts from a place that exists, if the base does. -/
theorem exists_stat_of_mem_starts (hbase : ∃ x, d.stat q.base = .ok x) (h : start ∈ starts d q) :
    ∃ x, d.stat start = .ok x := by
  cases mem_starts_iff.mp h with
  | base => exact hbase
  | plain _ _ hexists => exact Disk.exists?_iff.mp hexists
  | pattern _ _ _ _ hdir =>
    rw [Disk.isDirectory] at hdir
    split at hdir
    · exact ⟨_, by assumption⟩
    · cases hdir

end Discovery

end CmsVariables
