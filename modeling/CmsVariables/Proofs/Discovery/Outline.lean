import CmsVariables.Discovery
import CmsVariables.Proofs.FileTree.Outline
import CmsVariables.Proofs.Path.Components
import CmsVariables.Proofs.Path.Order

/-!
# What is found does not depend on contents

A search looks at names, directories and links, never into a file. So it finds the same sources on
disks that differ only in what files hold, also if their trees list the entries in another order.

* `Glob.expand_eq`: patterns stand for the same paths.
* `sourcesFrom_perm`, `nodup_sourcesFrom`: each walk meets the same sources, none of them twice.
* `discover_eq`: a search gives the same result.
-/

namespace CmsVariables

open FileTree

variable {d d' : Disk}

namespace Disk.Alike

theorem namesIn_perm (h : Alike d d') (p : Path) : (d.namesIn p).Perm (d'.namesIn p) := by
  have hfind := h.stat_sameFind p
  rw [namesIn, namesIn]
  generalize d.stat p = found at hfind ⊢
  generalize d'.stat p = found' at hfind ⊢
  cases hfind with
  | error e => exact .refl _
  | @ok a e e' houtline =>
    cases e <;> cases e' <;> cases houtline
    · exact .refl _
    · exact .refl _
    · exact h.tree.namesIn_perm a

theorem reach_eq (h : Alike d d') : d.reach = d'.reach := by
  rw [reach, reach, h.tree.length_entries_eq]

end Disk.Alike

/-! ## Expanding patterns -/

namespace Glob

open Disk

/-- Names are sorted in one way only. -/
theorem mergeSort_names_eq {ms ns : List EntryName} (h : ms.Perm ns) :
    ms.mergeSort (fun m n => decide (m.text ≤ n.text)) =
      ns.mergeSort fun m n => decide (m.text ≤ n.text) := by
  have hsorted (ns : List EntryName) :
      (ns.mergeSort fun m n => decide (m.text ≤ n.text)).Pairwise fun m n => m.text ≤ n.text := by
    refine (List.pairwise_mergeSort ?_ ?_ ns).imp of_decide_eq_true
    · intro l m n hlm hmn
      exact decide_eq_true (le_trans (of_decide_eq_true hlm) (of_decide_eq_true hmn))
    · intro m n
      rw [Bool.or_eq_true, decide_eq_true_iff, decide_eq_true_iff]
      exact le_total _ _
  refine List.Perm.eq_of_pairwise ?_ (hsorted ms) (hsorted ns)
    ((List.mergeSort_perm ms _).trans (h.trans (List.mergeSort_perm ns _).symm))
  rintro ⟨m, hm⟩ ⟨n, hn⟩ - - hle hge
  obtain rfl : m = n := le_antisymm hle hge
  rfl

namespace Search

variable {b : Bool}

theorem keep_eq (h : Alike d d') : (Search.mk d b).keep = (Search.mk d' b).keep := by
  funext p
  rw [keep, keep, h.isDirectory_eq]

theorem children_eq (h : Alike d d') : (Search.mk d b).children = (Search.mk d' b).children := by
  funext p
  rw [children, children, mergeSort_names_eq (h.namesIn_perm p)]

theorem leadsTo_eq (h : Alike d d') : (Search.mk d b).leadsTo = (Search.mk d' b).leadsTo := by
  funext p name
  rw [leadsTo, leadsTo, h.isDirectory_eq, h.hasEntry_eq]

theorem found_eq (h : Alike d d') : (Search.mk d b).found = (Search.mk d' b).found := by
  funext fill patterns p
  unfold found
  rw [keep_eq h]

theorem visit_eq (h : Alike d d') : (Search.mk d b).visit = (Search.mk d' b).visit := by
  funext fill patterns p
  cases patterns with
  | nil => rfl
  | cons pattern rest =>
    simp only [visit, h.isDirectory_eq, found_eq h]

theorem fillWith_eq (h : Alike d d') (visit : List Pattern → Path → List Path) :
    (Search.mk d b).fillWith visit = (Search.mk d' b).fillWith visit := by
  funext patterns
  induction patterns with
  | nil =>
    funext p
    rw [fillWith, fillWith, keep_eq h]
  | cons pattern rest ih =>
    funext p
    rw [fillWith, fillWith, ih, leadsTo_eq h, h.isDirectory_eq, children_eq h]

theorem fill_eq (h : Alike d d') (depth : Nat) :
    (Search.mk d b).fill depth = (Search.mk d' b).fill depth := by
  induction depth with
  | zero => exact fillWith_eq h _
  | succ depth ih => rw [fill, fill, ih, visit_eq h, fillWith_eq h]

end Search

theorem expand_eq (h : Alike d d') (pattern : Path) : expand d pattern = expand d' pattern := by
  simp only [expand, h.reach_eq, Search.fill_eq h]

end Glob

/-! ## Searching -/

namespace Discovery

theorem startsOf_eq (h : d.Alike d') (base : Path) (place : String) :
    startsOf d base place = startsOf d' base place := by
  have hdirectory : d.isDirectory = d'.isDirectory := funext h.isDirectory_eq
  rw [startsOf, startsOf, Glob.expand_eq h, h.exists?_eq, hdirectory]

theorem starts_eq (h : d.Alike d') (q : Discovery) : starts d q = starts d' q := by
  simp only [starts, startsOf_eq h]

/-- What was met on a walk, without the contents of files. -/
def outlineOf (v : Disk.Visit) : Path × Entry := (v.path, v.entry.outline)

theorem isSource_eq (h : d.Alike d') (q : Discovery) (v : Disk.Visit) :
    isSource d q v = isSource d' q ⟨(outlineOf v).1, (outlineOf v).2⟩ := by
  obtain ⟨path, entry⟩ := v
  cases entry <;> simp [isSource, isCandidate, outlineOf, Entry.outline, h.isDirectory_eq]

/-- The sources among what was met, told from the outline. -/
theorem map_filter_isSource (h : d.Alike d') (q : Discovery) (vs : List Disk.Visit) :
    (vs.filter (isSource d q)).map Disk.Visit.path =
      ((vs.map outlineOf).filter fun x => isSource d' q ⟨x.1, x.2⟩).map Prod.fst := by
  rw [List.filter_map, List.map_map]
  refine congrArg _ (List.filter_congr fun v _ => ?_)
  exact isSource_eq h q v

/-- The visits below a directory, told from the outline. -/
theorem map_outlineOf_below (p : Path) (bs : List (List EntryName × Entry)) :
    (bs.map fun b => (⟨p.below b.1, b.2⟩ : Disk.Visit)).map outlineOf =
      (bs.map fun b => (b.1, b.2.outline)).map fun b => (p.below b.1, b.2) := by
  rw [List.map_map, List.map_map]
  rfl

theorem walk_perm (h : d.Alike d') (p : Path) :
    (∃ e, d.walk p = .error e ∧ d'.walk p = .error e) ∨
      ∃ vs vs', d.walk p = .ok vs ∧ d'.walk p = .ok vs' ∧
        (vs.map outlineOf).Perm (vs'.map outlineOf) := by
  have hentry := h.entryAt_sameFind p
  have hstat := h.stat_sameFind p
  rw [Disk.walk, Disk.walk]
  generalize d.entryAt p = named at hentry ⊢
  generalize d'.entryAt p = named' at hentry ⊢
  generalize d.stat p = found at hstat ⊢
  generalize d'.stat p = found' at hstat ⊢
  cases hentry with
  | error e => exact Or.inl ⟨e, rfl, rfl⟩
  | @ok _ n n' hn =>
    cases hstat with
    | error e => exact Or.inl ⟨e, rfl, rfl⟩
    | @ok a e e' he =>
      refine Or.inr ?_
      have hhead : outlineOf ⟨p, n⟩ = outlineOf ⟨p, n'⟩ := congrArg (Prod.mk p) hn.symm
      cases e <;> cases e' <;> cases he
      · exact ⟨_, _, rfl, rfl, by rw [List.map_singleton, List.map_singleton, hhead]⟩
      · exact ⟨_, _, rfl, rfl, by rw [List.map_singleton, List.map_singleton, hhead]⟩
      · refine ⟨_, _, rfl, rfl, ?_⟩
        rw [List.map_cons, List.map_cons, hhead, map_outlineOf_below, map_outlineOf_below]
        exact ((h.tree.below_perm a).map _).cons _

theorem sourcesFrom_perm (h : d.Alike d') (q : Discovery) (start : Path) :
    (sourcesFrom d q start).Perm (sourcesFrom d' q start) := by
  rw [sourcesFrom, sourcesFrom]
  rcases walk_perm h start with ⟨e, hd, hd'⟩ | ⟨vs, vs', hd, hd', hperm⟩
  · rw [hd, hd']
  · rw [hd, hd']
    simp only
    rw [map_filter_isSource h, map_filter_isSource (.refl d')]
    exact (hperm.filter _).map _

/-- The names on the way down to an entry tell its address. -/
theorem namesBelow?_eq_some {dir a : Address} {ns : List EntryName}
    (h : namesBelow? dir a = some ns) : a = ns.reverse ++ dir ∧ ns ≠ [] := by
  rw [namesBelow?] at h
  split at h
  · rename_i hbelow
    rw [Bool.and_eq_true, bne_iff_ne, List.isSuffixOf_iff_suffix] at hbelow
    obtain ⟨⟨front, rfl⟩, hne⟩ := hbelow
    cases h
    have htake : (front ++ dir).take ((front ++ dir).length - dir.length) = front := by simp
    rw [htake]
    refine ⟨by rw [List.reverse_reverse], ?_⟩
    intro hnil
    rw [List.reverse_eq_nil_iff.mp hnil] at hne
    exact hne rfl
  · cases h

theorem nodup_below (t : FileTree) (dir : Address) : ((t.below dir).map Prod.fst).Nodup := by
  have hnames : (t.below dir).map Prod.fst =
      (t.entries.map Prod.fst).filterMap (namesBelow? dir) := by
    rw [below, List.map_filterMap, List.filterMap_map]
    refine List.filterMap_congr fun p _ => ?_
    simp [Function.comp_def]
  rw [hnames]
  refine t.distinct.filterMap fun a a' ns h h' => ?_
  rw [(namesBelow?_eq_some h).1, (namesBelow?_eq_some h').1]

/-- A walk meets nothing twice. -/
theorem nodup_walk {p : Path} {vs : List Disk.Visit} (h : d.walk p = .ok vs) :
    (vs.map fun v => v.path.components).Nodup := by
  rw [Disk.walk] at h
  split at h
  · cases h
  split at h
  · cases h
  · rename_i a hstat
    cases h
    have hpaths : ((d.tree.below a).map fun b => (⟨p.below b.1, b.2⟩ : Disk.Visit)).map
          (fun v => v.path.components) =
        ((d.tree.below a).map Prod.fst).map fun ns =>
          p.components ++ ns.map fun n => .name n.text := by
      rw [List.map_map, List.map_map]
      exact List.map_congr_left fun b _ => p.components_below b.1
    rw [List.map_cons, hpaths, List.nodup_cons]
    constructor
    · intro hmem
      obtain ⟨ns, hns, heq⟩ := List.mem_map.mp hmem
      obtain ⟨b, hb, rfl⟩ := List.mem_map.mp hns
      obtain ⟨x, -, hx⟩ := List.mem_filterMap.mp hb
      obtain ⟨ns', hns', rfl⟩ := Option.map_eq_some_iff.mp hx
      have hnil := List.append_right_eq_self.mp heq
      exact (namesBelow?_eq_some hns').2 (List.map_eq_nil_iff.mp hnil)
    · refine (nodup_below d.tree a).map fun ns ns' heq => ?_
      refine List.map_injective_iff.mpr ?_ (List.append_cancel_left heq)
      rintro ⟨m, hm⟩ ⟨n, hn⟩ hname
      obtain rfl : m = n := Path.Component.name.inj hname
      rfl
  · cases h
    exact List.nodup_singleton _

theorem nodup_sourcesFrom (d : Disk) (q : Discovery) (start : Path) :
    ((sourcesFrom d q start).map Path.places).Nodup := by
  rw [sourcesFrom]
  split
  · rename_i vs hwalk
    have hnodup := (nodup_walk hwalk).map
      (List.map_injective_iff.mpr Path.Component.place_injective)
    rw [List.map_map] at hnodup ⊢
    exact hnodup.sublist (List.filter_sublist.map _)
  · exact List.nodup_nil

theorem walkNotices_eq (h : d.Alike d') (q : Discovery) : walkNotices d q = walkNotices d' q := by
  rw [walkNotices, walkNotices, starts_eq h]
  refine List.filterMap_congr fun p _ => ?_
  rcases walk_perm h p with ⟨e, hd, hd'⟩ | ⟨vs, vs', hd, hd', -⟩
  · rw [hd, hd']
  · rw [hd, hd']

theorem startNotices_eq (h : d.Alike d') (q : Discovery) :
    startNotices d q = startNotices d' q := by
  simp only [startNotices, startsOf_eq h]

end Discovery

theorem files_discover_eq (h : d.Alike d') (q : Discovery) :
    (discover d q).files = (discover d' q).files := by
  rw [discover, discover, Discovery.starts_eq h]
  exact Path.distinct_flatMap_congr (fun s _ => Discovery.sourcesFrom_perm h q s)
    fun s _ => Discovery.nodup_sourcesFrom d q s

/-- Disks that differ only in what files hold give the same result. -/
theorem discover_eq (h : d.Alike d') (q : Discovery) : discover d q = discover d' q := by
  have hfiles := files_discover_eq h q
  simp only [discover] at hfiles ⊢
  rw [hfiles, Discovery.walkNotices_eq h, Discovery.startNotices_eq h]

end CmsVariables
