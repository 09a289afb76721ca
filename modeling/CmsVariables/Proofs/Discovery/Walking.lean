import CmsVariables.Discovery
import CmsVariables.Proofs.Discovery.Outline
import CmsVariables.Proofs.FileTree.Overwriting
import Mathlib.Data.List.Induction

/-!
# What a walk meets

A walk from a path lists the directory that the path leads to, and every directory met on the way;
it follows no link that it meets. `Meets` tells by rules what is met, one directory after another.

* `enters_iff`: which directories are listed, and under which paths.
* `mem_walk_iff`: a walk finds what the rules tell.
-/

namespace CmsVariables

open FileTree

namespace FileTree

variable {t : FileTree}

theorem reverse_concat_append (ns : List EntryName) (name : EntryName) (dir : Address) :
    (ns ++ [name]).reverse ++ dir = name :: (ns.reverse ++ dir) := by
  rw [List.reverse_append, List.reverse_singleton, List.singleton_append, List.cons_append]

theorem namesBelow?_append {dir : Address} {ns : List EntryName} (h : ns ≠ []) :
    namesBelow? dir (ns.reverse ++ dir) = some ns := by
  have hbelow : (dir.isSuffixOf (ns.reverse ++ dir) && ns.reverse ++ dir != dir) = true := by
    rw [Bool.and_eq_true, bne_iff_ne, List.isSuffixOf_iff_suffix]
    refine ⟨List.suffix_append _ _, fun heq => h ?_⟩
    exact List.reverse_eq_nil_iff.mp (List.append_left_eq_self.mp heq)
  rw [namesBelow?, if_pos hbelow]
  simp

/-- What lies below a directory, told by the names on the way down. -/
theorem mem_below_iff {dir : Address} {ns : List EntryName} {e : Entry} :
    (ns, e) ∈ t.below dir ↔ ns ≠ [] ∧ t.get? (ns.reverse ++ dir) = some e := by
  rw [below, List.mem_filterMap]
  constructor
  · rintro ⟨⟨a, e'⟩, hmem, hnames⟩
    obtain ⟨ns', hns', heq⟩ := Option.map_eq_some_iff.mp hnames
    obtain ⟨rfl, rfl⟩ := Prod.mk.inj heq
    obtain ⟨rfl, hne⟩ := Discovery.namesBelow?_eq_some hns'
    exact ⟨hne, (mem_entries_iff.mp hmem).2⟩
  · rintro ⟨hne, hget⟩
    refine ⟨(ns.reverse ++ dir, e), mem_entries_iff.mpr ⟨?_, hget⟩, ?_⟩
    · exact List.append_ne_nil_of_left_ne_nil (by simpa using hne) _
    · rw [namesBelow?_append hne, Option.map_some]

end FileTree

namespace Disk

variable {d : Disk} {start p : Path}

/-- The directories that a walk lists, each with the path under which it is listed: the one that the
path at the start leads to, and those that lie in a directory that is listed. -/
inductive Enters (d : Disk) (start : Path) : Path → Address → Prop where
  | start {a : Address} (hstat : d.stat start = .ok (a, .directory)) : Enters d start start a
  | inside {p : Path} {a : Address} (h : Enters d start p a) {name : EntryName}
      (hget : d.tree.get? (name :: a) = some .directory) :
      Enters d start (p.child name.text) (name :: a)

/-- What a walk meets: what the path at the start names, if it leads somewhere, and what lies in a
directory that is listed. -/
inductive Meets (d : Disk) (start : Path) : Path → Entry → Prop where
  | start {a : Address} {e : Entry} (hentry : d.entryAt start = .ok (a, e))
      (hexists : d.exists? start = true) : Meets d start start e
  | inside {p : Path} {a : Address} (h : Enters d start p a) {name : EntryName} {e : Entry}
      (hget : d.tree.get? (name :: a) = some e) : Meets d start (p.child name.text) e

theorem enters_iff {a b : Address} (hstat : d.stat start = .ok (a, .directory)) :
    Enters d start p b ↔ ∃ ns : List EntryName, p = start.below ns ∧
      b = ns.reverse ++ a ∧ d.tree.get? b = some .directory := by
  have hstart : d.tree.get? a = some .directory := by
    obtain ⟨-, -, -, hget⟩ := stat_eq_ok_iff.mp hstat
    exact hget
  constructor
  · intro h
    induction h with
    | start hstat' =>
      obtain ⟨rfl, -⟩ := Prod.mk.inj (Except.ok.inj (hstat'.symm.trans hstat))
      exact ⟨[], rfl, rfl, hstart⟩
    | @inside p b _ name hget ih =>
      obtain ⟨ns, rfl, rfl, -⟩ := ih
      exact ⟨ns ++ [name], (start.below_concat ns name).symm, by simp, hget⟩
  · rintro ⟨ns, rfl, rfl, hget⟩
    induction ns using List.reverseRecOn with
    | nil => exact .start hstat
    | append_singleton ns name ih =>
      rw [reverse_concat_append] at hget ⊢
      rw [Path.below_concat]
      exact .inside (ih (get?_tail hget)) hget

theorem Enters.exists_stat {a : Address} (h : Enters d start p a) :
    ∃ b, d.stat start = .ok (b, .directory) := by
  induction h with
  | start hstat => exact ⟨_, hstat⟩
  | inside _ _ ih => exact ih

/-- What a path leads to it names, or it names a link to it. -/
theorem exists_entryAt_of_stat {x : Address × Entry} (h : d.stat p = .ok x) :
    ∃ y, d.entryAt p = .ok y := by
  obtain ⟨a, e⟩ := x
  obtain ⟨place, hplace, rfl, hget⟩ := stat_eq_ok_iff.mp h
  obtain ⟨hnul, hempty, hleads⟩ := resolve_eq_ok_iff.mp hplace
  obtain ⟨b, e', hentry, he'⟩ := hleads.exists_entry (by rw [hget]; exact Option.some_ne_none e)
  have hresolve : d.resolve .entry p = .ok (.entry b) :=
    resolve_eq_ok_iff.mpr ⟨hnul, hempty, hentry⟩
  refine ⟨(b, e'), ?_⟩
  rw [entryAt, hresolve]
  show d.entryOf (.entry b) = _
  rw [entryOf, Place.address, he']

theorem exists?_iff : d.exists? p = true ↔ ∃ x, d.stat p = .ok x := by
  rw [exists?]
  cases d.stat p <;> simp [Except.toBool]

/-- A walk finds what the rules tell, and it finds something wherever they do. -/
theorem mem_walk_iff {e : Entry} :
    (∃ vs, d.walk start = .ok vs ∧ ⟨p, e⟩ ∈ vs) ↔ Meets d start p e := by
  constructor
  · rintro ⟨vs, hwalk, hmem⟩
    rw [walk] at hwalk
    split at hwalk
    · cases hwalk
    rename_i b entry hentry
    split at hwalk
    · cases hwalk
    · rename_i a hstat
      cases hwalk
      rcases List.mem_cons.mp hmem with heq | hmem
      · obtain ⟨rfl, rfl⟩ := Visit.mk.inj heq
        exact .start hentry (exists?_iff.mpr ⟨_, hstat⟩)
      · obtain ⟨⟨ns, e'⟩, hbelow, heq⟩ := List.mem_map.mp hmem
        obtain ⟨rfl, rfl⟩ := Visit.mk.inj heq
        obtain ⟨hne, hget⟩ := mem_below_iff.mp hbelow
        obtain ⟨front, name, hns⟩ := (List.eq_nil_or_concat ns).resolve_left hne
        rw [List.concat_eq_append] at hns
        subst hns
        rw [reverse_concat_append] at hget
        rw [Path.below_concat]
        exact .inside ((enters_iff hstat).mpr ⟨front, rfl, rfl, get?_tail hget⟩) hget
    · rename_i x hnot hstat
      cases hwalk
      obtain ⟨rfl, rfl⟩ := Visit.mk.inj (List.mem_singleton.mp hmem)
      exact .start hentry (exists?_iff.mpr ⟨_, hstat⟩)
  · intro h
    cases h with
    | @start a _ hentry hexists =>
      obtain ⟨⟨b, target⟩, hstat⟩ := exists?_iff.mp hexists
      rw [walk, hentry, hstat]
      cases target with
      | file bytes => exact ⟨_, rfl, List.mem_cons_self⟩
      | link target => exact ⟨_, rfl, List.mem_cons_self⟩
      | directory => exact ⟨_, rfl, List.mem_cons_self⟩
    | @inside p b henters name _ hget =>
      obtain ⟨a, hstat⟩ := henters.exists_stat
      obtain ⟨⟨c, entry⟩, hentry⟩ := exists_entryAt_of_stat hstat
      obtain ⟨ns, rfl, rfl, -⟩ := (enters_iff hstat).mp henters
      rw [walk, hentry, hstat]
      refine ⟨_, rfl, List.mem_cons_of_mem _ (List.mem_map.mpr ⟨(ns ++ [name], e), ?_, ?_⟩)⟩
      · refine mem_below_iff.mpr ⟨by simp, ?_⟩
        rw [reverse_concat_append]
        exact hget
      · rw [Path.below_concat]

end Disk

end CmsVariables
