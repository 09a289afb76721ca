import CmsVariables.Proofs.FileTree.Resolution
import CmsVariables.FileTree.Disk
import Mathlib.Data.List.Nodup

/-!
# Trees that differ in the contents of files only

Where a path leads, what can be walked and which names a directory holds do not depend on what files
hold. The outline of a tree is all of it but that; the order in which a tree lists its entries is not
part of it.

* `FileTree.SameOutline.resolve_eq`: paths lead to the same places.
* `Disk.Alike.stat_sameFind`: what they lead to has the same outline.
* `namesIn_perm`, `below_perm`: directories hold the same entries.
-/

namespace CmsVariables

/-- An entry without the contents of a file. -/
def Entry.outline : Entry → Entry
  | file _ => file .empty
  | link target => link target
  | directory => directory

theorem Entry.outline_eq_directory_iff {e : Entry} : e.outline = directory ↔ e = directory := by
  cases e <;> simp [outline]

theorem Entry.outline_eq_link_iff {e : Entry} {target : Path} :
    e.outline = link target ↔ e = link target := by
  cases e <;> simp [outline]

namespace FileTree

variable {t t' t'' : FileTree}

/-- The trees differ at most in the contents of files. -/
def SameOutline (t t' : FileTree) : Prop :=
  ∀ a, (t.get? a).map Entry.outline = (t'.get? a).map Entry.outline

/-- The name of an entry that lies directly in a directory. -/
def nameIn? (dir : Address) : Address → Option EntryName
  | name :: parent => if parent = dir then some name else none
  | [] => none

namespace SameOutline

theorem refl (t : FileTree) : SameOutline t t := fun _ => rfl

theorem symm (h : SameOutline t t') : SameOutline t' t := fun a => (h a).symm

theorem trans (h : SameOutline t t') (h' : SameOutline t' t'') : SameOutline t t'' :=
  fun a => (h a).trans (h' a)

variable {a : Address}

theorem get?_eq_none (h : SameOutline t t') (ha : t.get? a = none) : t'.get? a = none := by
  have houtline := h a
  rw [ha] at houtline
  exact Option.map_eq_none_iff.mp houtline.symm

theorem get?_eq_some (h : SameOutline t t') {e : Entry} (ha : t.get? a = some e) :
    ∃ e', t'.get? a = some e' ∧ e'.outline = e.outline := by
  have houtline := h a
  rw [ha] at houtline
  exact Option.map_eq_some_iff.mp houtline.symm

theorem get?_directory (h : SameOutline t t') (ha : t.get? a = some .directory) :
    t'.get? a = some .directory := by
  obtain ⟨e, he, houtline⟩ := h.get?_eq_some ha
  rw [he, Entry.outline_eq_directory_iff.mp houtline]

theorem get?_link (h : SameOutline t t') {target : Path} (ha : t.get? a = some (.link target)) :
    t'.get? a = some (.link target) := by
  obtain ⟨e, he, houtline⟩ := h.get?_eq_some ha
  rw [he, Entry.outline_eq_link_iff.mp houtline]

theorem keeps (h : SameOutline t t') : Keeps t t' where
  directory := h.get?_directory
  link := h.get?_link
  file ha := by
    obtain ⟨e, he, houtline⟩ := h.get?_eq_some ha
    cases e with
    | file bytes => exact ⟨bytes, he⟩
    | link target => cases houtline
    | directory => cases houtline

/-! ## Where paths lead -/

variable {purpose : Purpose}

theorem followTo_eq (h : SameOutline t t')
    (onLink : Address → List String → Except SystemError Place) (here : Address)
    (ss : List String) :
    t.followTo purpose onLink here ss = t'.followTo purpose onLink here ss := by
  induction ss generalizing here with
  | nil => rfl
  | cons s rest ih =>
    rw [followTo, followTo]
    by_cases hdir : t.get? here = some .directory
    · rw [if_neg (not_not_intro hdir), if_neg (not_not_intro (h.get?_directory hdir)), ih, ih]
      cases EntryName.ofText? s with
      | none => rfl
      | some name =>
        simp only [ih]
        cases hget : t.get? (name :: here) with
        | none => rw [h.get?_eq_none hget]
        | some e =>
          obtain ⟨e', he', houtline⟩ := h.get?_eq_some hget
          rw [he']
          cases e <;> cases e' <;> cases houtline <;> rfl
    · rw [if_pos hdir, if_pos fun hdir' => hdir (h.symm.get?_directory hdir')]

theorem follow_eq (h : SameOutline t t') (links : Nat) :
    t.follow purpose links = t'.follow purpose links := by
  induction links with
  | zero => exact funext fun here => funext fun ss => h.followTo_eq _ here ss
  | succ links ih =>
    funext here ss
    rw [follow, follow, ih, h.followTo_eq]

theorem resolve_eq (h : SameOutline t t') (here : Address) (p : Path) :
    t.resolve purpose here p = t'.resolve purpose here p := by
  rw [resolve, resolve, h.follow_eq]

/-! ## What directories hold -/

/-- The entries with their outlines are the same, in whatever order. -/
theorem entries_perm (h : SameOutline t t') :
    (t.entries.map fun p => (p.1, p.2.outline)).Perm
      (t'.entries.map fun p => (p.1, p.2.outline)) := by
  have hnodup (t : FileTree) : (t.entries.map fun p => (p.1, p.2.outline)).Nodup := by
    refine List.Nodup.of_map Prod.fst ?_
    rw [List.map_map]
    exact t.distinct
  have hmem {t t' : FileTree} (h : SameOutline t t') {x : Address × Entry}
      (hx : x ∈ t.entries.map fun p => (p.1, p.2.outline)) :
      x ∈ t'.entries.map fun p => (p.1, p.2.outline) := by
    obtain ⟨⟨a, e⟩, hp, rfl⟩ := List.mem_map.mp hx
    obtain ⟨hne, hget⟩ := mem_entries_iff.mp hp
    obtain ⟨e', he', houtline⟩ := h.get?_eq_some hget
    exact List.mem_map.mpr ⟨(a, e'), mem_entries_iff.mpr ⟨hne, he'⟩, by rw [houtline]⟩
  exact (List.perm_ext_iff_of_nodup (hnodup t) (hnodup t')).mpr fun x => ⟨hmem h, hmem h.symm⟩

theorem length_entries_eq (h : SameOutline t t') : t.entries.length = t'.entries.length := by
  simpa using h.entries_perm.length_eq

theorem namesIn_perm (h : SameOutline t t') (dir : Address) :
    (t.namesIn dir).Perm (t'.namesIn dir) := by
  have hnames (t : FileTree) : t.namesIn dir =
      (t.entries.map fun p => (p.1, p.2.outline)).filterMap fun p => nameIn? dir p.1 := by
    rw [namesIn, List.filterMap_map]
    rfl
  rw [hnames t, hnames t']
  exact h.entries_perm.filterMap _

theorem below_perm (h : SameOutline t t') (dir : Address) :
    ((t.below dir).map fun b => (b.1, b.2.outline)).Perm
      ((t'.below dir).map fun b => (b.1, b.2.outline)) := by
  have hbelow (t : FileTree) : (t.below dir).map (fun b => (b.1, b.2.outline)) =
      (t.entries.map fun p => (p.1, p.2.outline)).filterMap fun p =>
        (namesBelow? dir p.1).map fun names => (names, p.2) := by
    rw [below, List.filterMap_map, List.map_filterMap]
    refine List.filterMap_congr fun p _ => ?_
    simp [Function.comp_def]
  rw [hbelow t, hbelow t']
  exact h.entries_perm.filterMap _

end SameOutline

end FileTree

/-! ## Disks -/

namespace Disk

open FileTree

variable {d d' : Disk} {p : Path}

/-- The disks differ at most in the contents of files. -/
structure Alike (d d' : Disk) : Prop where
  here : d'.here = d.here
  tree : SameOutline d.tree d'.tree

/-- The same failure, or entries at one address that differ at most in the contents of a file. -/
inductive SameFind :
    Except SystemError (Address × Entry) → Except SystemError (Address × Entry) → Prop where
  | error (e : SystemError) : SameFind (.error e) (.error e)
  | ok (a : Address) {e e' : Entry} (h : e'.outline = e.outline) :
      SameFind (.ok (a, e)) (.ok (a, e'))

namespace SameFind

variable {found found' : Except SystemError (Address × Entry)}

theorem toBool_eq (h : SameFind found found') : found.toBool = found'.toBool := by
  cases h <;> rfl

theorem map_address_eq {α : Type} (h : SameFind found found') (f : Address → α) :
    found.map (fun x => f x.1) = found'.map fun x => f x.1 := by
  cases h <;> rfl

end SameFind

namespace Alike

theorem refl (d : Disk) : Alike d d := ⟨rfl, .refl _⟩

theorem symm (h : Alike d d') : Alike d' d := ⟨h.here.symm, h.tree.symm⟩

theorem trans {d'' : Disk} (h : Alike d d') (h' : Alike d' d'') : Alike d d'' :=
  ⟨h'.here.trans h.here, h.tree.trans h'.tree⟩

theorem resolve_eq (h : Alike d d') (purpose : Purpose) (p : Path) :
    d.resolve purpose p = d'.resolve purpose p := by
  rw [resolve, resolve, h.here, h.tree.resolve_eq]

theorem entryOf_sameFind (h : Alike d d') (place : Place) :
    SameFind (d.entryOf place) (d'.entryOf place) := by
  rw [entryOf, entryOf]
  cases hget : d.tree.get? place.address with
  | none =>
    rw [h.tree.get?_eq_none hget]
    exact .error _
  | some e =>
    obtain ⟨e', he', houtline⟩ := h.tree.get?_eq_some hget
    rw [he']
    exact .ok _ houtline

theorem stat_sameFind (h : Alike d d') (p : Path) : SameFind (d.stat p) (d'.stat p) := by
  rw [stat, stat, ← h.resolve_eq]
  cases d.resolve .target p with
  | error e => exact .error e
  | ok place => exact h.entryOf_sameFind place

theorem entryAt_sameFind (h : Alike d d') (p : Path) :
    SameFind (d.entryAt p) (d'.entryAt p) := by
  rw [entryAt, entryAt, ← h.resolve_eq]
  cases d.resolve .entry p with
  | error e => exact .error e
  | ok place => exact h.entryOf_sameFind place

theorem exists?_eq (h : Alike d d') (p : Path) : d.exists? p = d'.exists? p :=
  (h.stat_sameFind p).toBool_eq

theorem hasEntry_eq (h : Alike d d') (p : Path) : d.hasEntry p = d'.hasEntry p :=
  (h.entryAt_sameFind p).toBool_eq

theorem canonical_eq (h : Alike d d') (p : Path) : d.canonical p = d'.canonical p :=
  (h.stat_sameFind p).map_address_eq Path.ofAddress

theorem isDirectory_eq (h : Alike d d') (p : Path) : d.isDirectory p = d'.isDirectory p := by
  have hfind := h.stat_sameFind p
  rw [isDirectory, isDirectory]
  generalize d.stat p = found at hfind ⊢
  generalize d'.stat p = found' at hfind ⊢
  cases hfind with
  | error e => rfl
  | @ok a e e' houtline => cases e <;> cases e' <;> cases houtline <;> rfl

end Alike

end Disk

end CmsVariables
