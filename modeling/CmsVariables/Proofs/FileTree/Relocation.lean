import CmsVariables.Proofs.FileTree.LinkFree
import CmsVariables.Proofs.Path.Below
import Mathlib.Data.List.Nodup
import Mathlib.Data.List.Perm.Subperm

/-!
# Copies of a tree

A disk can hold a copy of a tree in any of its directories. Without links and without double dots,
segments lead from that directory where they lead from the root of the tree. So looking below the
directory finds what looking into the tree finds; only the names above the directory stand in front.

* `Disk.Holds`: a copy of a tree in a directory.
* `Holds.stat_under`, `Holds.entryAt_under`: what is found in a copy.
* `length_of_stat`: how deep in the tree it lies.
-/

namespace CmsVariables

/-! ## Ways in a copy -/

/-- A place in a tree as a place in a copy of it. -/
def Place.inside (a : Address) : Place → Place
  | entry b => entry (b ++ a)
  | vacant dir name => vacant (dir ++ a) name

theorem Place.address_inside (a : Address) (place : Place) :
    (place.inside a).address = place.address ++ a := by
  cases place <;> rfl

/-- The tree seen from its root. -/
def FileTree.disk (t : FileTree) : Disk := ⟨t, []⟩

/-- What lies in the directory `a` is a copy of the tree. -/
def Disk.Holds (d : Disk) (a : Address) (t : FileTree) : Prop :=
  ∀ b, d.tree.get? (b ++ a) = t.get? b

namespace FileTree

variable {t : FileTree} {purpose : Purpose}
  {onLink onLink' : Address → List String → Except SystemError Place}

/-- No entry of the tree lies deeper. -/
def DepthAtMost (t : FileTree) (k : ℕ) : Prop := ∀ a e, t.get? a = some e → a.length ≤ k

theorem exists_get?_of_suffix {a b : Address} {e : Entry} (h : t.get? b = some e) (hab : a <:+ b) :
    ∃ e', t.get? a = some e' := by
  obtain ⟨front, rfl⟩ := hab
  induction front generalizing e with
  | nil => exact ⟨e, h⟩
  | cons n front ih => exact ih (get?_tail h)

/-- An entry lies no deeper than there are entries. -/
theorem depthAtMost_length_entries (t : FileTree) : t.DepthAtMost t.entries.length := by
  intro a e h
  -- the entries above it and the entry itself are told apart by their depths
  have hnodup : ((List.range a.length).map (a.drop ·)).Nodup := by
    refine List.Nodup.map_on (fun i hi j hj heq => ?_) List.nodup_range
    have hlength := congrArg List.length heq
    rw [List.mem_range] at hi hj
    simp only [List.length_drop] at hlength
    omega
  have hsub : (List.range a.length).map (a.drop ·) ⊆ t.entries.map Prod.fst := by
    intro b hb
    obtain ⟨i, hi, rfl⟩ := List.mem_map.mp hb
    obtain ⟨e', he'⟩ := exists_get?_of_suffix h (List.drop_suffix i a)
    have hne : a.drop i ≠ [] := by
      rw [Ne, List.drop_eq_nil_iff, not_le]
      exact List.mem_range.mp hi
    exact List.mem_map.mpr ⟨(a.drop i, e'), mem_entries_iff.mpr ⟨hne, he'⟩, rfl⟩
  have hlength := (List.subperm_of_subset hnodup hsub).length_le
  rwa [List.length_map, List.length_range, List.length_map] at hlength

theorem get?_directory_of_append {b a : Address} (h : t.get? (b ++ a) = some .directory) :
    t.get? a = some .directory := by
  induction b with
  | nil => exact h
  | cons n b ih => exact ih (get?_tail h)

theorem followTo_names {front here : Address} (r : List String) (hpurpose : purpose ≠ .writing)
    (hget : t.get? (front ++ here) = some .directory) :
    t.followTo purpose onLink here (front.reverse.map EntryName.text ++ r) =
      t.followTo purpose onLink (front ++ here) r := by
  -- names lead down from the last of the address to the first
  induction front using List.reverseRecOn generalizing here with
  | nil => rfl
  | append_singleton front n ih =>
    rw [List.append_assoc, List.singleton_append] at hget ⊢
    have hname : t.get? (n :: here) = some .directory := get?_directory_of_append hget
    have hnames : Names purpose n.text (front.reverse.map EntryName.text ++ r) n :=
      ⟨n.not_current, n.isStep.2, n.ofText?_text, fun h => hpurpose h.1⟩
    rw [List.reverse_concat, List.map_cons, List.cons_append,
      hnames.followTo_eq (get?_tail hname), hname]
    exact ih hget

/-- Paths below a directory are followed from there. -/
theorem followTo_under {a : Address} (r : List String) (hpurpose : purpose ≠ .writing)
    (hget : t.get? a = some .directory) :
    t.followTo purpose onLink [] (Path.under a r).segments = t.followTo purpose onLink a r := by
  rw [← List.append_nil a] at hget
  have hnames : t.followTo purpose onLink [] (a.reverse.map EntryName.text ++ r) =
      t.followTo purpose onLink (a ++ []) r := followTo_names r hpurpose hget
  rw [List.append_nil] at hnames
  rw [← hnames, Path.under, Path.ofSegments]
  split
  · rename_i hnil
    rw [hnil]
    rfl
  · rfl

end FileTree

namespace Disk

open FileTree CmsVariables.Path

variable {t : FileTree} {d : Disk} {a b : Address} {r : List String} {purpose : Purpose}

/-- A path below a directory leads where its segments lead from there. -/
theorem exists_resolve_under (d : Disk) (r : List String) (hpurpose : purpose ≠ .writing)
    (h : d.tree.get? a = some .directory) : ∃ onLink, d.resolve purpose (under a r) =
      if (under [] r).hasNul then .error .nulInPath else d.tree.followTo purpose onLink a r := by
  obtain ⟨onLink, hfollow⟩ := follow_eq_followTo d.tree purpose maxLinks
  refine ⟨onLink, ?_⟩
  rw [resolve, FileTree.resolve, hasNul_under, if_neg (under_ne_empty a r), hfollow,
    ← d.tree.followTo_under r hpurpose h]
  rfl

theorem entryAt_ofAddress (h : d.tree.get? a = some .directory) :
    d.entryAt (.ofAddress a) = .ok (a, .directory) := by
  have hpurpose : Purpose.entry ≠ .writing := fun h => nomatch h
  obtain ⟨onLink, hresolve⟩ := d.exists_resolve_under [] hpurpose h
  have hplace : d.resolve .entry (.ofAddress a) = .ok (.entry a) := by
    rw [← under_nil, hresolve]
    rfl
  rw [entryAt, hplace]
  show d.entryOf (.entry a) = _
  rw [entryOf, Place.address, h]

theorem stat_under_name {n : EntryName} {e : Entry} (h : d.tree.get? (n :: a) = some e)
    (he : ∀ target, e ≠ .link target) : d.stat (under a [n.text]) = .ok (n :: a, e) := by
  have hdir : d.tree.get? a = some .directory := get?_tail h
  have hname : Names .target n.text [] n :=
    ⟨n.not_current, n.isStep.2, n.ofText?_text, fun hwriting => nomatch hwriting.1⟩
  have hnul : (under [] [n.text]).hasNul = false := by
    rw [under_of_ne_nil [] (List.cons_ne_nil _ _)]
    simpa [hasNul] using n.nul_notMem
  have hpurpose : Purpose.target ≠ .writing := fun h => nomatch h
  obtain ⟨onLink, hresolve⟩ := d.exists_resolve_under [n.text] hpurpose hdir
  have hplace : d.resolve .target (under a [n.text]) = .ok (.entry (n :: a)) := by
    rw [hresolve, hnul, if_neg Bool.false_ne_true, hname.followTo_eq hdir, h]
    cases e with
    | link target => exact absurd rfl (he target)
    | file bytes => rfl
    | directory => rfl
  exact stat_eq_ok_iff.mpr ⟨_, hplace, rfl, h⟩

theorem stat_child_ofAddress {n : EntryName} {bytes : ByteArray}
    (h : d.tree.get? (n :: a) = some (.file bytes)) :
    d.stat ((ofAddress a).child n.text) = .ok (n :: a, .file bytes) := by
  rw [← under_nil, child_under]
  exact stat_under_name h fun _ h => nomatch h

theorem holds_disk (t : FileTree) : t.disk.Holds [] t := fun b => by
  rw [List.append_nil]
  rfl

namespace Holds

theorem get?_base (h : d.Holds a t) : d.tree.get? a = some .directory := h []

/-- Segments lead to the same places from the directory of the copy as from that of the tree. -/
theorem followTo_eq {onLink onLink' : Address → List String → Except SystemError Place}
    (h : d.Holds a t) (hlinks : t.LinkFree) (hpurpose : purpose ≠ .writing) (hr : Descends r)
    (b : Address) : d.tree.followTo purpose onLink (b ++ a) r =
      (t.followTo purpose onLink' b r).map (Place.inside a) := by
  induction r generalizing b with
  | nil => rfl
  | cons s r ih =>
    obtain ⟨⟨hup, -⟩, hr⟩ := List.forall_mem_cons.mp hr
    have hnext (n : EntryName) := ih hr (n :: b)
    have hget (n : EntryName) := h (n :: b)
    simp only [List.cons_append] at hnext hget
    rw [followTo, followTo, h b, ih hr b, if_neg hup, if_neg hup]
    by_cases hdir : t.get? b = some .directory
    · rw [if_neg (not_not_intro hdir), if_neg (not_not_intro hdir)]
      by_cases hstay : s = "" ∨ s = "."
      · rw [if_pos hstay, if_pos hstay]
      · rw [if_neg hstay, if_neg hstay]
        cases EntryName.ofText? s with
        | none => rfl
        | some n =>
          simp only [hget, hnext, hpurpose, false_and, if_false]
          cases hn : t.get? (n :: b) with
          | none =>
            show (if r = [] then _ else _) = Except.map _ (if r = [] then _ else _)
            split <;> rfl
          | some e =>
            cases e with
            | link target => exact absurd hn (hlinks _ _)
            | file bytes => rfl
            | directory => rfl
    · rw [if_pos hdir, if_pos hdir]
      rfl

theorem resolve_under (h : d.Holds a t) (hlinks : t.LinkFree) (hr : Descends r)
    (hpurpose : purpose ≠ .writing) : d.resolve purpose (under a r) =
      (t.disk.resolve purpose (under [] r)).map (Place.inside a) := by
  obtain ⟨onLink, hcopy⟩ := d.exists_resolve_under r hpurpose h.get?_base
  obtain ⟨onLink', htree⟩ := t.disk.exists_resolve_under r hpurpose (a := []) rfl
  rw [hcopy, htree]
  split
  · rfl
  · exact h.followTo_eq hlinks hpurpose hr []

theorem entryOf_inside (h : d.Holds a t) (place : Place) :
    d.entryOf (place.inside a) = (t.disk.entryOf place).map fun x => (x.1 ++ a, x.2) := by
  have htree : t.disk.tree = t := rfl
  rw [entryOf, entryOf, Place.address_inside, h place.address, htree]
  cases t.get? place.address <;> rfl

theorem find_under (h : d.Holds a t) (hlinks : t.LinkFree) (hr : Descends r)
    (hpurpose : purpose ≠ .writing) : (d.resolve purpose (under a r)).bind d.entryOf =
      ((t.disk.resolve purpose (under [] r)).bind t.disk.entryOf).map fun x => (x.1 ++ a, x.2) := by
  rw [h.resolve_under hlinks hr hpurpose]
  cases t.disk.resolve purpose (under [] r) with
  | error e => rfl
  | ok place => exact h.entryOf_inside place

/-- What segments lead to in a copy is what they lead to in the tree. -/
theorem stat_under (h : d.Holds a t) (hlinks : t.LinkFree) (hr : Descends r) :
    d.stat (under a r) = (t.disk.stat (under [] r)).map fun x => (x.1 ++ a, x.2) :=
  h.find_under hlinks hr fun h => nomatch h

/-- What segments name in a copy is what they name in the tree. -/
theorem entryAt_under (h : d.Holds a t) (hlinks : t.LinkFree) (hr : Descends r) :
    d.entryAt (under a r) = (t.disk.entryAt (under [] r)).map fun x => (x.1 ++ a, x.2) :=
  h.find_under hlinks hr fun h => nomatch h

theorem exists?_under (h : d.Holds a t) (hlinks : t.LinkFree) (hr : Descends r) :
    d.exists? (under a r) = t.disk.exists? (under [] r) := by
  rw [exists?, exists?, h.stat_under hlinks hr]
  cases t.disk.stat (under [] r) <;> rfl

theorem hasEntry_under (h : d.Holds a t) (hlinks : t.LinkFree) (hr : Descends r) :
    d.hasEntry (under a r) = t.disk.hasEntry (under [] r) := by
  rw [hasEntry, hasEntry, h.entryAt_under hlinks hr]
  cases t.disk.entryAt (under [] r) <;> rfl

theorem isDirectory_under (h : d.Holds a t) (hlinks : t.LinkFree) (hr : Descends r) :
    d.isDirectory (under a r) = t.disk.isDirectory (under [] r) := by
  rw [isDirectory, isDirectory, h.stat_under hlinks hr]
  cases t.disk.stat (under [] r) with
  | error e => rfl
  | ok x => obtain ⟨b, e⟩ := x; cases e <;> rfl

end Holds

theorem entryAt_eq_stat (hlinks : d.tree.LinkFree) (p : Path) : d.entryAt p = d.stat p := by
  have hfollow (onLink onLink' : Address → List String → Except SystemError Place)
      (ss : List String) (here : Address) : d.tree.followTo .entry onLink here ss =
        d.tree.followTo .target onLink' here ss := by
    induction ss generalizing here with
    | nil => rfl
    | cons s ss ih =>
      rw [followTo, followTo, ih here, ih here.tail]
      cases EntryName.ofText? s with
      | none => rfl
      | some n =>
        simp only [ih, reduceCtorEq, false_and, if_false]
        cases hn : d.tree.get? (n :: here) with
        | none => rfl
        | some e =>
          cases e with
          | link target => exact absurd hn (hlinks _ _)
          | file bytes => rfl
          | directory => rfl
  obtain ⟨onLink, hentry⟩ := follow_eq_followTo d.tree .entry maxLinks
  obtain ⟨onLink', htarget⟩ := follow_eq_followTo d.tree .target maxLinks
  rw [entryAt, stat, resolve, resolve, FileTree.resolve, FileTree.resolve, hentry, htarget,
    hfollow onLink onLink']

/-- What segments lead to lies as deep as they lead down. -/
theorem length_of_stat {e : Entry} (hlinks : t.LinkFree) (hr : Descends r)
    (h : t.disk.stat (under [] r) = .ok (b, e)) : b.length = depth r := by
  have hnames := names_of_stat hlinks h
  rw [namesTo, namesTo_eq, steps_under, List.reverse_nil, List.map_nil, List.nil_append,
    namesFrom_filter] at hnames
  have hlength := congrArg List.length hnames
  rw [List.length_map] at hlength
  rw [hlength, depth]
  show (namesFrom [] r).length = _
  rw [hr.namesFrom, List.append_nil, List.length_reverse]

end Disk

end CmsVariables
