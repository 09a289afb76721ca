import CmsVariables.Proofs.FileTree.Writing
import CmsVariables.Proofs.Path.Spelling

/-!
# Trees without links

Where there are no links a path leads to the place that it spells, if it leads anywhere.

* `FileTree.LinkFree`: no entry is a link; `LinkFree.put`: nor is one after making another entry.
* `Disk.names_of_stat`: where a path leads is told by its spelling.
-/

namespace CmsVariables

namespace FileTree

/-- No entry of the tree is a link. -/
def LinkFree (t : FileTree) : Prop := ∀ a target, t.get? a ≠ some (.link target)

variable {t : FileTree}

theorem linkFree_empty : LinkFree empty := by
  intro a target h
  by_cases ha : a = []
  · rw [ha, get?_nil] at h
    cases h
  · rw [get?_of_ne_nil _ ha] at h
    cases h

theorem LinkFree.ne_link (h : LinkFree t) {a : Address} {e : Entry} (hget : t.get? a = some e)
    (target : Path) : e ≠ .link target := by
  rintro rfl
  exact h a target hget

theorem LinkFree.put (h : LinkFree t) (a : Address) {e : Entry} (he : ∀ target, e ≠ .link target) :
    LinkFree (t.put a e) := by
  intro b target hb
  by_cases hroom : t.hasRoom a = true
  · rw [get?_put hroom] at hb
    split at hb
    · exact he target (Option.some.inj hb)
    · exact h b target hb
  · rw [put_of_not_hasRoom hroom] at hb
    exact h b target hb

theorem text_of_ofText? {s : String} {name : EntryName} (h : EntryName.ofText? s = some name) :
    name.text = s := by
  rw [EntryName.ofText?] at h
  split at h
  · cases h
    rfl
  · cases h

theorem Names.nameStep_eq {purpose : Purpose} {s : String} {rest : List String} {name : EntryName}
    (h : Names purpose s rest name) (here : List String) :
    Path.nameStep here s = name.text :: here := by
  rw [Path.nameStep, if_neg h.not_current, if_neg h.not_up, text_of_ofText? h.spelled]

/-- Where there are no links, segments lead to the place that they spell. -/
theorem Leads.names_address {purpose : Purpose} {links : Nat} {here : Address} {ss : List String}
    {place : Place} (hlinks : LinkFree t) (h : Leads t purpose links here ss place) :
    place.address.map EntryName.text = Path.namesFrom (here.map EntryName.text) ss := by
  induction h with
  | stop => rfl
  | stay _ hs _ ih => rw [ih, Path.namesFrom_cons, Path.nameStep, if_pos hs]
  | up _ _ ih =>
    rw [ih, Path.namesFrom_cons, List.map_tail]
    rfl
  | vacant _ hname _ => exact (hname.nameStep_eq _).symm
  | keepLink _ _ hget => exact absurd hget (hlinks _ _)
  | followLink _ _ hget => exact absurd hget (hlinks _ _)
  | enter _ hname _ _ _ ih =>
    rw [ih, Path.namesFrom_cons, hname.nameStep_eq]
    rfl

end FileTree

namespace Disk

/-- The names on the way to the place that a path spells, as seen from the working directory. -/
def namesTo (d : Disk) (p : Path) : List String := p.namesTo (d.here.map EntryName.text)

theorem names_of_stat {d : Disk} {p : Path} {a : Address} {e : Entry} (hlinks : d.tree.LinkFree)
    (h : d.stat p = .ok (a, e)) : a.map EntryName.text = d.namesTo p := by
  obtain ⟨place, hplace, rfl, -⟩ := stat_eq_ok_iff.mp h
  have hleads := (FileTree.resolve_eq_ok_iff.mp hplace).2.2
  rw [hleads.names_address hlinks, namesTo, Path.namesTo]
  cases p.rooted <;> rfl

end Disk

end CmsVariables
