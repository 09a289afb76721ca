import CmsVariables.FileTree.Changes
import CmsVariables.Proofs.FileTree.Correspondence
import CmsVariables.Proofs.FileTree.Relocation
import CmsVariables.Proofs.Path.Avoiding

/-!
# One more file

Two disks may differ in a file that one of them has and the other one has not. Without links, a path
that avoids the place of the file leads to the same place on both. So the disks correspond on such
paths, and whatever is done through them changes both disks alike.

* `oneMore_correspondence`: paths that avoid the file do not tell the disks apart.
* `OneMore.mem_changesSince_iff`: changes to both are the same.
* `passesBy_of_stat`: a path to what exists avoids what does not.
-/

namespace CmsVariables

open FileTree CmsVariables.Path

/-- Two addresses with the same names are the same. -/
theorem names_ne_iff {a b : Address} : b.map EntryName.text ≠ a.map EntryName.text ↔ b ≠ a :=
  (List.map_injective_iff.mpr EntryName.text_injective).ne_iff

/-- The path avoids the address `a`, as it is seen from the directory `here`. -/
def Path.PassesBy (here a : Address) (p : Path) : Prop :=
  p.Avoids (here.map EntryName.text) (a.map EntryName.text)

instance (here a : Address) : DecidablePred (Path.PassesBy here a) := fun p =>
  inferInstanceAs (Decidable (p.Avoids _ _))

theorem Path.passesBy_iff {here a : Address} {p : Path} :
    PassesBy here a p ↔ AvoidsFrom (a.map EntryName.text)
      ((if p.rooted then [] else here).map EntryName.text) p.segments := by
  unfold PassesBy Avoids
  cases p.rooted <;> exact Iff.rfl

namespace Disk

/-- The second disk has a file more, and no disk has links. -/
structure OneMore (here a : Address) (bytes : ByteArray) (d d' : Disk) : Prop where
  here_eq : d.here = here
  here_eq' : d'.here = here
  linkFree : d.tree.LinkFree
  missing : d.tree.get? a = none
  added : d'.tree.get? a = some (.file bytes)
  elsewhere {b : Address} (hb : b ≠ a) : d'.tree.get? b = d.tree.get? b

variable {d d' : Disk} {here a : Address} {bytes : ByteArray} {p : Path} {purpose : Purpose}

/-! ## Looking -/

/-- A way that is not at the place of the file leads to the same on both disks. -/
theorem OneMore.followTo_eq (h : OneMore here a bytes d d')
    {onLink onLink' : Address → List String → Except SystemError Place} {ss : List String}
    {b : Address} (hss : AvoidsFrom (a.map EntryName.text) (b.map EntryName.text) ss) :
    d'.tree.followTo purpose onLink' b ss = d.tree.followTo purpose onLink b ss := by
  induction ss generalizing b with
  | nil => rfl
  | cons s ss ih =>
    obtain ⟨hb, hrest⟩ := avoidsFrom_cons.mp hss
    rw [followTo, followTo, h.elsewhere (names_ne_iff.mp hb)]
    by_cases hdir : d.tree.get? b = some .directory
    · rw [if_neg (not_not_intro hdir), if_neg (not_not_intro hdir)]
      unfold nameStep at hrest
      by_cases hstay : s = "" ∨ s = "."
      · rw [if_pos hstay] at hrest
        rw [if_pos hstay, if_pos hstay, ih hrest]
      rw [if_neg hstay] at hrest
      rw [if_neg hstay, if_neg hstay]
      by_cases hup : s = ".."
      · rw [if_pos hup, ← List.map_tail] at hrest
        rw [if_pos hup, if_pos hup, ih hrest]
      rw [if_neg hup] at hrest
      rw [if_neg hup, if_neg hup]
      cases hname : EntryName.ofText? s with
      | none => rfl
      | some name =>
        rw [← text_of_ofText? hname, ← List.map_cons] at hrest
        simp only [h.elsewhere (names_ne_iff.mp hrest.start_ne), ih hrest]
        cases hget : d.tree.get? (name :: b) with
        | none => rfl
        | some e =>
          cases e with
          | link target => exact absurd hget (h.linkFree _ target)
          | file bytes => rfl
          | directory => rfl
    · rw [if_pos hdir, if_pos hdir]

/-- A path that avoids a place does not lead there. -/
theorem address_ne (hlinks : d.tree.LinkFree) (hp : PassesBy d.here a p) {place : Place}
    (hplace : d.resolve purpose p = .ok place) : place.address ≠ a := by
  apply names_ne_iff.mp
  rw [(resolve_eq_ok_iff.mp hplace).2.2.names_address hlinks]
  exact (passesBy_iff.mp hp).end_ne

theorem OneMore.hasRoom_eq (h : OneMore here a bytes d d') {b : Address} (hb : b ≠ a) :
    d'.tree.hasRoom b = d.tree.hasRoom b := by
  cases b with
  | nil => rfl
  | cons name dir =>
    simp only [hasRoom, h.elsewhere hb]
    by_cases hdir : dir = a
    · rw [hdir, h.missing, h.added]
      rfl
    · rw [h.elsewhere hdir]

/-- An entry elsewhere is made on both disks. -/
theorem OneMore.put (h : OneMore here a bytes d d') {b : Address} (hb : b ≠ a) {e : Entry}
    (he : ∀ target, e ≠ .link target) : OneMore here a bytes (d.put b e) (d'.put b e) := by
  unfold Disk.put
  by_cases hroom : d.tree.hasRoom b = true
  · have hroom' : d'.tree.hasRoom b = true := (h.hasRoom_eq hb).trans hroom
    refine ⟨h.here_eq, h.here_eq', h.linkFree.put b he, ?_, ?_, fun {c} hc => ?_⟩
    · rw [get?_put hroom, if_neg (Ne.symm hb), h.missing]
    · rw [get?_put hroom', if_neg (Ne.symm hb), h.added]
    · rw [get?_put hroom, get?_put hroom', h.elsewhere hc]
  · have hroom' : ¬d'.tree.hasRoom b = true := (h.hasRoom_eq hb).symm ▸ hroom
    rw [put_of_not_hasRoom hroom, put_of_not_hasRoom hroom']
    exact h

/-- Disks that differ in one file correspond on the paths that avoid it. -/
theorem oneMore_correspondence (here a : Address) (bytes : ByteArray) :
    Correspondence (OneMore here a bytes) (PassesBy here a) where
  resolve {d d' p} h hp purpose := by
    obtain ⟨onLink, hfollow⟩ := follow_eq_followTo d.tree purpose maxLinks
    obtain ⟨onLink', hfollow'⟩ := follow_eq_followTo d'.tree purpose maxLinks
    unfold Disk.resolve FileTree.resolve
    rw [h.here_eq, h.here_eq', hfollow, hfollow', h.followTo_eq (passesBy_iff.mp hp)]
  get? h hp hplace := by
    rw [← h.here_eq] at hp
    exact h.elsewhere (address_ne h.linkFree hp hplace)
  hasRoom h hp hplace := by
    rw [← h.here_eq] at hp
    exact h.hasRoom_eq (address_ne h.linkFree hp hplace)
  put h hp hplace he := by
    rw [← h.here_eq] at hp
    exact h.put (address_ne h.linkFree hp hplace) he
  parent p q hp hq := by
    obtain ⟨hrooted, hsegments⟩ := Path.segments_of_parent? hq
    refine hp.of_front hrooted (hsegments.imp_right ?_)
    rintro ⟨rest, -, hrest⟩
    exact ⟨rest, hrest.symm⟩
  trimmed {p} hp := by
    refine hp.of_front rfl ?_
    unfold withoutEndSlashes Path.ofSegments
    split
    · exact Or.inl rfl
    · exact Or.inr (Path.reverse_dropWhile_reverse_prefix _ _)

/-- The file is no change of what was done to both disks. -/
theorem OneMore.mem_changesSince_iff {e e' : Disk} (h : OneMore here a bytes d d')
    (h' : OneMore here a bytes e e') (b : Address) (entry : Entry) :
    (b, entry) ∈ e'.tree.changesSince d'.tree ↔ (b, entry) ∈ e.tree.changesSince d.tree := by
  rw [mem_changesSince, mem_changesSince]
  by_cases hb : b = a
  · rw [hb, h.added, h'.added, h'.missing]
    constructor
    · rintro ⟨-, hsome, hne⟩
      exact absurd hsome hne
    · rintro ⟨-, hnone, -⟩
      cases hnone
  · rw [h.elsewhere hb, h'.elsewhere hb]

/-! ## Paths that avoid a place -/

/-- A path that neither goes up nor holds the name of an entry avoids the entry. -/
theorem passesBy_of_notMem {here : Address} {name : EntryName} (hrooted : p.rooted = false)
    (hup : ".." ∉ p.segments) (hname : name.text ∉ p.segments) :
    PassesBy here (name :: here) p := by
  refine passesBy_iff.mpr (avoidsFrom_of_notMem hup ?_)
  rw [hrooted, if_neg Bool.false_ne_true, namesFrom_of_notMem hup]
  rintro ⟨front, hfront⟩
  rw [List.map_cons, ← List.singleton_append, ← List.append_assoc] at hfront
  have hsteps := List.append_cancel_right hfront
  have hmem : name.text ∈ (p.segments.filter isStep).reverse := by
    rw [← hsteps]
    exact List.mem_append_right _ List.mem_cons_self
  exact hname (List.mem_filter.mp (List.mem_reverse.mp hmem)).1

theorem Leads.avoidsFrom {t : FileTree} (hlinks : t.LinkFree) (ha : t.get? a = none) {links : Nat}
    {here : Address} {ss : List String} {place : Place} (h : Leads t purpose links here ss place)
    (hplace : t.get? place.address ≠ none) :
    AvoidsFrom (a.map EntryName.text) (here.map EntryName.text) ss := by
  have hstart {b : Address} (hb : t.get? b ≠ none) :
      b.map EntryName.text ≠ a.map EntryName.text := by
    rw [names_ne_iff]
    rintro rfl
    exact hb ha
  induction h with
  | stop => exact avoidsFrom_nil.mpr (hstart hplace)
  | stay hdir hs _ ih =>
    refine avoidsFrom_cons.mpr ⟨hstart (by simp [hdir]), ?_⟩
    rw [nameStep, if_pos hs]
    exact ih hplace
  | up hdir _ ih =>
    refine avoidsFrom_cons.mpr ⟨hstart (by simp [hdir]), ?_⟩
    have htail := ih hplace
    rw [List.map_tail] at htail
    exact htail
  | vacant _ _ hget => exact absurd hget hplace
  | keepLink _ _ hget => exact absurd hget (hlinks _ _)
  | followLink _ _ hget => exact absurd hget (hlinks _ _)
  | enter hdir hname _ _ _ ih =>
    refine avoidsFrom_cons.mpr ⟨hstart (by simp [hdir]), ?_⟩
    rw [hname.nameStep_eq]
    exact ih hplace

/-- Without links a path to what exists is never where there is nothing. -/
theorem passesBy_of_stat (hlinks : d.tree.LinkFree) (ha : d.tree.get? a = none)
    {x : Address × Entry} (h : d.stat p = .ok x) : PassesBy d.here a p := by
  obtain ⟨b, e⟩ := x
  obtain ⟨place, hplace, rfl, hget⟩ := stat_eq_ok_iff.mp h
  refine passesBy_iff.mpr (Leads.avoidsFrom hlinks ha (resolve_eq_ok_iff.mp hplace).2.2 ?_)
  rw [hget]
  exact Option.some_ne_none e

/-- The path to a place that exists avoids one that does not. -/
theorem passesBy_ofAddress {here a b : Address} {e : Entry} (ha : d.tree.get? a = none)
    (hb : d.tree.get? b = some e) : PassesBy here a (ofAddress b) := by
  unfold PassesBy
  rw [avoids_iff_steps, steps_ofAddress]
  refine avoidsFrom_of_notMem ?_ ?_
  · simpa using fun n _ => n.isStep.2
  · show ¬_ <:+ namesFrom [] _
    rw [namesFrom_names, List.map_reverse, List.reverse_reverse, List.append_nil]
    intro hsuffix
    have hsuffix : a <:+ b := (List.suffix_map_iff_of_injective EntryName.text_injective).mp hsuffix
    obtain ⟨e', he'⟩ := exists_get?_of_suffix hb hsuffix
    rw [ha] at he'
    cases he'

end Disk

end CmsVariables
