import CmsVariables.Proofs.FileTree.Overwriting

/-!
# Disks that correspond

An operation looks at a disk through the paths that it is given. So it does the same on two disks if
its paths lead to the same places on both, with the same entries there. `Correspondence` says this of
a relation between disks and of some paths; it asks no more than that one entry made at such a place
keeps the relation. Whatever the operations make, they make on both disks, and they fail alike.

* `stat_eq`, `read_eq`, `canonical_eq`: what is looked up is the same.
* `makeEntry`, `writeFile`: one entry is made on both disks.
* `makeDirectoriesAlong`, `writeText`: so are several.
-/

namespace CmsVariables

open FileTree

namespace Disk

/-- Disks that are related correspond on some paths: they lead to the same places, where the same
entries are, and making an entry at such a place keeps the relation. -/
structure Correspondence (R : Disk → Disk → Prop) (Good : Path → Prop) : Prop where
  resolve {d d' : Disk} {p : Path} (h : R d d') (hp : Good p) (purpose : Purpose) :
    d'.resolve purpose p = d.resolve purpose p
  get? {d d' : Disk} {p : Path} {purpose : Purpose} {place : Place} (h : R d d') (hp : Good p)
    (hplace : d.resolve purpose p = .ok place) :
    d'.tree.get? place.address = d.tree.get? place.address
  hasRoom {d d' : Disk} {p : Path} {purpose : Purpose} {place : Place} (h : R d d') (hp : Good p)
    (hplace : d.resolve purpose p = .ok place) :
    d'.tree.hasRoom place.address = d.tree.hasRoom place.address
  put {d d' : Disk} {p : Path} {purpose : Purpose} {place : Place} {e : Entry} (h : R d d')
    (hp : Good p) (hplace : d.resolve purpose p = .ok place) (he : ∀ target, e ≠ .link target) :
    R (d.put place.address e) (d'.put place.address e)
  parent (p q : Path) (hp : Good p) (hq : p.parent? = some q) : Good q
  trimmed {p : Path} (hp : Good p) : Good (withoutEndSlashes p)

/-- Two attempts to make something fail alike or give related disks. -/
inductive MadeAlike (R : Disk → Disk → Prop) :
    Except SystemError Disk → Except SystemError Disk → Prop where
  | error (e : SystemError) : MadeAlike R (.error e) (.error e)
  | ok {d d' : Disk} (h : R d d') : MadeAlike R (.ok d) (.ok d')

/-- Two series of operations end alike, on related disks. -/
inductive EndAlike {ε : Type} (R : Disk → Disk → Prop) :
    Except ε Unit × Disk → Except ε Unit × Disk → Prop where
  | error (e : ε) {d d' : Disk} (h : R d d') : EndAlike R (.error e, d) (.error e, d')
  | ok {d d' : Disk} (h : R d d') : EndAlike R (.ok (), d) (.ok (), d')

theorem EndAlike.result {ε : Type} {R : Disk → Disk → Prop} {r r' : Except ε Unit × Disk}
    (h : EndAlike R r r') : r'.1 = r.1 := by
  cases h <;> rfl

namespace Correspondence

variable {R : Disk → Disk → Prop} {Good : Path → Prop} {d d' : Disk} {p : Path}

/-! ## Looking -/

theorem entryOf_eq (hR : Correspondence R Good) (h : R d d') (hp : Good p) {purpose : Purpose}
    {place : Place} (hplace : d.resolve purpose p = .ok place) :
    d'.entryOf place = d.entryOf place := by
  unfold entryOf
  rw [hR.get? h hp hplace]

theorem stat_eq (hR : Correspondence R Good) (h : R d d') (hp : Good p) : d'.stat p = d.stat p := by
  unfold stat
  rw [hR.resolve h hp]
  cases hplace : d.resolve .target p with
  | error e => rfl
  | ok place => exact hR.entryOf_eq h hp hplace

theorem entryAt_eq (hR : Correspondence R Good) (h : R d d') (hp : Good p) :
    d'.entryAt p = d.entryAt p := by
  unfold entryAt
  rw [hR.resolve h hp]
  cases hplace : d.resolve .entry p with
  | error e => rfl
  | ok place => exact hR.entryOf_eq h hp hplace

theorem exists?_eq (hR : Correspondence R Good) (h : R d d') (hp : Good p) :
    d'.exists? p = d.exists? p := by
  unfold exists?
  rw [hR.stat_eq h hp]

theorem hasEntry_eq (hR : Correspondence R Good) (h : R d d') (hp : Good p) :
    d'.hasEntry p = d.hasEntry p := by
  unfold hasEntry
  rw [hR.entryAt_eq h hp]

theorem isDirectory_eq (hR : Correspondence R Good) (h : R d d') (hp : Good p) :
    d'.isDirectory p = d.isDirectory p := by
  unfold isDirectory
  rw [hR.stat_eq h hp]

theorem read_eq (hR : Correspondence R Good) (h : R d d') (hp : Good p) : d'.read p = d.read p := by
  unfold read
  rw [hR.stat_eq h hp]

theorem canonical_eq (hR : Correspondence R Good) (h : R d d') (hp : Good p) :
    d'.canonical p = d.canonical p := by
  unfold canonical
  rw [hR.stat_eq h hp]

/-! ## Making one entry -/

theorem writeFile (hR : Correspondence R Good) (h : R d d') (hp : Good p) (bytes : ByteArray) :
    MadeAlike R (d.writeFile p bytes) (d'.writeFile p bytes) := by
  unfold Disk.writeFile
  rw [hR.resolve h hp]
  cases hplace : d.resolve .writing p with
  | error e => exact .error e
  | ok place =>
    simp only [hR.hasRoom h hp hplace]
    split
    · exact .ok (hR.put h hp hplace fun target => by simp)
    · exact .error _

theorem makeDirectory (hR : Correspondence R Good) (h : R d d') (hp : Good p) :
    MadeAlike R (d.makeDirectory p) (d'.makeDirectory p) := by
  have htrimmed := hR.trimmed hp
  unfold Disk.makeDirectory makeEntry
  rw [hR.resolve h htrimmed]
  cases hplace : d.resolve .entry (withoutEndSlashes p) with
  | error e => exact .error e
  | ok place =>
    cases place with
    | entry a => exact .error _
    | vacant dir name => exact .ok (hR.put h htrimmed hplace fun target => by simp)

/-! ## Making several entries -/

theorem makeDirectoriesAlong (hR : Correspondence R Good) {ps : List Path} (h : R d d')
    (hps : ∀ p ∈ ps, Good p) :
    EndAlike R (d.makeDirectoriesAlong ps) (d'.makeDirectoriesAlong ps) := by
  induction ps generalizing d d' with
  | nil => exact .ok h
  | cons p above ih =>
    obtain ⟨hp, habove⟩ := List.forall_mem_cons.mp hps
    -- when the directory cannot be made it is looked for, on whatever disks there are by then
    have hlook {d d' : Disk} (h : R d d') (e : SystemError) :
        EndAlike R (if d.isDirectory p then (.ok (), d) else (.error e, d))
          (if d'.isDirectory p then (.ok (), d') else (.error e, d')) := by
      rw [hR.isDirectory_eq h hp]
      split
      · exact .ok h
      · exact .error e h
    unfold Disk.makeDirectoriesAlong
    split
    · exact .ok h
    have hmake := hR.makeDirectory h hp
    generalize d.makeDirectory p = made at hmake ⊢
    generalize d'.makeDirectory p = made' at hmake ⊢
    cases hmake with
    | ok hmade => exact .ok hmade
    | error e =>
      cases e with
      | notFound =>
        have hrest := ih h habove
        generalize d.makeDirectoriesAlong above = r at hrest ⊢
        generalize d'.makeDirectoriesAlong above = r' at hrest ⊢
        cases hrest with
        | error e hdisk => exact .error e hdisk
        | @ok d₁ d₁' hdisk =>
          have hagain := hR.makeDirectory hdisk hp
          simp only
          generalize d₁.makeDirectory p = made at hagain ⊢
          generalize d₁'.makeDirectory p = made' at hagain ⊢
          cases hagain with
          | ok hmade => exact .ok hmade
          | error e => exact hlook hdisk e
      | _ => exact hlook h _

theorem makeParent (hR : Correspondence R Good) (h : R d d') (hp : Good p) :
    EndAlike R (d.makeParent p) (d'.makeParent p) := by
  unfold Disk.makeParent
  split
  · rename_i parent hparent
    exact hR.makeDirectoriesAlong h
      (Path.forall_mem_ancestors hR.parent (hR.parent p parent hp hparent))
  · exact .ok h

theorem writeText (hR : Correspondence R Good) (h : R d d') (hp : Good p) (text : String) :
    EndAlike R (d.writeText p text) (d'.writeText p text) := by
  have hparent := hR.makeParent h hp
  unfold Disk.writeText
  generalize d.makeParent p = r at hparent ⊢
  generalize d'.makeParent p = r' at hparent ⊢
  cases hparent with
  | error e hdisk => exact .error e hdisk
  | @ok d₁ d₁' hdisk =>
    have hwrite := hR.writeFile hdisk hp text.toUTF8
    simp only
    generalize d₁.writeFile p text.toUTF8 = made at hwrite ⊢
    generalize d₁'.writeFile p text.toUTF8 = made' at hwrite ⊢
    cases hwrite with
    | ok hmade => exact .ok hmade
    | error e => exact .error e hdisk

end Correspondence

end Disk

end CmsVariables
