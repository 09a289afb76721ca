import CmsVariables.FileTree.Disk
import CmsVariables.Proofs.FileTree.Resolution

/-!
# What writing changes

Writing a text changes the file that the path leads to, and makes directories where they are missing.
Nothing else changes, whatever links the path goes over; and paths that led to a file before still
lead there.

* `Disk.exists_place_of_writeFile`, `Disk.exists_made_of_writeText`: the steps of a write.
* `Disk.writeFile_eq_ok`, `Disk.writeText_eq_ok`: what a write that succeeds has done.
* `Disk.writeText_eq_error`: a write that fails leaves no more than new directories.
* `Disk.stat_of_keeps`, `Disk.read_of_keeps`: what a path leads to in a tree that has grown.
-/

namespace CmsVariables

namespace FileTree

variable {t t' t'' : FileTree}

/-- At `a` everything is as it was, unless a directory is new there. -/
def LeftAlone (t t' : FileTree) (a : Address) : Prop :=
  t'.get? a = t.get? a ∨ t.get? a = none ∧ t'.get? a = some .directory

namespace LeftAlone

variable {a : Address}

theorem get?_of_some (h : LeftAlone t t' a) {e : Entry} (ha : t.get? a = some e) :
    t'.get? a = some e := by
  rcases h with heq | ⟨hnone, -⟩
  · rw [heq, ha]
  · rw [hnone] at ha
    cases ha

theorem trans (h : LeftAlone t t' a) (h' : LeftAlone t' t'' a) : LeftAlone t t'' a := by
  rcases h with heq | ⟨hnone, hdir⟩
  · rwa [LeftAlone, heq] at h'
  · exact Or.inr ⟨hnone, h'.get?_of_some hdir⟩

end LeftAlone

/-- Nothing but new directories tells `t'` from `t`. -/
def AddsDirectories (t t' : FileTree) : Prop := ∀ a, LeftAlone t t' a

namespace AddsDirectories

theorem refl (t : FileTree) : AddsDirectories t t := fun _ => Or.inl rfl

theorem trans (h : AddsDirectories t t') (h' : AddsDirectories t' t'') :
    AddsDirectories t t'' := fun a => (h a).trans (h' a)

theorem keeps (h : AddsDirectories t t') : Keeps t t' where
  directory := (h _).get?_of_some
  link := (h _).get?_of_some
  file ha := ⟨_, (h _).get?_of_some ha⟩

end AddsDirectories

/-- The file at `a` was written, over a file there or where nothing was, and nothing but new
directories is different elsewhere. -/
structure Writes (t t' : FileTree) (a : Address) (bytes : ByteArray) : Prop where
  written : t'.get? a = some (.file bytes)
  before : t.get? a = none ∨ ∃ bytes', t.get? a = some (.file bytes')
  elsewhere : ∀ b, b ≠ a → LeftAlone t t' b

namespace Writes

variable {a : Address} {bytes : ByteArray}

/-- What is no file stays as it is. -/
theorem get?_of_not_file (h : Writes t t' a bytes) {b : Address} {e : Entry}
    (hb : t.get? b = some e) (he : ∀ bytes', e ≠ .file bytes') : t'.get? b = some e := by
  refine (h.elsewhere b ?_).get?_of_some hb
  rintro rfl
  rcases h.before with hnone | ⟨bytes', hfile⟩
  · rw [hnone] at hb
    cases hb
  · rw [hfile] at hb
    exact he bytes' (Option.some.inj hb).symm

theorem keeps (h : Writes t t' a bytes) : Keeps t t' where
  directory hb := h.get?_of_not_file hb fun _ h => nomatch h
  link hb := h.get?_of_not_file hb fun _ h => nomatch h
  file {b} bytes' hb := by
    by_cases hba : b = a
    · exact ⟨bytes, hba ▸ h.written⟩
    · exact ⟨bytes', (h.elsewhere b hba).get?_of_some hb⟩

theorem of_addsDirectories (h : AddsDirectories t t') (h' : Writes t' t'' a bytes) :
    Writes t t'' a bytes where
  written := h'.written
  before := by
    rcases h a with heq | ⟨hnone, -⟩
    · rw [← heq]
      exact h'.before
    · exact Or.inl hnone
  elsewhere b hne := (h b).trans (h'.elsewhere b hne)

end Writes

end FileTree

namespace Disk

open FileTree

variable {d d' : Disk} {p : Path}

/-! ## Making directories -/

/-- A directory is made at a vacant place. -/
theorem exists_vacant_of_makeDirectory (h : d.makeDirectory p = .ok d') :
    ∃ dir name, d.resolve .entry (withoutEndSlashes p) = .ok (.vacant dir name) ∧
      d.tree.hasRoom (name :: dir) = true ∧ d' = d.put (name :: dir) .directory := by
  rw [makeDirectory, makeEntry] at h
  split at h
  · cases h
  · cases h
  · rename_i dir name hresolve
    cases h
    obtain ⟨hdir, hvacant⟩ := (resolve_eq_ok_iff.mp hresolve).2.2.get?_vacant
    exact ⟨dir, name, hresolve, by simp [hasRoom, hdir, hvacant], rfl⟩

theorem makeDirectory_eq_ok (h : d.makeDirectory p = .ok d') :
    d'.here = d.here ∧ AddsDirectories d.tree d'.tree := by
  obtain ⟨dir, name, hresolve, hroom, rfl⟩ := exists_vacant_of_makeDirectory h
  obtain ⟨-, hvacant⟩ := (resolve_eq_ok_iff.mp hresolve).2.2.get?_vacant
  refine ⟨rfl, fun a => ?_⟩
  rw [put, LeftAlone, get?_put hroom]
  by_cases ha : a = name :: dir
  · subst ha
    exact Or.inr ⟨hvacant, if_pos rfl⟩
  · exact Or.inl (if_neg ha)

theorem makeDirectoriesAlong_adds (d : Disk) (ps : List Path) :
    (d.makeDirectoriesAlong ps).2.here = d.here ∧
      AddsDirectories d.tree (d.makeDirectoriesAlong ps).2.tree := by
  induction ps generalizing d with
  | nil => exact ⟨rfl, .refl _⟩
  | cons p above ih =>
    rw [makeDirectoriesAlong]
    split
    · exact ⟨rfl, .refl _⟩
    split
    · rename_i d' hmake
      exact makeDirectory_eq_ok hmake
    · obtain ⟨hhere, hadds⟩ := ih d
      split
      · rename_i e d' habove
        rw [habove] at hhere hadds
        exact ⟨hhere, hadds⟩
      · rename_i d' habove
        rw [habove] at hhere hadds
        split
        · rename_i d'' hmake
          obtain ⟨hhere', hadds'⟩ := makeDirectory_eq_ok hmake
          exact ⟨hhere'.trans hhere, hadds.trans hadds'⟩
        · split <;> exact ⟨hhere, hadds⟩
    · split <;> exact ⟨rfl, .refl _⟩

theorem makeParent_adds (d : Disk) (p : Path) :
    (d.makeParent p).2.here = d.here ∧ AddsDirectories d.tree (d.makeParent p).2.tree := by
  rw [makeParent]
  split
  · exact d.makeDirectoriesAlong_adds _
  · exact ⟨rfl, .refl _⟩

/-! ## Writing a file -/

/-- No link is at the end of the way that a path leads. So it is for every path with a segment. -/
def PastLinks (d : Disk) (p : Path) : Prop :=
  ∀ place, d.resolve .target p = .ok place →
    ∀ target, d.tree.get? place.address ≠ some (.link target)

theorem stat_eq_ok_iff {a : Address} {e : Entry} :
    d.stat p = .ok (a, e) ↔
      ∃ place, d.resolve .target p = .ok place ∧ place.address = a ∧ d.tree.get? a = some e := by
  rw [stat]
  cases hplace : d.resolve .target p with
  | error err => simp [Except.bind]
  | ok place =>
    simp only [Except.bind, entryOf, Except.ok.injEq, exists_eq_left']
    split
    · rename_i e' he'
      simp only [Except.ok.injEq, Prod.mk.injEq]
      constructor
      · rintro ⟨rfl, rfl⟩
        exact ⟨rfl, he'⟩
      · rintro ⟨rfl, he⟩
        exact ⟨rfl, Option.some.inj (he'.symm.trans he)⟩
    · rename_i hnone
      simp only [reduceCtorEq, false_iff, not_and]
      rintro rfl he
      rw [hnone] at he
      cases he

theorem read_eq_ok_iff {bytes : ByteArray} :
    d.read p = .ok bytes ↔ ∃ a, d.stat p = .ok (a, .file bytes) := by
  rw [read]
  split
  · rename_i a bytes' hstat
    simp [hstat]
  · rename_i hother hstat
    simp only [reduceCtorEq, false_iff, not_exists]
    intro a ha
    exact hother a bytes (Except.ok.inj (hstat.symm.trans ha))
  · rename_i e hstat
    simp [hstat]

/-- What a path leads to in a tree that has grown, if that is no link. -/
theorem stat_of_keeps {a : Address} {e e' : Entry} (h : d.stat p = .ok (a, e))
    (hhere : d'.here = d.here) (hkeeps : Keeps d.tree d'.tree) (he : d'.tree.get? a = some e')
    (hlink : ∀ target, e' ≠ .link target) : d'.stat p = .ok (a, e') := by
  obtain ⟨place, hplace, rfl, -⟩ := stat_eq_ok_iff.mp h
  have hsettled : d'.tree.Settled place := by
    cases place with
    | entry a => trivial
    | vacant dir name => exact ⟨e', he, hlink⟩
  refine stat_eq_ok_iff.mpr ⟨.entry place.address, ?_, rfl, he⟩
  rw [resolve, hhere]
  exact resolve_of_keeps hplace hkeeps hsettled

theorem pastLinks_of_segments (d : Disk) {p : Path} (h : p.segments ≠ []) : d.PastLinks p := by
  intro place hplace
  have hleads := (resolve_eq_ok_iff.mp hplace).2.2
  cases place with
  | vacant dir name =>
    intro target htarget
    rw [Place.address, hleads.get?_vacant.2] at htarget
    cases htarget
  | entry a =>
    exact hleads.get?_entry (fun h => nomatch h) fun hnil => absurd hnil h

theorem pastLinks_of_read {bytes : ByteArray} (h : d.read p = .ok bytes) : d.PastLinks p := by
  intro place hplace target htarget
  obtain ⟨a, ha⟩ := read_eq_ok_iff.mp h
  obtain ⟨place', hplace', rfl, hfile⟩ := stat_eq_ok_iff.mp ha
  obtain rfl : place = place' := Except.ok.inj (hplace.symm.trans hplace')
  rw [hfile] at htarget
  cases htarget

/-- A path that can be written leads there for looking as well. -/
theorem resolve_target_of_writing {place : Place} (h : d.resolve .writing p = .ok place) :
    d.resolve .target p = .ok place := by
  obtain ⟨hnul, hempty, hleads⟩ := resolve_eq_ok_iff.mp h
  exact resolve_eq_ok_iff.mpr ⟨hnul, hempty, hleads.target⟩

theorem exists_place_of_writeFile {bytes : ByteArray} (h : d.writeFile p bytes = .ok d') :
    ∃ place, d.resolve .writing p = .ok place ∧ d.tree.hasRoom place.address = true ∧
      d' = d.put place.address (.file bytes) := by
  rw [writeFile] at h
  split at h
  · cases h
  rename_i place hplace
  split at h
  · rename_i hroom
    cases h
    exact ⟨place, hplace, hroom, rfl⟩
  · cases h

theorem writeFile_eq_ok {bytes : ByteArray} (hp : d.PastLinks p)
    (h : d.writeFile p bytes = .ok d') :
    d'.here = d.here ∧ ∃ a, d'.stat p = .ok (a, .file bytes) ∧ Writes d.tree d'.tree a bytes := by
  obtain ⟨place, hplace, hroom, rfl⟩ := exists_place_of_writeFile h
  have htarget := resolve_target_of_writing hplace
  have hwrites : Writes d.tree (d.tree.put place.address (.file bytes)) place.address bytes :=
    { written := by rw [get?_put hroom, if_pos rfl]
      before := by
        cases hbefore : d.tree.get? place.address with
        | none => exact Or.inl rfl
        | some e =>
          cases e with
          | file bytes' => exact Or.inr ⟨bytes', rfl⟩
          | link target => exact absurd hbefore (hp place htarget target)
          | directory => exact absurd hbefore (not_directory_of_hasRoom hroom)
      elsewhere := fun b hne => Or.inl (by rw [get?_put hroom, if_neg hne]) }
  refine ⟨rfl, place.address, stat_eq_ok_iff.mpr ⟨.entry place.address, ?_, rfl, ?_⟩, hwrites⟩
  · refine resolve_of_keeps htarget hwrites.keeps ?_
    cases place with
    | entry a => trivial
    | vacant dir name => exact ⟨_, hwrites.written, fun _ h => nomatch h⟩
  · exact hwrites.written

/-! ## Writing a text -/

theorem read_of_keeps {bytes : ByteArray} (h : d.read p = .ok bytes) (hhere : d'.here = d.here)
    (hkeeps : Keeps d.tree d'.tree) : ∃ bytes', d'.read p = .ok bytes' := by
  obtain ⟨a, hstat⟩ := read_eq_ok_iff.mp h
  obtain ⟨place, -, -, hfile⟩ := stat_eq_ok_iff.mp hstat
  obtain ⟨bytes', hfile'⟩ := hkeeps.file hfile
  exact ⟨bytes', read_eq_ok_iff.mpr
    ⟨a, stat_of_keeps hstat hhere hkeeps hfile' fun _ h => nomatch h⟩⟩

theorem exists_made_of_writeText {text : String} (h : d.writeText p text = (.ok (), d')) :
    ∃ made, d.makeParent p = (.ok (), made) ∧ made.writeFile p text.toUTF8 = .ok d' := by
  rw [writeText] at h
  split at h
  · cases h
  · rename_i made hmade
    split at h
    · rename_i written hwrite
      cases h
      exact ⟨made, hmade, hwrite⟩
    · cases h

/-- A write that fails leaves what was made on the way. -/
theorem eq_makeParent_of_writeText {text : String} {e : SystemError}
    (h : d.writeText p text = (.error e, d')) : d' = (d.makeParent p).2 := by
  rw [writeText] at h
  split at h
  · rename_i hmade
    cases h
    rw [hmade]
  · rename_i hmade
    rw [hmade]
    split at h
    · cases h
    · cases h
      rfl

/-- A text that was written is what the path leads to, and all other files are as before. -/
theorem writeText_eq_ok {text : String} (hp : p.segments ≠ [] ∨ ∃ bytes, d.read p = .ok bytes)
    (h : d.writeText p text = (.ok (), d')) :
    d'.here = d.here ∧
      ∃ a, d'.stat p = .ok (a, .file text.toUTF8) ∧ Writes d.tree d'.tree a text.toUTF8 := by
  obtain ⟨hhere, hadds⟩ := d.makeParent_adds p
  obtain ⟨made, hmade, hwrite⟩ := exists_made_of_writeText h
  rw [hmade] at hhere hadds
  have hpast : made.PastLinks p := by
    rcases hp with hne | ⟨bytes, hread⟩
    · exact made.pastLinks_of_segments hne
    · obtain ⟨bytes', hread'⟩ := read_of_keeps hread hhere hadds.keeps
      exact pastLinks_of_read hread'
  obtain ⟨hhere', a, hstat, hwrites⟩ := writeFile_eq_ok hpast hwrite
  exact ⟨hhere'.trans hhere, a, hstat, hwrites.of_addsDirectories hadds⟩

/-- Where a text cannot be written, at most directories are new. -/
theorem writeText_eq_error {text : String} {e : SystemError}
    (h : d.writeText p text = (.error e, d')) :
    d'.here = d.here ∧ AddsDirectories d.tree d'.tree := by
  obtain rfl := eq_makeParent_of_writeText h
  exact d.makeParent_adds p

end Disk
end CmsVariables
