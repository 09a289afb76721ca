import CmsVariables.Run.Rewrite
import CmsVariables.Proofs.FileTree.Writing

/-!
# Writing several files

Paths can lead to one file in several ways, by links and by their spelling. So what a file holds
after a series of writes is told by the last one whose path leads to it; where the paths lead is
looked up at the end, because no later write makes a path lead elsewhere.

* `finishedWrites`: the writes before the first one that fails.
* `writeAll_wrote`: a file holds what was written to it last, and all else is left alone.
-/

namespace CmsVariables

open FileTree

/-- The address of the file that a path leads to. -/
def Disk.fileAt? (d : Disk) (p : Path) : Option Address :=
  match d.stat p with
  | .ok (a, .file _) => some a
  | _ => none

theorem Disk.fileAt?_eq_some_iff {d : Disk} {p : Path} {a : Address} :
    d.fileAt? p = some a ↔ ∃ bytes, d.stat p = .ok (a, .file bytes) := by
  rw [fileAt?]
  split
  · rename_i b bytes hstat
    simp [hstat]
  · rename_i hnot
    simp only [reduceCtorEq, false_iff, not_exists]
    exact fun bytes hstat => hnot a bytes hstat

namespace Run

/-- The writes that are done before the first one that fails. -/
def finishedWrites (d : Disk) : List (Path × String) → List (Path × String)
  | [] => []
  | (p, text) :: rest =>
    match write d p text with
    | (.error _, _) => []
    | (.ok (), d) => (p, text) :: finishedWrites d rest

theorem finishedWrites_of_ok {d d' : Disk} {ws : List (Path × String)}
    (h : writeAll d ws = (.ok (), d')) : finishedWrites d ws = ws := by
  induction ws generalizing d with
  | nil => rfl
  | cons w ws ih =>
    obtain ⟨p, text⟩ := w
    rw [writeAll] at h
    rw [finishedWrites]
    cases hwrite : write d p text with
    | mk result made =>
      rw [hwrite] at h
      cases result with
      | error f => cases h
      | ok => exact congrArg _ (ih h)

theorem prefix_finishedWrites (d : Disk) (ws : List (Path × String)) :
    finishedWrites d ws <+: ws := by
  induction ws generalizing d with
  | nil => exact List.prefix_rfl
  | cons w ws ih =>
    obtain ⟨p, text⟩ := w
    rw [finishedWrites]
    split
    · exact List.nil_prefix
    · exact List.cons_prefix_cons.mpr ⟨rfl, ih _⟩

/-- The text of the last write whose path leads to the file at `a`. -/
def lastWriteTo (d : Disk) (a : Address) (ws : List (Path × String)) : Option String :=
  (ws.filter fun w => d.fileAt? w.1 == some a).getLast?.map Prod.snd

section LastWrite

variable {d : Disk} {a : Address} {ws : List (Path × String)}

theorem lastWriteTo_cons_of_ne {w : Path × String} (h : d.fileAt? w.1 ≠ some a) :
    lastWriteTo d a (w :: ws) = lastWriteTo d a ws := by
  rw [lastWriteTo, List.filter_cons_of_neg (by simpa using h), lastWriteTo]

theorem lastWriteTo_cons_of_eq {w : Path × String} (h : d.fileAt? w.1 = some a) :
    lastWriteTo d a (w :: ws) = some ((lastWriteTo d a ws).getD w.2) := by
  rw [lastWriteTo, List.filter_cons_of_pos (by simpa using h), lastWriteTo, List.getLast?_cons]
  cases (ws.filter fun w => d.fileAt? w.1 == some a).getLast? <;> rfl

theorem lastWriteTo_eq_none_iff :
    lastWriteTo d a ws = none ↔ ∀ w ∈ ws, d.fileAt? w.1 ≠ some a := by
  simp [lastWriteTo]

theorem exists_of_lastWriteTo {text : String} (h : lastWriteTo d a ws = some text) :
    ∃ w ∈ ws, d.fileAt? w.1 = some a ∧ w.2 = text := by
  obtain ⟨w, hlast, rfl⟩ := Option.map_eq_some_iff.mp h
  obtain ⟨hmem, heq⟩ := List.mem_filter.mp (List.mem_of_getLast? hlast)
  exact ⟨w, hmem, by simpa using heq, rfl⟩

end LastWrite

/-- How a disk is after some writes. -/
structure Wrote (d d' : Disk) (ws : List (Path × String)) : Prop where
  here : d'.here = d.here
  keeps : Keeps d.tree d'.tree
  file : ∀ w ∈ ws, ∃ a, d'.fileAt? w.1 = some a
  last : ∀ a text, lastWriteTo d' a ws = some text →
    d'.tree.get? a = some (.file text.toUTF8)
  other : ∀ a, lastWriteTo d' a ws = none → LeftAlone d.tree d'.tree a

/-- Writes can be made where there is a name to write to, or a file to write over. -/
def Writable (d : Disk) (p : Path) : Prop := p.segments ≠ [] ∨ ∃ bytes, d.read p = .ok bytes

theorem Writable.of_keeps {d d' : Disk} {p : Path} (h : Writable d p) (hhere : d'.here = d.here)
    (hkeeps : Keeps d.tree d'.tree) : Writable d' p := by
  rcases h with hne | ⟨bytes, hread⟩
  · exact Or.inl hne
  · exact Or.inr (Disk.read_of_keeps hread hhere hkeeps)

theorem Wrote.of_addsDirectories {d d' : Disk} (hhere : d'.here = d.here)
    (h : AddsDirectories d.tree d'.tree) : Wrote d d' [] where
  here := hhere
  keeps := h.keeps
  file := List.forall_mem_nil _
  last _ _ hlast := by cases hlast
  other a _ := h a

/-- One write before some others. -/
theorem Wrote.cons {d made d' : Disk} {p : Path} {text : String} {a : Address}
    {ws : List (Path × String)} (hhere : made.here = d.here)
    (hstat : made.stat p = .ok (a, .file text.toUTF8))
    (hwrites : Writes d.tree made.tree a text.toUTF8) (h : Wrote made d' ws) :
    Wrote d d' ((p, text) :: ws) := by
  obtain ⟨bytes, hfile⟩ := h.keeps.file hwrites.written
  have hp : d'.fileAt? p = some a := Disk.fileAt?_eq_some_iff.mpr
    ⟨bytes, Disk.stat_of_keeps hstat h.here h.keeps hfile fun _ h => nomatch h⟩
  refine ⟨h.here.trans hhere, hwrites.keeps.trans h.keeps, ?_, ?_, ?_⟩
  · exact List.forall_mem_cons.mpr ⟨⟨a, hp⟩, h.file⟩
  · intro b last hlast
    by_cases hba : b = a
    · subst hba
      rw [lastWriteTo_cons_of_eq hp] at hlast
      cases hlater : lastWriteTo d' b ws with
      | some later =>
        rw [hlater] at hlast
        exact Option.some.inj hlast ▸ h.last b later hlater
      | none =>
        rw [hlater] at hlast
        rw [← Option.some.inj hlast]
        exact (h.other b hlater).get?_of_some hwrites.written
    · rw [lastWriteTo_cons_of_ne (by rw [hp]; simpa using Ne.symm hba)] at hlast
      exact h.last b last hlast
  · intro b hlast
    by_cases hba : b = a
    · subst hba
      rw [lastWriteTo_cons_of_eq hp] at hlast
      cases hlast
    · rw [lastWriteTo_cons_of_ne (by rw [hp]; simpa using Ne.symm hba)] at hlast
      exact (hwrites.elsewhere b hba).trans (h.other b hlast)

/-- After a series of writes a file holds what was written to it last, and all else is left alone. -/
theorem writeAll_wrote {d : Disk} {ws : List (Path × String)} (h : ∀ w ∈ ws, Writable d w.1) :
    Wrote d (writeAll d ws).2 (finishedWrites d ws) := by
  induction ws generalizing d with
  | nil => exact .of_addsDirectories rfl (.refl _)
  | cons w ws ih =>
    obtain ⟨p, text⟩ := w
    obtain ⟨hp, hws⟩ := List.forall_mem_cons.mp h
    rw [writeAll, finishedWrites, write]
    cases hwrite : d.writeText p text with
    | mk result made =>
      cases result with
      | error e =>
        obtain ⟨hhere, hadds⟩ := Disk.writeText_eq_error hwrite
        exact .of_addsDirectories hhere hadds
      | ok =>
        obtain ⟨hhere, a, hstat, hwrites⟩ := Disk.writeText_eq_ok hp hwrite
        refine .cons hhere hstat hwrites (ih fun w hw => ?_)
        exact (hws w hw).of_keeps hhere hwrites.keeps

theorem wrote_of_writeAll {d d' : Disk} {ws : List (Path × String)} {result : Except Failure Unit}
    (hwrite : writeAll d ws = (result, d')) (h : ∀ w ∈ ws, Writable d w.1) :
    Wrote d d' (finishedWrites d ws) := by
  have hwrote := writeAll_wrote h
  rwa [hwrite] at hwrote

/-- What the file at the end of a path holds after a series of writes. -/
theorem Wrote.read {d d' : Disk} {ws : List (Path × String)} (h : Wrote d d' ws) {p : Path}
    {a : Address} {bytes : ByteArray} (hstat : d.stat p = .ok (a, .file bytes)) :
    d'.fileAt? p = some a ∧
      d'.read p = .ok (((lastWriteTo d' a ws).map String.toUTF8).getD bytes) := by
  obtain ⟨place, -, rfl, hfile⟩ := Disk.stat_eq_ok_iff.mp hstat
  have hafter : d'.tree.get? place.address =
      some (.file (((lastWriteTo d' place.address ws).map String.toUTF8).getD bytes)) := by
    cases hlast : lastWriteTo d' place.address ws with
    | some text => exact h.last _ text hlast
    | none => exact (h.other _ hlast).get?_of_some hfile
  have hstat' := Disk.stat_of_keeps hstat h.here h.keeps hafter fun _ h => nomatch h
  exact ⟨Disk.fileAt?_eq_some_iff.mpr ⟨_, hstat'⟩, Disk.read_eq_ok_iff.mpr ⟨_, hstat'⟩⟩

end Run

end CmsVariables
