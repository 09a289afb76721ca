import CmsVariables.Proofs.FileTree.Outline
import CmsVariables.Proofs.FileTree.Writing
import CmsVariables.Proofs.Path.Ancestors

/-!
# Writing over a file

A path that leads to a file leads through directories that are there. So writing to it makes no
directory, it succeeds, and nothing changes but what the file holds.

* `FileTree.Leads.exists_directory_of_append`: a way to a place passes a directory after each of its
  parts.
* `FileTree.Leads.writing`: a way to a file is one for writing as well.
* `Disk.makeParent_of_stat`: the directory in which a file lies need not be made.
* `Disk.exists_writeText`: a file that can be read can be written.
* `Disk.writeText_alike`: writing over a file keeps the outline of the disk.
-/

namespace CmsVariables

open FileTree

/-! ## Ways to a file -/

namespace FileTree

variable {t : FileTree} {purpose : Purpose}

theorem Names.entry {s : String} {rest rest' : List String} {name : EntryName}
    (h : Names purpose s rest name) : Names .entry s rest' name :=
  ⟨h.not_current, h.not_up, h.spelled, fun hwriting => nomatch hwriting.1⟩

/-- On the way to a place there is a directory after each part of the way. -/
theorem Leads.exists_directory_of_append {links : Nat} {here : Address} {front rest : List String}
    {place : Place} (h : Leads t .target links here (front ++ rest) place) (hrest : rest ≠ []) :
    ∃ a, Leads t .target links here front (.entry a) ∧ t.get? a = some .directory := by
  generalize hss : front ++ rest = ss at h
  induction h generalizing front with
  | @stop links here =>
    exact absurd (List.append_eq_nil_iff.mp hss).2 hrest
  | @stay links here s tail place hdir hs _ ih =>
    rcases List.append_eq_cons_iff.mp hss with ⟨rfl, -⟩ | ⟨front, rfl, htail⟩
    · exact ⟨here, .stop, hdir⟩
    · obtain ⟨a, ha, hget⟩ := ih htail.symm
      exact ⟨a, .stay hdir hs ha, hget⟩
  | @up links here tail place hdir _ ih =>
    rcases List.append_eq_cons_iff.mp hss with ⟨rfl, -⟩ | ⟨front, rfl, htail⟩
    · exact ⟨here, .stop, hdir⟩
    · obtain ⟨a, ha, hget⟩ := ih htail.symm
      exact ⟨a, .up hdir ha, hget⟩
  | @vacant links here s name hdir hname hget =>
    rcases List.append_eq_cons_iff.mp hss with ⟨rfl, -⟩ | ⟨front, rfl, htail⟩
    · exact ⟨here, .stop, hdir⟩
    · exact absurd (List.append_eq_nil_iff.mp htail.symm).2 hrest
  | keepLink _ _ _ hpurpose => cases hpurpose
  | @followLink links here s tail name target place hdir hname hlink _ _ ih =>
    rcases List.append_eq_cons_iff.mp hss with ⟨rfl, -⟩ | ⟨front, rfl, rfl⟩
    · exact ⟨here, .stop, hdir⟩
    · obtain ⟨a, ha, hget⟩ := ih (List.append_assoc target.segments front rest)
      exact ⟨a, .followLink hdir hname.target hlink (fun h => nomatch h.2) ha, hget⟩
  | @enter links here s tail name e place hdir hname he hlink _ ih =>
    rcases List.append_eq_cons_iff.mp hss with ⟨rfl, -⟩ | ⟨front, rfl, htail⟩
    · exact ⟨here, .stop, hdir⟩
    · obtain ⟨a, ha, hget⟩ := ih htail.symm
      exact ⟨a, .enter hdir hname.target he hlink ha, hget⟩

/-- Segments that lead to an entry name one, be it a link. -/
theorem Leads.exists_entry {links : Nat} {here : Address} {ss : List String} {place : Place}
    (h : Leads t .target links here ss place) (hplace : t.get? place.address ≠ none) :
    ∃ a e, Leads t .entry links here ss (.entry a) ∧ t.get? a = some e := by
  induction h with
  | @stop links here =>
    obtain ⟨e, he⟩ := Option.ne_none_iff_exists'.mp hplace
    exact ⟨here, e, .stop, he⟩
  | stay hdir hs _ ih =>
    obtain ⟨a, e, hleads, he⟩ := ih hplace
    exact ⟨a, e, .stay hdir hs hleads, he⟩
  | up hdir _ ih =>
    obtain ⟨a, e, hleads, he⟩ := ih hplace
    exact ⟨a, e, .up hdir hleads, he⟩
  | vacant _ _ hget => exact absurd hget hplace
  | keepLink _ _ _ hpurpose => cases hpurpose
  | @followLink links here s rest name target place hdir hname hget _ _ ih =>
    by_cases hrest : rest = []
    · subst hrest
      exact ⟨name :: here, _, .keepLink hdir hname.entry hget rfl, hget⟩
    · obtain ⟨a, e, hleads, he⟩ := ih hplace
      exact ⟨a, e, .followLink hdir hname.entry hget (fun h => hrest h.1) hleads, he⟩
  | enter hdir hname hget hlink _ ih =>
    obtain ⟨a, e, hleads, he⟩ := ih hplace
    exact ⟨a, e, .enter hdir hname.entry hget hlink hleads, he⟩

/-! ## Ways for writing -/

theorem getLast?_of_cons {s x : String} {rest : List String}
    (h : (s :: rest).getLast? = some x) : rest = [] ∧ s = x ∨ rest.getLast? = some x := by
  cases rest with
  | nil => exact Or.inl ⟨rfl, Option.some.inj h⟩
  | cons s' rest => exact Or.inr (by rwa [List.getLast?_cons_cons] at h)

/-- A way with a slash at its end leads to a directory. -/
theorem Leads.directory_of_getLast? {links : Nat} {here : Address} {ss : List String} {place : Place}
    (h : Leads t purpose links here ss place) (hlast : ss.getLast? = some "") :
    t.get? place.address = some .directory := by
  induction h with
  | stop => cases hlast
  | stay hdir _ hrest ih =>
    rcases getLast?_of_cons hlast with ⟨rfl, -⟩ | hlast
    · cases hrest
      exact hdir
    · exact ih hlast
  | up _ _ ih =>
    rcases getLast?_of_cons hlast with ⟨-, hs⟩ | hlast
    · exact absurd hs (by decide)
    · exact ih hlast
  | vacant _ hname => exact absurd (Or.inl (Option.some.inj hlast)) hname.not_current
  | keepLink _ hname => exact absurd (Or.inl (Option.some.inj hlast)) hname.not_current
  | followLink _ hname _ _ _ ih =>
    rcases getLast?_of_cons hlast with ⟨-, hs⟩ | hlast
    · exact absurd (Or.inl hs) hname.not_current
    · refine ih ?_
      rw [List.getLast?_append, hlast]
      rfl
  | enter _ hname _ _ _ ih =>
    rcases getLast?_of_cons hlast with ⟨-, hs⟩ | hlast
    · exact absurd (Or.inl hs) hname.not_current
    · exact ih hlast

theorem Names.writing {s : String} {rest : List String} {name : EntryName}
    (h : Names purpose s rest name) (hrest : rest.getLast? ≠ some "") :
    Names .writing s rest name := by
  refine ⟨h.not_current, h.not_up, h.spelled, fun hslashes => hrest ?_⟩
  obtain ⟨-, hne, hall⟩ := hslashes
  rw [List.getLast?_eq_some_getLast hne]
  have hlast := List.all_eq_true.mp hall _ (List.getLast_mem hne)
  rw [beq_iff_eq.mp hlast]

/-- A way to what is no directory has no slash at its end, so a file can be written there. -/
theorem Leads.writing {links : Nat} {here : Address} {ss : List String} {place : Place}
    (h : Leads t .target links here ss place) (hplace : t.get? place.address ≠ some .directory) :
    Leads t .writing links here ss place := by
  induction h with
  | stop => exact .stop
  | stay hdir hs _ ih => exact .stay hdir hs (ih hplace)
  | up hdir _ ih => exact .up hdir (ih hplace)
  | vacant hdir hname hget =>
    exact .vacant hdir (hname.writing fun hlast => nomatch hlast) hget
  | keepLink _ _ _ hpurpose => cases hpurpose
  | followLink hdir hname hget _ hrest ih =>
    refine .followLink hdir (hname.writing fun hlast => hplace ?_) hget (fun h => nomatch h.2)
      (ih hplace)
    refine hrest.directory_of_getLast? ?_
    rw [List.getLast?_append, hlast]
    rfl
  | enter hdir hname hget hlink hrest ih =>
    refine .enter hdir (hname.writing fun hlast => hplace ?_) hget hlink (ih hplace)
    exact hrest.directory_of_getLast? hlast

end FileTree

/-! ## The directory of a file -/

namespace Disk

variable {d d' : Disk} {p : Path}

theorem resolve_root (d : Disk) (purpose : Purpose) : d.resolve purpose .root = .ok (.entry []) :=
  resolve_eq_ok_iff.mpr
    ⟨by decide, by decide, .stay (get?_nil _) (Or.inl rfl) .stop⟩

/-- The path above one that leads to a place names an entry, unless it has no steps. -/
theorem exists_entry_of_parent? {place : Place} {above : Path}
    (h : d.resolve .target p = .ok place) (habove : p.parent? = some above)
    (hne : above.components ≠ []) :
    ∃ a, d.resolve .entry (withoutEndSlashes above) = .ok (.entry a) := by
  obtain ⟨hrooted, hsegments⟩ := Path.segments_of_parent? habove
  obtain ⟨hnul, -, hleads⟩ := resolve_eq_ok_iff.mp h
  obtain ⟨more, hmore⟩ := Path.reverse_dropWhile_reverse_prefix (· == "") above.segments
  rw [withoutEndSlashes, Path.ofSegments]
  split
  · rename_i hnil
    have hall : ∀ s ∈ above.segments, s = "" := by
      simpa [List.dropWhile_eq_nil_iff] using hnil
    cases hroot : above.rooted with
    | true => exact ⟨[], d.resolve_root .entry⟩
    | false => exact absurd (Path.components_eq_nil hroot hall) hne
  · rename_i hsome
    rcases hsegments with hnil | ⟨rest, hrest, hp⟩
    · rw [hnil] at hsome
      exact absurd rfl hsome
    rw [← hmore, List.append_assoc] at hp
    rw [hp] at hleads
    obtain ⟨b, hb, hget⟩ := hleads.exists_directory_of_append (by simp [hrest])
    obtain ⟨a, -, ha, -⟩ := hb.exists_entry (by rw [Place.address, hget]; exact Option.some_ne_none _)
    refine ⟨a, resolve_eq_ok_iff.mpr ⟨?_, ?_, by rw [hrooted]; exact ha⟩⟩
    · rw [Path.hasNul, hp, List.any_append, Bool.or_eq_false_iff] at hnul
      exact hnul.1
    · intro hempty
      have hlast := List.head?_dropWhile_not (· == "") above.segments.reverse
      have hsegments := congrArg Path.segments hempty
      simp only [Path.empty, List.reverse_eq_cons_iff, List.reverse_nil,
        List.nil_append] at hsegments
      simp [hsegments] at hlast

/-- The path above one that leads to a place leads to a directory, unless it has no steps. -/
theorem isDirectory_of_parent? {place : Place} {above : Path}
    (h : d.resolve .target p = .ok place) (habove : p.parent? = some above)
    (hne : above.components ≠ []) : d.isDirectory above = true := by
  obtain ⟨hrooted, hsegments⟩ := Path.segments_of_parent? habove
  obtain ⟨hnul, -, hleads⟩ := resolve_eq_ok_iff.mp h
  have hdirectory {a : Address} (ha : d.resolve .target above = .ok (.entry a))
      (hget : d.tree.get? a = some .directory) : d.isDirectory above = true := by
    rw [isDirectory, stat_eq_ok_iff.mpr ⟨_, ha, rfl, hget⟩]
  rcases hsegments with hnil | ⟨rest, hrest, hp⟩
  · cases hroot : above.rooted with
    | true =>
      obtain rfl : above = .root := by
        obtain ⟨rooted, segments⟩ := above
        obtain rfl : rooted = true := hroot
        obtain rfl : segments = [""] := hnil
        rfl
      exact hdirectory (d.resolve_root .target) (get?_nil _)
    | false =>
      refine absurd (Path.components_eq_nil hroot ?_) hne
      rw [hnil]
      exact List.forall_mem_singleton.mpr rfl
  · rw [hp] at hleads
    obtain ⟨a, ha, hget⟩ := hleads.exists_directory_of_append hrest
    refine hdirectory (resolve_eq_ok_iff.mpr ⟨?_, ?_, by rw [hrooted]; exact ha⟩) hget
    · rw [Path.hasNul, hp, List.any_append, Bool.or_eq_false_iff] at hnul
      exact hnul.1
    · rintro rfl
      exact hne rfl

/-- The directory in which something lies need not be made. -/
theorem makeParent_of_stat {a : Address} {e : Entry} (h : d.stat p = .ok (a, e)) :
    d.makeParent p = (.ok (), d) := by
  obtain ⟨place, hplace, -, -⟩ := stat_eq_ok_iff.mp h
  rw [makeParent]
  split
  · rename_i above habove
    obtain ⟨more, hmore⟩ := above.exists_ancestors_eq
    rw [makeDirectories, hmore, makeDirectoriesAlong]
    split
    · rfl
    rename_i hne
    obtain ⟨b, hb⟩ := exists_entry_of_parent? hplace habove hne
    have hmake : d.makeDirectory above = .error .occupied := by
      rw [makeDirectory, makeEntry, hb]
    simp only [hmake, isDirectory_of_parent? hplace habove hne, if_true]
  · rfl

/-! ## Writing -/

theorem writeFile_alike {a : Address} {old bytes : ByteArray}
    (hstat : d.stat p = .ok (a, .file old)) (h : d.writeFile p bytes = .ok d') : Alike d d' := by
  obtain ⟨place, hplace, rfl, hold⟩ := stat_eq_ok_iff.mp hstat
  obtain ⟨place', hplace', hroom, rfl⟩ := exists_place_of_writeFile h
  have htarget := resolve_target_of_writing hplace'
  obtain rfl : place = place' := Except.ok.inj (hplace.symm.trans htarget)
  refine ⟨rfl, fun b => ?_⟩
  rw [put, get?_put hroom]
  by_cases hb : b = place.address
  · rw [if_pos hb, hb, hold]
    rfl
  · rw [if_neg hb]

/-- A file that can be read can be written. -/
theorem exists_writeFile {old : ByteArray} (h : d.read p = .ok old) (bytes : ByteArray) :
    ∃ d', d.writeFile p bytes = .ok d' := by
  obtain ⟨a, hstat⟩ := read_eq_ok_iff.mp h
  obtain ⟨place, hplace, rfl, hfile⟩ := stat_eq_ok_iff.mp hstat
  obtain ⟨hnul, hempty, hleads⟩ := resolve_eq_ok_iff.mp hplace
  have hnot : d.tree.get? place.address ≠ some .directory := by
    rw [hfile]
    exact fun h => nomatch h
  have hwriting : d.resolve .writing p = .ok place :=
    resolve_eq_ok_iff.mpr ⟨hnul, hempty, hleads.writing hnot⟩
  have hroom : d.tree.hasRoom place.address = true := by
    generalize place.address = a at hfile hnot
    cases a with
    | nil => exact absurd (get?_nil _) hnot
    | cons name dir => simp [hasRoom, get?_tail hfile, hfile]
  unfold writeFile
  rw [hwriting]
  exact ⟨_, if_pos hroom⟩

theorem exists_writeText {old : ByteArray} (h : d.read p = .ok old) (text : String) :
    ∃ d', d.writeText p text = (.ok (), d') := by
  obtain ⟨a, hstat⟩ := read_eq_ok_iff.mp h
  obtain ⟨d', hwrite⟩ := exists_writeFile h text.toUTF8
  refine ⟨d', ?_⟩
  rw [writeText, makeParent_of_stat hstat]
  simp only [hwrite]

/-- Writing over a file changes nothing but what it holds. -/
theorem writeText_alike {old : ByteArray} (h : d.read p = .ok old) (text : String) :
    Alike d (d.writeText p text).2 := by
  obtain ⟨a, hstat⟩ := read_eq_ok_iff.mp h
  obtain ⟨d', hwrite⟩ := exists_writeFile h text.toUTF8
  rw [writeText, makeParent_of_stat hstat]
  simp only [hwrite]
  exact writeFile_alike hstat hwrite

end Disk

end CmsVariables
