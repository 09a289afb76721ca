import CmsVariables.Proofs.FileTree.Overwriting

/-!
# What writing leaves alone

A text is written to one file, and the only other things that are new after it are directories on the
way: each of them is one to which a path above the path of the file leads. So it is for every path,
with links and double dots on the way or a link at the end, and also where the write fails.

* `exists_stat_of_makeDirectory`: a new directory is where its path leads.
* `makeDirectoriesAlong_leftAlone`, `makeParent_leftAlone`: so are all that are made on the way.
* `writeText_frame`: what is different after a write.
-/

namespace CmsVariables

/-! ## Ways to a new directory -/

namespace FileTree

variable {t : FileTree}

/-- A way to a vacant place passes no link at its end. -/
theorem Leads.target_of_vacant {links : Nat} {here dir : Address} {name : EntryName}
    {ss : List String} (h : Leads t .entry links here ss (.vacant dir name)) :
    Leads t .target links here ss (.vacant dir name) := by
  generalize hplace : Place.vacant dir name = place at h ⊢
  induction h with
  | stop => cases hplace
  | stay hdir hs _ ih => exact .stay hdir hs (ih hplace)
  | up hdir _ ih => exact .up hdir (ih hplace)
  | vacant hdir hname hget => exact .vacant hdir hname.target hget
  | keepLink => cases hplace
  | followLink hdir hname hget _ _ ih =>
    exact .followLink hdir hname.target hget (fun h => nomatch h.2) (ih hplace)
  | enter hdir hname hget hlink _ ih => exact .enter hdir hname.target hget hlink (ih hplace)

theorem leads_slashes {purpose : Purpose} {links : Nat} {a : Address} {slashes : List String}
    (ha : t.get? a = some .directory) (h : ∀ s ∈ slashes, s = "") :
    Leads t purpose links a slashes (.entry a) := by
  induction slashes with
  | nil => exact .stop
  | cons s slashes ih =>
    obtain ⟨hs, hslashes⟩ := List.forall_mem_cons.mp h
    exact .stay ha (Or.inl hs) (ih hslashes)

/-- Slashes at the end of a way to a directory lead nowhere else. -/
theorem Leads.append_slashes {links : Nat} {here a : Address} {ss slashes : List String}
    (h : Leads t .target links here ss (.entry a)) (ha : t.get? a = some .directory)
    (hslashes : ∀ s ∈ slashes, s = "") : Leads t .target links here (ss ++ slashes) (.entry a) := by
  generalize hplace : Place.entry a = place at h ⊢
  induction h with
  | stop =>
    cases hplace
    exact leads_slashes ha hslashes
  | stay hdir hs _ ih => exact .stay hdir hs (ih hplace)
  | up hdir _ ih => exact .up hdir (ih hplace)
  | vacant => cases hplace
  | keepLink _ _ _ hpurpose => cases hpurpose
  | followLink hdir hname hget _ _ ih =>
    have hrest := ih hplace
    rw [List.append_assoc] at hrest
    exact .followLink hdir hname.target hget (fun h => nomatch h.2) hrest
  | enter hdir hname hget hlink _ ih => exact .enter hdir hname.target hget hlink (ih hplace)

end FileTree

namespace Disk

open FileTree

variable {d d' d'' : Disk} {p : Path}

theorem exists_slashes (p : Path) (h : (withoutEndSlashes p).segments ≠ [""]) :
    ∃ slashes, (∀ s ∈ slashes, s = "") ∧
      p.segments = (withoutEndSlashes p).segments ++ slashes := by
  have hcut := List.takeWhile_append_dropWhile (p := (· == "")) (l := p.segments.reverse)
  refine ⟨(p.segments.reverse.takeWhile (· == "")).reverse, fun s hs => ?_, ?_⟩
  · have hslash := List.mem_takeWhile_imp (List.mem_reverse.mp hs)
    exact beq_iff_eq.mp hslash
  · rw [withoutEndSlashes, Path.ofSegments] at h ⊢
    split at h
    · exact absurd rfl h
    · rename_i hne
      rw [if_neg hne, ← List.reverse_append, hcut, List.reverse_reverse]

/-- A new directory is where its path leads. -/
theorem exists_stat_of_makeDirectory (h : d.makeDirectory p = .ok d') :
    ∃ a, d.tree.get? a = none ∧ d'.stat p = .ok (a, .directory) ∧
      ∀ b, b ≠ a → d'.tree.get? b = d.tree.get? b := by
  obtain ⟨-, hadds⟩ := makeDirectory_eq_ok h
  obtain ⟨dir, name, hresolve, hroom, rfl⟩ := exists_vacant_of_makeDirectory h
  obtain ⟨hnul, hempty, hleads⟩ := resolve_eq_ok_iff.mp hresolve
  obtain ⟨-, hvacant⟩ := hleads.get?_vacant
  have hmade : (d.put (name :: dir) .directory).tree.get? (name :: dir) = some .directory := by
    rw [put, get?_put hroom, if_pos rfl]
  have hne : (withoutEndSlashes p).segments ≠ [""] := by
    intro hroot
    have hget := hleads.directory_of_getLast? (by rw [hroot]; rfl)
    rw [Place.address, hvacant] at hget
    cases hget
  obtain ⟨slashes, hslashes, hp⟩ := exists_slashes p hne
  have hsettled : (d.put (name :: dir) .directory).tree.Settled (.vacant dir name) := by
    refine ⟨_, hmade, fun target htarget => ?_⟩
    cases htarget
  have hway := (hleads.target_of_vacant.of_keeps hadds.keeps hsettled).append_slashes hmade hslashes
  refine ⟨name :: dir, hvacant, ?_, fun b hb => by rw [put, get?_put hroom, if_neg hb]⟩
  refine stat_eq_ok_iff.mpr
    ⟨.entry (name :: dir), resolve_eq_ok_iff.mpr ⟨?_, ?_, ?_⟩, rfl, hmade⟩
  · rw [Path.hasNul, hp, List.any_append, Bool.or_eq_false_iff]
    refine ⟨hnul, List.any_eq_false.mpr fun s hs => ?_⟩
    rw [hslashes s hs]
    decide
  · rintro rfl
    exact hne rfl
  · rw [hp]
    exact hway

/-! ## Directories on the way -/

/-- At `b` everything is as it was, unless a directory is new there to which one of some paths
leads. -/
def LeftAloneOn (d d' : Disk) (OnWay : Path → Prop) (b : Address) : Prop :=
  d'.tree.get? b = d.tree.get? b ∨
    d.tree.get? b = none ∧ ∃ q, OnWay q ∧ d'.stat q = .ok (b, .directory)

namespace LeftAloneOn

variable {OnWay OnWay' : Path → Prop} {b : Address}

theorem refl (d : Disk) (OnWay : Path → Prop) (b : Address) : LeftAloneOn d d OnWay b := Or.inl rfl

theorem mono (h : LeftAloneOn d d' OnWay b) (hway : ∀ q, OnWay q → OnWay' q) :
    LeftAloneOn d d' OnWay' b := by
  rcases h with hsame | ⟨hnone, q, hq, hstat⟩
  · exact Or.inl hsame
  · exact Or.inr ⟨hnone, q, hway q hq, hstat⟩

theorem trans (h : LeftAloneOn d d' OnWay b) (h' : LeftAloneOn d' d'' OnWay b)
    (hhere : d''.here = d'.here) (hkeeps : Keeps d'.tree d''.tree) :
    LeftAloneOn d d'' OnWay b := by
  rcases h with hsame | ⟨hnone, q, hq, hstat⟩
  · rwa [LeftAloneOn, hsame] at h'
  · -- a directory that was made stays where its path leads
    obtain ⟨-, -, -, hget⟩ := stat_eq_ok_iff.mp hstat
    have hstat' := stat_of_keeps hstat hhere hkeeps (hkeeps.directory hget) fun _ h => nomatch h
    exact Or.inr ⟨hnone, q, hq, hstat'⟩

end LeftAloneOn

theorem makeDirectory_leftAlone (h : d.makeDirectory p = .ok d') (b : Address) :
    LeftAloneOn d d' (· = p) b := by
  obtain ⟨a, hnone, hstat, helse⟩ := exists_stat_of_makeDirectory h
  by_cases hb : b = a
  · exact Or.inr ⟨hb ▸ hnone, p, rfl, hb ▸ hstat⟩
  · exact Or.inl (helse b hb)

theorem makeDirectoriesAlong_leftAlone (d : Disk) (ps : List Path) (b : Address) :
    LeftAloneOn d (d.makeDirectoriesAlong ps).2 (· ∈ ps) b := by
  induction ps generalizing d with
  | nil => exact .refl d _ b
  | cons p above ih =>
    have hfirst : ∀ q, q = p → q ∈ p :: above := fun q hq => hq ▸ List.mem_cons_self
    rw [makeDirectoriesAlong]
    split
    · exact .refl d _ b
    split
    · rename_i d' hmake
      exact (makeDirectory_leftAlone hmake b).mono hfirst
    · have habove : LeftAloneOn d (d.makeDirectoriesAlong above).2 (· ∈ p :: above) b :=
        (ih d).mono fun q hq => List.mem_cons_of_mem p hq
      split
      · rename_i e d' hmade
        rw [hmade] at habove
        exact habove
      · rename_i d' hmade
        rw [hmade] at habove
        split
        · rename_i d'' hmake
          obtain ⟨hhere, hadds⟩ := makeDirectory_eq_ok hmake
          have hlast := (makeDirectory_leftAlone hmake b).mono hfirst
          exact habove.trans hlast hhere hadds.keeps
        · split <;> exact habove
    · split <;> exact .refl d _ b

/-- To make the directory of a file no more is made than directories above the file. -/
theorem makeParent_leftAlone (d : Disk) (p : Path) (b : Address) :
    LeftAloneOn d (d.makeParent p).2 (·.Above p) b := by
  rw [makeParent]
  split
  · rename_i parent hparent
    refine (d.makeDirectoriesAlong_leftAlone parent.ancestors b).mono fun q hq => ?_
    exact Path.above_of_mem_ancestors hparent hq
  · exact .refl d _ b

/-! ## Writing -/

/-- Writing a file changes no entry but to what was written. -/
theorem get?_of_writeFile {bytes : ByteArray} (h : d.writeFile p bytes = .ok d') (b : Address) :
    d'.tree.get? b = d.tree.get? b ∨ d'.tree.get? b = some (.file bytes) := by
  obtain ⟨place, -, hroom, rfl⟩ := exists_place_of_writeFile h
  rw [put, get?_put hroom]
  split
  · exact Or.inr rfl
  · exact Or.inl rfl

theorem get?_of_writeFile_of_ne {bytes : ByteArray} {a b : Address}
    (h : d.writeFile p bytes = .ok d') (hwrites : Writes d.tree d'.tree a bytes) (hb : b ≠ a) :
    d'.tree.get? b = d.tree.get? b := by
  rcases hwrites.elsewhere b hb with hsame | ⟨hnone, hdir⟩
  · exact hsame
  · rcases get?_of_writeFile h b with hsame | hfile
    · exact hsame
    · rw [hdir] at hfile
      cases hfile

/-- After a write that succeeds, the path leads to a file with the text, where it led before if it
led anywhere; there was a file or nothing. All else is as it was, and so is everything after a write
that fails, but for new directories to which paths above the path lead. A path lacks segments only if
no text spells it (`Path.segments_ofText_ne_nil`). -/
theorem writeText_frame (d : Disk) {p : Path} (hp : p.segments ≠ []) (text : String) :
    (∀ d', d.writeText p text = (.ok (), d') → d'.here = d.here ∧ d'.read p = .ok text.toUTF8 ∧
      ∃ a, d'.stat p = .ok (a, .file text.toUTF8) ∧ (∀ b e, d.stat p = .ok (b, e) → b = a) ∧
        (d.tree.get? a = none ∨ ∃ old, d.tree.get? a = some (.file old)) ∧
          ∀ b, b ≠ a → LeftAloneOn d d' (·.Above p) b) ∧
    ∀ e d', d.writeText p text = (.error e, d') →
      d'.here = d.here ∧ ∀ b, LeftAloneOn d d' (·.Above p) b := by
  obtain ⟨hhere, hadds⟩ := d.makeParent_adds p
  have hway := d.makeParent_leftAlone p
  constructor
  · intro d' h
    obtain ⟨made, hmade, hwrite⟩ := exists_made_of_writeText h
    rw [hmade] at hhere hadds hway
    obtain ⟨hhere', a, hstat, hwritten⟩ := writeFile_eq_ok (made.pastLinks_of_segments hp) hwrite
    have hwrites := hwritten.of_addsDirectories hadds
    refine ⟨hhere'.trans hhere, read_eq_ok_iff.mpr ⟨a, hstat⟩, a, hstat, ?_, hwrites.before, ?_⟩
    · intro b e hbefore
      obtain ⟨place, hplace, rfl, hget⟩ := stat_eq_ok_iff.mp hbefore
      have hlink : ∀ target, e ≠ .link target := by
        rintro target rfl
        exact d.pastLinks_of_segments hp place hplace target hget
      obtain ⟨e', hget', hlink'⟩ := hwrites.keeps.get?_ne_link hget hlink
      have hafter := stat_of_keeps hbefore (hhere'.trans hhere) hwrites.keeps hget' hlink'
      rw [hstat] at hafter
      cases hafter
      rfl
    · intro b hb
      have hlast : LeftAloneOn made d' (·.Above p) b :=
        Or.inl (get?_of_writeFile_of_ne hwrite hwritten hb)
      exact (hway b).trans hlast hhere' hwritten.keeps
  · intro e d' h
    obtain rfl := eq_makeParent_of_writeText h
    exact ⟨hhere, hway⟩

/-- A link to a directory below another one, in which there is a link that leads nowhere. -/
def crossedLinks : Disk where
  tree := (((FileTree.empty.put [⟨"a", Eq.refl true⟩] .directory).put
    [⟨"sub", Eq.refl true⟩, ⟨"a", Eq.refl true⟩] .directory).put
    [⟨"to", Eq.refl true⟩, ⟨"a", Eq.refl true⟩] (.link (.ofText "new.txt"))).put
    [⟨"over", Eq.refl true⟩] (.link (.ofText "a/sub"))
  here := []

theorem writeText_frame_crossedLinks :
    (Path.ofText "over/../x/../to").segments ≠ [] ∧
      ∃ d', crossedLinks.writeText (.ofText "over/../x/../to") "T" = (.ok (), d') ∧
        d'.read (.ofText "over/../x/../to") = .ok "T".toUTF8 ∧
        d'.tree.get? [⟨"x", Eq.refl true⟩, ⟨"a", Eq.refl true⟩] = some .directory ∧
        ∀ b, b ≠ [⟨"new.txt", Eq.refl true⟩, ⟨"a", Eq.refl true⟩] →
          LeftAloneOn crossedLinks d' (·.Above (.ofText "over/../x/../to")) b := by
  have hp : (Path.ofText "over/../x/../to").segments ≠ [] := by decide
  obtain ⟨hok, -⟩ := writeText_frame crossedLinks hp "T"
  have hresult : (crossedLinks.writeText (.ofText "over/../x/../to") "T").1 = .ok () := by
    decide +kernel
  have hstat : (crossedLinks.writeText (.ofText "over/../x/../to") "T").2.stat
      (.ofText "over/../x/../to") =
        .ok ([⟨"new.txt", Eq.refl true⟩, ⟨"a", Eq.refl true⟩], .file "T".toUTF8) := by
    decide +kernel
  have hmade : (crossedLinks.writeText (.ofText "over/../x/../to") "T").2.tree.get?
      [⟨"x", Eq.refl true⟩, ⟨"a", Eq.refl true⟩] = some .directory := by decide +kernel
  generalize hrun : crossedLinks.writeText (.ofText "over/../x/../to") "T" = run
    at hresult hstat hmade
  obtain ⟨result, d'⟩ := run
  obtain rfl : result = .ok () := hresult
  obtain ⟨-, hread, a, ha, -, -, hrest⟩ := hok d' hrun
  obtain ⟨rfl, -⟩ := Prod.mk.inj (Except.ok.inj (hstat.symm.trans ha))
  exact ⟨hp, d', rfl, hread, hmade, hrest⟩

end Disk

end CmsVariables
