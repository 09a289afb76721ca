import CmsVariables.FileTree.Resolution

/-!
# Ways through a tree

`Leads` tells by rules how the segments of a path lead from a directory to a place, one rule for each
kind of segment. A tree that only grows, by new entries and by new contents of files, keeps all ways;
a vacant place on the way may have an entry then.

* `follow_eq_ok_iff`: following segments succeeds with what the rules tell.
* `Leads.of_keeps`, `resolve_of_keeps`: ways are kept where the tree grows.
-/

namespace CmsVariables

namespace FileTree

/-- The segment `s` names an entry of a directory, and the segments after it do not forbid to write
there. -/
structure Names (purpose : Purpose) (s : String) (rest : List String) (name : EntryName) : Prop where
  not_current : ¬(s = "" ∨ s = ".")
  not_up : s ≠ ".."
  spelled : EntryName.ofText? s = some name
  writable : ¬(purpose = .writing ∧ rest ≠ [] ∧ rest.all (· == "") = true)

/-- How segments lead from a directory to a place, with a number of links that may be followed. -/
inductive Leads (t : FileTree) (purpose : Purpose) :
    Nat → Address → List String → Place → Prop where
  | stop {links : Nat} {here : Address} : Leads t purpose links here [] (.entry here)
  | stay {links : Nat} {here : Address} {s : String} {rest : List String} {place : Place}
      (hdir : t.get? here = some .directory) (hs : s = "" ∨ s = ".")
      (h : Leads t purpose links here rest place) : Leads t purpose links here (s :: rest) place
  | up {links : Nat} {here : Address} {rest : List String} {place : Place}
      (hdir : t.get? here = some .directory)
      (h : Leads t purpose links here.tail rest place) :
      Leads t purpose links here (".." :: rest) place
  | vacant {links : Nat} {here : Address} {s : String} {name : EntryName}
      (hdir : t.get? here = some .directory) (hname : Names purpose s [] name)
      (hget : t.get? (name :: here) = none) : Leads t purpose links here [s] (.vacant here name)
  | keepLink {links : Nat} {here : Address} {s : String} {name : EntryName} {target : Path}
      (hdir : t.get? here = some .directory) (hname : Names purpose s [] name)
      (hget : t.get? (name :: here) = some (.link target)) (hpurpose : purpose = .entry) :
      Leads t purpose links here [s] (.entry (name :: here))
  | followLink {links : Nat} {here : Address} {s : String} {rest : List String} {name : EntryName}
      {target : Path} {place : Place}
      (hdir : t.get? here = some .directory) (hname : Names purpose s rest name)
      (hget : t.get? (name :: here) = some (.link target))
      (hpurpose : ¬(rest = [] ∧ purpose = .entry))
      (h : Leads t purpose links (if target.rooted then [] else here) (target.segments ++ rest)
        place) : Leads t purpose (links + 1) here (s :: rest) place
  | enter {links : Nat} {here : Address} {s : String} {rest : List String} {name : EntryName}
      {e : Entry} {place : Place}
      (hdir : t.get? here = some .directory) (hname : Names purpose s rest name)
      (hget : t.get? (name :: here) = some e) (hlink : ∀ target, e ≠ .link target)
      (h : Leads t purpose links (name :: here) rest place) :
      Leads t purpose links here (s :: rest) place

variable {t t' : FileTree} {purpose : Purpose}

theorem leads_of_followTo {onLink : Address → List String → Except SystemError Place} {links : Nat}
    (hlink : ∀ {here ss place}, onLink here ss = .ok place →
      ∃ fewer, links = fewer + 1 ∧ Leads t purpose fewer here ss place)
    {here : Address} {ss : List String} {place : Place}
    (h : t.followTo purpose onLink here ss = .ok place) : Leads t purpose links here ss place := by
  induction ss generalizing here with
  | nil =>
    cases h
    exact .stop
  | cons s rest ih =>
    rw [followTo] at h
    split at h
    · cases h
    rename_i hnotDir
    have hdir := Decidable.not_not.mp hnotDir
    split at h
    · rename_i hcurrent
      exact .stay hdir hcurrent (ih h)
    rename_i hcurrent
    split at h
    · rename_i hup
      exact hup ▸ .up hdir (ih h)
    rename_i hup
    split at h
    · cases h
    rename_i name hname
    split at h
    · cases h
    rename_i hwritable
    have hnames : Names purpose s rest name := ⟨hcurrent, hup, hname, hwritable⟩
    split at h
    · rename_i hget
      split at h
      · rename_i hrest
        cases h
        subst hrest
        exact .vacant hdir hnames hget
      · cases h
    · rename_i target hget
      split at h
      · rename_i hkept
        cases h
        obtain ⟨rfl, hpurpose⟩ := hkept
        exact .keepLink hdir hnames hget hpurpose
      · rename_i hkept
        obtain ⟨fewer, rfl, hleads⟩ := hlink h
        exact .followLink hdir hnames hget hkept hleads
    · rename_i e hnotLink hget
      exact .enter hdir hnames hget (fun target htarget => hnotLink target htarget) (ih h)

theorem leads_of_follow {links : Nat} {here : Address} {ss : List String} {place : Place}
    (h : t.follow purpose links here ss = .ok place) : Leads t purpose links here ss place := by
  induction links generalizing here ss place with
  | zero => exact leads_of_followTo (fun hlink => by cases hlink) h
  | succ links ih => exact leads_of_followTo (fun hlink => ⟨links, rfl, ih hlink⟩) h

theorem Names.followTo_eq {s : String} {rest : List String} {name : EntryName} {here : Address}
    {onLink : Address → List String → Except SystemError Place} (h : Names purpose s rest name)
    (hdir : t.get? here = some .directory) :
    t.followTo purpose onLink here (s :: rest) =
      match t.get? (name :: here) with
      | none => if rest = [] then .ok (.vacant here name) else .error .notFound
      | some (.link target) =>
        if rest = [] ∧ purpose = .entry then .ok (.entry (name :: here))
        else onLink (if target.rooted then [] else here) (target.segments ++ rest)
      | some _ => t.followTo purpose onLink (name :: here) rest := by
  rw [followTo, if_neg (not_not_intro hdir), if_neg h.not_current, if_neg h.not_up, h.spelled]
  exact if_neg h.writable

theorem follow_eq_followTo (t : FileTree) (purpose : Purpose) (links : Nat) :
    ∃ onLink, t.follow purpose links = t.followTo purpose onLink := by
  cases links with
  | zero => exact ⟨_, rfl⟩
  | succ links => exact ⟨_, rfl⟩

theorem follow_of_leads {links : Nat} {here : Address} {ss : List String} {place : Place}
    (h : Leads t purpose links here ss place) : t.follow purpose links here ss = .ok place := by
  induction h with
  | @stop links here =>
    obtain ⟨onLink, hfollow⟩ := follow_eq_followTo t purpose links
    rw [hfollow]
    rfl
  | @stay links here s rest place hdir hs _ ih =>
    obtain ⟨onLink, hfollow⟩ := follow_eq_followTo t purpose links
    rw [hfollow] at ih ⊢
    rw [followTo, if_neg (not_not_intro hdir), if_pos hs, ih]
  | @up links here rest place hdir _ ih =>
    obtain ⟨onLink, hfollow⟩ := follow_eq_followTo t purpose links
    rw [hfollow] at ih ⊢
    rw [followTo, if_neg (not_not_intro hdir), if_neg (by decide), if_pos rfl, ih]
  | @vacant links here s name hdir hname hget =>
    obtain ⟨onLink, hfollow⟩ := follow_eq_followTo t purpose links
    rw [hfollow, hname.followTo_eq hdir, hget]
    rfl
  | @keepLink links here s name target hdir hname hget hpurpose =>
    obtain ⟨onLink, hfollow⟩ := follow_eq_followTo t purpose links
    rw [hfollow, hname.followTo_eq hdir, hget]
    exact if_pos ⟨rfl, hpurpose⟩
  | @followLink links here s rest name target place hdir hname hget hpurpose _ ih =>
    rw [follow, hname.followTo_eq hdir, hget]
    exact (if_neg hpurpose).trans ih
  | @enter links here s rest name e place hdir hname hget hlink _ ih =>
    obtain ⟨onLink, hfollow⟩ := follow_eq_followTo t purpose links
    rw [hfollow] at ih ⊢
    rw [hname.followTo_eq hdir, hget]
    cases e with
    | link target => exact absurd rfl (hlink target)
    | file bytes => exact ih
    | directory => exact ih

theorem follow_eq_ok_iff {links : Nat} {here : Address} {ss : List String} {place : Place} :
    t.follow purpose links here ss = .ok place ↔ Leads t purpose links here ss place :=
  ⟨leads_of_follow, follow_of_leads⟩

/-! ## Where segments lead -/

/-- A vacant place lies in a directory and has no entry. -/
theorem Leads.get?_vacant {links : Nat} {here dir : Address} {name : EntryName} {ss : List String}
    (h : Leads t purpose links here ss (.vacant dir name)) :
    t.get? dir = some .directory ∧ t.get? (name :: dir) = none := by
  generalize hplace : Place.vacant dir name = place at h
  induction h with
  | stop => cases hplace
  | stay _ _ _ ih => exact ih hplace
  | up _ _ ih => exact ih hplace
  | vacant hdir _ hget =>
    cases hplace
    exact ⟨hdir, hget⟩
  | keepLink => cases hplace
  | followLink _ _ _ _ _ ih => exact ih hplace
  | enter _ _ _ _ _ ih => exact ih hplace

/-- Segments lead past all links. Without any the place to start from has to be none itself. -/
theorem Leads.get?_entry {links : Nat} {here a : Address} {ss : List String}
    (h : Leads t purpose links here ss (.entry a)) (hpurpose : purpose ≠ .entry)
    (hhere : ss = [] → ∀ target, t.get? here ≠ some (.link target)) :
    ∀ target, t.get? a ≠ some (.link target) := by
  generalize hplace : Place.entry a = place at h
  induction h with
  | stop =>
    cases hplace
    exact hhere rfl
  | stay hdir _ _ ih =>
    refine ih (fun _ target => ?_) hplace
    rw [hdir]
    exact fun h => nomatch h
  | @up links here rest place hdir _ ih =>
    refine ih (fun _ target => ?_) hplace
    cases here with
    | nil => exact fun h => nomatch h
    | cons name dir =>
      rw [List.tail_cons, get?_tail hdir]
      exact fun h => nomatch h
  | vacant => cases hplace
  | keepLink _ _ _ hkeep => exact absurd hkeep hpurpose
  | followLink hdir _ _ _ _ ih =>
    refine ih (fun _ target => ?_) hplace
    split
    · exact fun h => nomatch h
    · rw [hdir]
      exact fun h => nomatch h
  | enter _ _ hget hlink _ ih =>
    refine ih (fun _ target => ?_) hplace
    rw [hget]
    exact fun h => hlink target (Option.some.inj h)

theorem Names.target {s : String} {rest rest' : List String} {name : EntryName}
    (h : Names purpose s rest name) : Names .target s rest' name :=
  ⟨h.not_current, h.not_up, h.spelled, fun hwriting => nomatch hwriting.1⟩

/-- A path that can be written leads where it leads for looking. -/
theorem Leads.target {links : Nat} {here : Address} {ss : List String} {place : Place}
    (h : Leads t .writing links here ss place) : Leads t .target links here ss place := by
  induction h with
  | stop => exact .stop
  | stay hdir hs _ ih => exact .stay hdir hs ih
  | up hdir _ ih => exact .up hdir ih
  | vacant hdir hname hget => exact .vacant hdir hname.target hget
  | keepLink _ _ _ hkeep => cases hkeep
  | followLink hdir hname hget _ _ ih =>
    exact .followLink hdir hname.target hget (fun h => nomatch h.2) ih
  | enter hdir hname hget hlink _ ih => exact .enter hdir hname.target hget hlink ih

/-! ## Trees that only grow -/

/-- Every entry of `t` is still in `t'`: a directory or link as it was, a file perhaps with other
contents. -/
structure Keeps (t t' : FileTree) : Prop where
  directory {a : Address} : t.get? a = some .directory → t'.get? a = some .directory
  link {a : Address} {target : Path} :
    t.get? a = some (.link target) → t'.get? a = some (.link target)
  file {a : Address} {bytes : ByteArray} :
    t.get? a = some (.file bytes) → ∃ bytes', t'.get? a = some (.file bytes')

namespace Keeps

theorem refl (t : FileTree) : Keeps t t := ⟨id, id, fun h => ⟨_, h⟩⟩

theorem trans {t'' : FileTree} (h : Keeps t t') (h' : Keeps t' t'') : Keeps t t'' where
  directory ha := h'.directory (h.directory ha)
  link ha := h'.link (h.link ha)
  file ha := by
    obtain ⟨bytes, hbytes⟩ := h.file ha
    exact h'.file hbytes

theorem get?_ne_link (h : Keeps t t') {a : Address} {e : Entry} (hget : t.get? a = some e)
    (hlink : ∀ target, e ≠ .link target) :
    ∃ e', t'.get? a = some e' ∧ ∀ target, e' ≠ .link target := by
  cases e with
  | file bytes =>
    obtain ⟨bytes', hbytes⟩ := h.file hget
    exact ⟨_, hbytes, fun _ h => nomatch h⟩
  | link target => exact absurd rfl (hlink target)
  | directory => exact ⟨_, h.directory hget, hlink⟩

end Keeps

/-- There is an entry at a place, and it is no link. -/
def Settled (t : FileTree) : Place → Prop
  | .entry _ => True
  | .vacant dir name => ∃ e, t.get? (name :: dir) = some e ∧ ∀ target, e ≠ .link target

/-- In a tree that has grown segments lead to the same place, where now there may be an entry. -/
theorem Leads.of_keeps {links : Nat} {here : Address} {ss : List String} {place : Place}
    (h : Leads t purpose links here ss place) (hkeeps : Keeps t t') (hplace : t'.Settled place) :
    Leads t' purpose links here ss (.entry place.address) := by
  induction h with
  | stop => exact .stop
  | stay hdir hs _ ih => exact .stay (hkeeps.directory hdir) hs (ih hplace)
  | up hdir _ ih => exact .up (hkeeps.directory hdir) (ih hplace)
  | vacant hdir hname hget =>
    obtain ⟨e, he, hlink⟩ := hplace
    exact .enter (hkeeps.directory hdir) hname he hlink .stop
  | keepLink hdir hname hget hpurpose =>
    exact .keepLink (hkeeps.directory hdir) hname (hkeeps.link hget) hpurpose
  | followLink hdir hname hget hpurpose _ ih =>
    exact .followLink (hkeeps.directory hdir) hname (hkeeps.link hget) hpurpose (ih hplace)
  | enter hdir hname hget hlink _ ih =>
    obtain ⟨e', he', hlink'⟩ := hkeeps.get?_ne_link hget hlink
    exact .enter (hkeeps.directory hdir) hname he' hlink' (ih hplace)

theorem resolve_eq_ok_iff {here : Address} {p : Path} {place : Place} :
    t.resolve purpose here p = .ok place ↔ p.hasNul = false ∧ p ≠ .empty ∧
      Leads t purpose maxLinks (if p.rooted then [] else here) p.segments place := by
  rw [resolve, ← follow_eq_ok_iff]
  cases hnul : p.hasNul with
  | true => simp
  | false =>
    by_cases hempty : p = .empty
    · simp [hempty]
    · simp [hempty]

theorem resolve_of_keeps {here : Address} {p : Path} {place : Place}
    (h : t.resolve purpose here p = .ok place) (hkeeps : Keeps t t') (hplace : t'.Settled place) :
    t'.resolve purpose here p = .ok (.entry place.address) := by
  rw [resolve_eq_ok_iff] at h ⊢
  exact ⟨h.1, h.2.1, h.2.2.of_keeps hkeeps hplace⟩

end FileTree
end CmsVariables
