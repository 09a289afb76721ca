import CmsVariables.Path.Basic

/-!
# File trees

A file tree is a finite set of entries below a root directory. An `Address` tells where an entry is:
the names on the way, from the entry outward. So the directory that holds an entry is the tail of
its address, and what lies below a directory has an address that ends in that of the directory.

Every tree is well formed: no two entries have one address, the root is no entry, and whatever holds
an entry is a directory. All names are texts: a tree with a name whose bytes are no UTF-8 is left out.

* `get?` looks an entry up; `put` makes one, where there is room for it. `erase` removes one with all
  that lies below it, which no command does, but can be done to a tree between two runs.
* `mem_entries_iff`: looking up and being listed are the same.
* `get?_put`: making an entry changes no other one.
-/

namespace CmsVariables

/-! ## Names and addresses -/

/-- A text that can be the name of an entry: not empty, neither dot nor double dot, without slash and
NUL character, and at most 255 bytes long. A name whose bytes are no UTF-8 is not such a text. -/
def isEntryName (s : String) : Bool :=
  s != "" && s != "." && s != ".." && !s.toList.contains '/' && !s.toList.contains '\x00' &&
    decide (s.utf8ByteSize ≤ 255)

/-- The name of an entry. -/
structure EntryName where
  text : String
  valid : isEntryName text = true
deriving DecidableEq, Repr

/-- The name that a text spells, if it can be one. -/
def EntryName.ofText? (s : String) : Option EntryName :=
  if h : isEntryName s = true then some ⟨s, h⟩ else none

/-- The names on the way to an entry, the name of the entry first. -/
abbrev Address := List EntryName

/-- The path of an address, without dots and links. -/
def Path.ofAddress (a : Address) : Path := .ofSegments true (a.reverse.map EntryName.text)

/-- The path `p` with names added. -/
def Path.below (p : Path) (ns : List EntryName) : Path := ns.foldl (fun q n => q.child n.text) p

/-! ## Entries -/

/-- Contents of files are compared byte by byte. -/
instance decidableEqContents : DecidableEq ByteArray := ByteArray.decEq

/-- What a tree holds at an address. -/
inductive Entry where
  | file (bytes : ByteArray)
  /-- A link to the place that a path leads to from the directory of the link. -/
  | link (target : Path)
  | directory
deriving DecidableEq

/-- A finite tree of entries. -/
structure FileTree where
  entries : List (Address × Entry)
  distinct : (entries.map Prod.fst).Nodup
  rooted : ∀ p ∈ entries, p.1 ≠ []
  closed : ∀ p ∈ entries, ∀ name dir, p.1 = name :: dir →
    dir = [] ∨ (dir, Entry.directory) ∈ entries
deriving DecidableEq

namespace FileTree

/-- The tree without any entry. -/
def empty : FileTree where
  entries := []
  distinct := List.nodup_nil
  rooted := by simp
  closed := by simp

/-- What is at an address. The root is a directory. -/
def get? (t : FileTree) (a : Address) : Option Entry :=
  if a = [] then some .directory else t.entries.lookup a

theorem get?_nil (t : FileTree) : t.get? [] = some .directory := rfl

theorem get?_of_ne_nil (t : FileTree) {a : Address} (h : a ≠ []) :
    t.get? a = t.entries.lookup a := if_neg h

/-- In a list without repeated keys the pair of a key is the one that look-up finds. -/
theorem lookup_eq_some_iff_mem {α β : Type} [BEq α] [LawfulBEq α] {l : List (α × β)} {k : α} {v : β}
    (h : (l.map Prod.fst).Nodup) : l.lookup k = some v ↔ (k, v) ∈ l := by
  induction l with
  | nil => simp
  | cons p l ih =>
    rw [List.map_cons, List.nodup_cons] at h
    by_cases hk : k = p.1
    · subst hk
      rw [List.lookup_cons_self, List.mem_cons]
      constructor
      · intro hv
        cases hv
        exact Or.inl rfl
      · rintro (hp | hmem)
        · rw [← hp]
        · exact absurd (List.mem_map_of_mem hmem) h.1
    · have hne : (k == p.1) = false := beq_eq_false_iff_ne.mpr hk
      rw [List.lookup_cons, hne, List.mem_cons]
      constructor
      · intro hv
        exact Or.inr ((ih h.2).mp hv)
      · rintro (hp | hmem)
        · exact absurd (congrArg Prod.fst hp) hk
        · exact (ih h.2).mpr hmem

theorem mem_entries_iff {t : FileTree} {a : Address} {e : Entry} :
    (a, e) ∈ t.entries ↔ a ≠ [] ∧ t.get? a = some e := by
  constructor
  · intro h
    have hne := t.rooted _ h
    exact ⟨hne, (t.get?_of_ne_nil hne).trans ((lookup_eq_some_iff_mem t.distinct).mpr h)⟩
  · rintro ⟨hne, h⟩
    rw [t.get?_of_ne_nil hne] at h
    exact (lookup_eq_some_iff_mem t.distinct).mp h

/-- What holds an entry is a directory. -/
theorem get?_tail {t : FileTree} {name : EntryName} {dir : Address} {e : Entry}
    (h : t.get? (name :: dir) = some e) : t.get? dir = some .directory := by
  have hmem := mem_entries_iff.mpr ⟨List.cons_ne_nil name dir, h⟩
  rcases t.closed _ hmem name dir rfl with rfl | hdir
  · rfl
  · exact (mem_entries_iff.mp hdir).2

/-! ## Making entries -/

/-- There is room for an entry: below a directory, and not in place of one. -/
def hasRoom (t : FileTree) : Address → Bool
  | [] => false
  | name :: dir =>
    t.get? dir == some .directory && t.get? (name :: dir) != some .directory

theorem ne_nil_of_hasRoom {t : FileTree} {a : Address} (h : t.hasRoom a = true) : a ≠ [] := by
  rintro rfl
  cases h

theorem not_directory_of_hasRoom {t : FileTree} {a : Address} (h : t.hasRoom a = true) :
    t.get? a ≠ some .directory := by
  cases a with
  | nil => cases h
  | cons name dir =>
    simp only [hasRoom, Bool.and_eq_true, bne_iff_ne] at h
    exact h.2

theorem tail_directory_of_hasRoom {t : FileTree} {name : EntryName} {dir : Address}
    (h : t.hasRoom (name :: dir) = true) : t.get? dir = some .directory := by
  simp only [hasRoom, Bool.and_eq_true, beq_iff_eq] at h
  exact h.1

/-- The entries other than the one at an address. -/
def others (t : FileTree) (a : Address) : List (Address × Entry) :=
  t.entries.filter fun p => decide (p.1 ≠ a)

theorem mem_others {t : FileTree} {a : Address} {p : Address × Entry} :
    p ∈ t.others a ↔ p ∈ t.entries ∧ p.1 ≠ a := by
  simp [others]

theorem nodup_others (t : FileTree) (a : Address) : ((t.others a).map Prod.fst).Nodup :=
  List.Pairwise.sublist (List.filter_sublist.map Prod.fst) t.distinct

/-- The tree with the entry `e` at an address that has room for it. An address without room keeps
what it has. -/
def put (t : FileTree) (a : Address) (e : Entry) : FileTree :=
  if h : t.hasRoom a = true then
    { entries := (a, e) :: t.others a
      distinct := by
        rw [List.map_cons, List.nodup_cons]
        refine ⟨?_, t.nodup_others a⟩
        intro hmem
        obtain ⟨p, hp, rfl⟩ := List.mem_map.mp hmem
        exact (mem_others.mp hp).2 rfl
      rooted := by
        intro p hp
        rcases List.mem_cons.mp hp with rfl | hp
        · exact ne_nil_of_hasRoom h
        · exact t.rooted p (mem_others.mp hp).1
      closed := by
        intro p hp name dir hdir
        have hold : dir ≠ [] → t.get? dir = some .directory →
            (dir, Entry.directory) ∈ (a, e) :: t.others a := by
          intro hne hget
          refine List.mem_cons_of_mem _ (mem_others.mpr ⟨mem_entries_iff.mpr ⟨hne, hget⟩, ?_⟩)
          rintro rfl
          exact not_directory_of_hasRoom h hget
        by_cases hne : dir = []
        · exact Or.inl hne
        · refine Or.inr (hold hne ?_)
          rcases List.mem_cons.mp hp with rfl | hp
          · cases hdir
            exact tail_directory_of_hasRoom h
          · have hmem := (mem_others.mp hp).1
            rw [show p = (name :: dir, p.2) from Prod.ext hdir rfl] at hmem
            exact get?_tail (mem_entries_iff.mp hmem).2 }
  else t

theorem get?_put {t : FileTree} {a b : Address} {e : Entry} (h : t.hasRoom a = true) :
    (t.put a e).get? b = if b = a then some e else t.get? b := by
  by_cases hb : b = []
  · subst hb
    rw [if_neg (ne_nil_of_hasRoom h).symm]
    rfl
  · rw [get?_of_ne_nil _ hb, get?_of_ne_nil _ hb]
    simp only [put, h, dif_pos]
    by_cases hba : b = a
    · subst hba
      simp
    · rw [if_neg hba, List.lookup_cons, beq_eq_false_iff_ne.mpr hba]
      apply Option.ext
      intro v
      show (t.others a).lookup b = some v ↔ t.entries.lookup b = some v
      rw [lookup_eq_some_iff_mem (t.nodup_others a), lookup_eq_some_iff_mem t.distinct, mem_others]
      exact ⟨fun hmem => hmem.1, fun hmem => ⟨hmem, hba⟩⟩

theorem put_of_not_hasRoom {t : FileTree} {a : Address} {e : Entry}
    (h : ¬t.hasRoom a = true) : t.put a e = t :=
  dif_neg h

/-! ## Removing entries -/

/-- The tree without the entry at an address and all that lies below it. -/
def erase (t : FileTree) (a : Address) : FileTree where
  entries := t.entries.filter fun p => !a.isSuffixOf p.1
  distinct := List.Pairwise.sublist (List.filter_sublist.map Prod.fst) t.distinct
  rooted := fun p hp => t.rooted p (List.mem_filter.mp hp).1
  closed := by
    intro p hp name dir hdir
    obtain ⟨hmem, hnot⟩ := List.mem_filter.mp hp
    rcases t.closed p hmem name dir hdir with hnil | hparent
    · exact Or.inl hnil
    · refine Or.inr (List.mem_filter.mpr ⟨hparent, ?_⟩)
      simp only [Bool.not_eq_true', ← Bool.not_eq_true, List.isSuffixOf_iff_suffix] at hnot ⊢
      intro hsuffix
      rw [hdir] at hnot
      exact hnot (hsuffix.trans (List.suffix_cons name dir))

/-! ## What lies below a directory -/

/-- The names on the way from a directory down to an address below it. -/
def namesBelow? (dir a : Address) : Option (List EntryName) :=
  if dir.isSuffixOf a && a != dir then some (a.take (a.length - dir.length)).reverse else none

/-- The entries below a directory, each with the names on the way down to it. -/
def below (t : FileTree) (dir : Address) : List (List EntryName × Entry) :=
  t.entries.filterMap fun p => (namesBelow? dir p.1).map fun names => (names, p.2)

/-- The names of the entries directly in a directory. -/
def namesIn (t : FileTree) (dir : Address) : List EntryName :=
  t.entries.filterMap fun p =>
    match p.1 with
    | name :: parent => if parent = dir then some name else none
    | [] => none

end FileTree

end CmsVariables
