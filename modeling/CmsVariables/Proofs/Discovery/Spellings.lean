import CmsVariables.Proofs.Discovery.Sources
import CmsVariables.Proofs.FileTree.Relocation
import CmsVariables.Proofs.Glob.Packages
import CmsVariables.Proofs.Path.Ascent

/-!
# Spellings of includes and ignores

A search compares paths by their components and resolves no double dot. In a tree without links the
place of a path is told by its spelling, so it can be said what this costs. As long as paths go up
alike, no place is found twice, and what lies under an ignore is left out. Another spelling of an
include leads to the same files below the same directory, but an ignore may leave out one of the
spellings only.

* `resolved_iff`: the files found are those that the includes find one by one.
* `resolved_singleton_iff`: what one include finds, told by the names below its directory.
* `files_discover_respelled`: what depends on the spelling, and what does not.
* `files_discover_not_respelled`: a detour in an include finds a file under two paths.
-/

namespace CmsVariables

open FileTree CmsVariables.Path

namespace Path

theorem extension?_of_components {p q : Path} {front front' : List Component} {c : Component}
    (hp : p.components = front ++ [c]) (hq : q.components = front' ++ [c]) :
    p.extension? = q.extension? := by
  unfold extension? fileName?
  rw [hp, hq, List.getLast?_concat, List.getLast?_concat]

/-- The segments after a path that ends with a name are those before the name. -/
theorem mem_dropLast_child_iff (p : Path) (n : EntryName) {s : String} (hs : isStep s = true) :
    s ∈ (p.child n.text).segments.dropLast ↔ s ∈ p.steps := by
  have hsegments : ∃ front, (p.child n.text).segments = front ++ [n.text] := by
    unfold child join
    split
    · exact ⟨[], rfl⟩
    split
    · exact ⟨_, rfl⟩
    · exact ⟨_, rfl⟩
  obtain ⟨front, hfront⟩ := hsegments
  have hsteps : p.steps ++ [n.text] = front.filter isStep ++ [n.text] := by
    have hchild := steps_below p [n]
    rw [below_cons, below_nil, steps, hfront, List.filter_append,
      List.filter_cons_of_pos n.isStep.1, List.filter_nil] at hchild
    exact hchild.symm
  rw [hfront, List.dropLast_concat, List.append_cancel_right hsteps, List.mem_filter]
  simp [hs]

end Path

namespace Discovery

open Glob

variable {d : Disk} {q : Discovery}

/-- The places of the files that a search finds, by the names on the way to them. -/
def Resolved (d : Disk) (q : Discovery) (names : List String) : Prop :=
  ∃ p ∈ (discover d q).files, d.namesTo p = names

/-- The search with one include. -/
def including (q : Discovery) (s : String) : Discovery := { q with includes := [s] }

/-- A file with one of the extensions lies below the directory `a`. -/
structure HasSource (d : Disk) (q : Discovery) (a : Address) (ns : List EntryName) : Prop where
  inside : ns ≠ []
  file : ∃ bytes, d.tree.get? (ns.reverse ++ a) = some (.file bytes)
  extension : ∃ x ∈ q.extensions, (Path.ofAddress (ns.reverse ++ a)).extension? = some x

/-! ## Includes one by one -/

theorem resolved_iff_finds {names : List String} :
    Resolved d q names ↔ ∃ p, Finds d q p ∧ d.namesTo p = names := by
  constructor
  · rintro ⟨p, hp, hnames⟩
    exact ⟨p, mem_sources_iff.mp (mem_of_mem_distinct hp), hnames⟩
  · rintro ⟨p, hfinds, hnames⟩
    obtain ⟨p', hp', hsame⟩ := exists_mem_distinct (mem_sources_iff.mpr hfinds)
    exact ⟨p', hp', (namesTo_congr hsame _).trans hnames⟩

/-- What is left out does not depend on the includes. -/
theorem isIgnored_including (q : Discovery) (includes : List String) (p : Path) :
    IsIgnored { q with includes := includes } p ↔ IsIgnored q p := by
  rw [← rules_any_iff, ← rules_any_iff]
  rfl

theorem isWanted_including (d : Disk) (q : Discovery) (includes : List String) (p : Path)
    (e : Entry) : IsWanted d { q with includes := includes } p e ↔ IsWanted d q p e := by
  constructor
  · intro h
    exact ⟨h.candidate, h.extension, fun hp => h.kept ((isIgnored_including q includes p).mpr hp)⟩
  · intro h
    exact ⟨h.candidate, h.extension, fun hp => h.kept ((isIgnored_including q includes p).mp hp)⟩

theorem isStart_iff (h : q.includes ≠ []) {start : Path} :
    IsStart d q start ↔ ∃ s ∈ q.includes, IsStart d (q.including s) start := by
  constructor
  · intro hstart
    cases hstart with
    | base hnone => exact absurd hnone h
    | @plain s hs hglob hexists =>
      exact ⟨s, hs, .plain (q := q.including s) List.mem_cons_self hglob hexists⟩
    | @pattern s p ps hs hglob hexpand hp hdir =>
      exact ⟨s, hs, .pattern (q := q.including s) List.mem_cons_self hglob hexpand hp hdir⟩
  · rintro ⟨s, hs, hstart⟩
    cases hstart with
    | base hnone => cases hnone
    | plain hs' hglob hexists =>
      obtain rfl := List.mem_singleton.mp hs'
      exact .plain hs hglob hexists
    | pattern hs' hglob hexpand hp hdir =>
      obtain rfl := List.mem_singleton.mp hs'
      exact .pattern hs hglob hexpand hp hdir

/-- A file is found if one of the includes finds it alone. -/
theorem resolved_iff (h : q.includes ≠ []) {names : List String} :
    Resolved d q names ↔ ∃ s ∈ q.includes, Resolved d (q.including s) names := by
  have hfinds (p : Path) :
      Finds d q p ↔ ∃ s ∈ q.includes, Finds d (q.including s) p := by
    unfold Finds
    constructor
    · rintro ⟨start, e, hstart, hmeets, hwanted⟩
      obtain ⟨s, hs, hstart⟩ := (isStart_iff h).mp hstart
      exact ⟨s, hs, start, e, hstart, hmeets, (isWanted_including d q [s] p e).mpr hwanted⟩
    · rintro ⟨s, hs, start, e, hstart, hmeets, hwanted⟩
      exact ⟨start, e, (isStart_iff h).mpr ⟨s, hs, hstart⟩, hmeets,
        (isWanted_including d q [s] p e).mp hwanted⟩
  simp only [resolved_iff_finds, hfinds]
  constructor
  · rintro ⟨p, ⟨s, hs, hp⟩, hnames⟩
    exact ⟨s, hs, p, hp, hnames⟩
  · rintro ⟨s, hs, p, hp, hnames⟩
    exact ⟨p, ⟨s, hs, hp⟩, hnames⟩

/-! ## What one include finds -/

theorem components_ofAddress (a : Address) :
    (Path.ofAddress a).components = .root :: a.reverse.map fun n => .name n.text := by
  have hstep (n : EntryName) : stepOf n.text = .name n.text := if_neg n.isStep.2
  rw [components_of_rooted rfl, steps_ofAddress, List.map_map]
  simp [Function.comp_def, hstep]

theorem extension?_below (p : Path) {ns : List EntryName} (h : ns ≠ []) (a : Address) :
    (p.below ns).extension? = (Path.ofAddress (ns.reverse ++ a)).extension? := by
  obtain ⟨front, n, rfl⟩ := (List.eq_nil_or_concat ns).resolve_left h
  rw [List.concat_eq_append, reverse_concat_append, below_concat]
  have hlast : (Path.ofAddress (n :: (front.reverse ++ a))).components =
      (.root :: (front.reverse ++ a).reverse.map fun n => .name n.text) ++ [.name n.text] := by
    rw [components_ofAddress, List.reverse_cons, List.map_append]
    rfl
  exact extension?_of_components (components_child _ n) hlast

/-- From a path to a directory a search meets just what lies below the directory. -/
theorem meets_iff (hlinks : d.tree.LinkFree) {start p : Path} {a : Address} {e : Entry}
    (hstat : d.stat start = .ok (a, .directory)) (he : e ≠ .directory) :
    d.Meets start p e ↔
      ∃ ns, ns ≠ [] ∧ p = start.below ns ∧ d.tree.get? (ns.reverse ++ a) = some e := by
  constructor
  · intro h
    cases h with
    | start hentry =>
      rw [Disk.entryAt_eq_stat hlinks, hstat] at hentry
      cases hentry
      exact absurd rfl he
    | @inside p b henters name _ hget =>
      obtain ⟨ns, rfl, rfl, -⟩ := (Disk.enters_iff hstat).mp henters
      refine ⟨ns ++ [name], by simp, (start.below_concat ns name).symm, ?_⟩
      rw [reverse_concat_append]
      exact hget
  · rintro ⟨ns, hne, rfl, hget⟩
    obtain ⟨front, n, rfl⟩ := (List.eq_nil_or_concat ns).resolve_left hne
    rw [List.concat_eq_append, reverse_concat_append] at hget
    rw [List.concat_eq_append, below_concat]
    exact .inside ((Disk.enters_iff hstat).mpr ⟨front, rfl, rfl, get?_tail hget⟩) hget

theorem names_below (hlinks : d.tree.LinkFree) {start : Path} {a : Address} {e : Entry}
    (hstat : d.stat start = .ok (a, e)) (ns : List EntryName) :
    d.namesTo (start.below ns) = (ns.reverse ++ a).map EntryName.text := by
  rw [Disk.namesTo, namesTo_eq, rooted_below, steps_below, namesFrom_append, ← namesTo_eq,
    ← Disk.namesTo, ← Disk.names_of_stat hlinks hstat, namesFrom_names, List.map_append,
    List.map_reverse]

/-- One include finds the files with an extension below its directory that are not ignored under its
spelling. -/
theorem resolved_singleton_iff (hlinks : d.tree.LinkFree) {s : String} {a : Address}
    (hglob : isGlob s = false)
    (hstat : d.stat (q.base.join (.ofText s)) = .ok (a, .directory)) {names : List String} :
    Resolved d (q.including s) names ↔
      ∃ ns, HasSource d q a ns ∧ ¬IsIgnored q ((q.base.join (.ofText s)).below ns) ∧
        (ns.reverse ++ a).map EntryName.text = names := by
  rw [resolved_iff_finds]
  constructor
  · rintro ⟨p, ⟨start, e, hstart, hmeets, hwanted⟩, rfl⟩
    obtain rfl : start = q.base.join (.ofText s) := by
      cases hstart with
      | base hnone => cases hnone
      | plain hs => rw [List.mem_singleton.mp hs]; rfl
      | pattern hs hglob' =>
        rw [List.mem_singleton.mp hs, hglob] at hglob'
        cases hglob'
    replace hwanted := (isWanted_including d q [s] p e).mp hwanted
    obtain ⟨ns, hne, rfl, hget⟩ := (meets_iff hlinks hstat hwanted.ne_directory).mp hmeets
    refine ⟨ns, ⟨hne, ?_, ?_⟩, hwanted.kept, (names_below hlinks hstat ns).symm⟩
    · rcases hwanted.candidate with ⟨bytes, rfl⟩ | ⟨⟨target, rfl⟩, -⟩
      · exact ⟨bytes, hget⟩
      · exact absurd hget (hlinks _ target)
    · rw [← extension?_below (q.base.join (.ofText s)) hne a]
      exact hwanted.extension
  · rintro ⟨ns, hsource, hkept, rfl⟩
    obtain ⟨bytes, hget⟩ := hsource.file
    have hextension := hsource.extension
    rw [← extension?_below (q.base.join (.ofText s)) hsource.inside a] at hextension
    have hexists : d.exists? (q.base.join (.ofText s)) = true := Disk.exists?_iff.mpr ⟨_, hstat⟩
    refine ⟨_, ⟨_, .file bytes, .plain (q := q.including s) List.mem_cons_self hglob hexists, ?_,
      (isWanted_including d q [s] _ _).mpr ?_⟩, names_below hlinks hstat ns⟩
    · exact (meets_iff hlinks hstat (by simp)).mpr ⟨ns, hsource.inside, rfl, hget⟩
    · exact ⟨Or.inl ⟨bytes, rfl⟩, hextension, hkept⟩

/-! ## Another spelling of an include -/

/-- Two includes that are no patterns lead to the directory `a`. -/
structure Respells (d : Disk) (q : Discovery) (s s' : String) (a : Address) : Prop where
  plain : isGlob s = false
  plain' : isGlob s' = false
  leads : d.stat (q.base.join (.ofText s)) = .ok (a, .directory)
  leads' : d.stat (q.base.join (.ofText s')) = .ok (a, .directory)

/-- The search finds files in the same places with the include `s` and with `s'` in its place. -/
def FindsAlike (d : Disk) (q : Discovery) (front : List String) (s s' : String)
    (back : List String) : Prop :=
  ∀ names, Resolved d { q with includes := front ++ s' :: back } names ↔
    Resolved d { q with includes := front ++ s :: back } names

/-- A file below the directory `a` is ignored under both spellings or under neither. -/
def IgnoredAlike (q : Discovery) (s s' : String) (ns : List EntryName) : Prop :=
  IsIgnored q ((q.base.join (.ofText s)).below ns) ↔
    IsIgnored q ((q.base.join (.ofText s')).below ns)

section Respelling

variable {front back : List String} {s s' : String} {a : Address}

theorem resolved_insert_iff {names : List String} :
    Resolved d { q with includes := front ++ s :: back } names ↔
      (∃ t ∈ front ++ back, Resolved d (q.including t) names) ∨
        Resolved d (q.including s) names := by
  rw [resolved_iff (by simp)]
  simp only [List.mem_append, List.mem_cons]
  constructor
  · rintro ⟨t, ht | rfl | ht, hfound⟩
    · exact Or.inl ⟨t, Or.inl ht, hfound⟩
    · exact Or.inr hfound
    · exact Or.inl ⟨t, Or.inr ht, hfound⟩
  · rintro (⟨t, ht | ht, hfound⟩ | hfound)
    · exact ⟨t, Or.inl ht, hfound⟩
    · exact ⟨t, Or.inr (Or.inr ht), hfound⟩
    · exact ⟨s, Or.inr (Or.inl rfl), hfound⟩

theorem eq_of_names {ns ns' : List EntryName}
    (h : (ns.reverse ++ a).map EntryName.text = (ns'.reverse ++ a).map EntryName.text) :
    ns = ns' := by
  have hreverse :=
    List.append_cancel_right (List.map_injective_iff.mpr EntryName.text_injective h)
  exact List.reverse_injective hreverse

theorem resolved_below_iff (hlinks : d.tree.LinkFree) (hglob : isGlob s = false)
    (hstat : d.stat (q.base.join (.ofText s)) = .ok (a, .directory)) {ns : List EntryName}
    (hsource : HasSource d q a ns) :
    Resolved d (q.including s) ((ns.reverse ++ a).map EntryName.text) ↔
      ¬IsIgnored q ((q.base.join (.ofText s)).below ns) := by
  rw [resolved_singleton_iff hlinks hglob hstat]
  constructor
  · rintro ⟨ns', -, hkept, hnames⟩
    exact eq_of_names hnames ▸ hkept
  · intro hkept
    exact ⟨ns, hsource, hkept, rfl⟩

/-- The same files are found if and only if each file that no other include finds is ignored under
both spellings or under neither. -/
theorem findsAlike_iff (hlinks : d.tree.LinkFree) (h : Respells d q s s' a) :
    FindsAlike d q front s s' back ↔ ∀ ns, HasSource d q a ns →
      (∃ t ∈ front ++ back, Resolved d (q.including t) ((ns.reverse ++ a).map EntryName.text)) ∨
        IgnoredAlike q s s' ns := by
  unfold FindsAlike IgnoredAlike
  simp only [resolved_insert_iff]
  constructor
  · intro halike ns hsource
    refine or_iff_not_imp_left.mpr fun hothers => ?_
    have hnames := halike ((ns.reverse ++ a).map EntryName.text)
    rw [or_iff_right hothers, or_iff_right hothers,
      resolved_below_iff hlinks h.plain' h.leads' hsource,
      resolved_below_iff hlinks h.plain h.leads hsource, not_iff_not] at hnames
    exact hnames.symm
  · intro hignored names
    -- a file below the directory is found alike; all others are found by other includes
    have hfound (s s' : String) (h : Respells d q s s' a)
        (hignored : ∀ ns, HasSource d q a ns →
          (∃ t ∈ front ++ back,
            Resolved d (q.including t) ((ns.reverse ++ a).map EntryName.text)) ∨
          IgnoredAlike q s s' ns) (hs : Resolved d (q.including s) names) :
        (∃ t ∈ front ++ back, Resolved d (q.including t) names) ∨
          Resolved d (q.including s') names := by
      obtain ⟨ns, hsource, hkept, rfl⟩ :=
        (resolved_singleton_iff hlinks h.plain h.leads).mp hs
      refine (hignored ns hsource).imp_right fun halike => ?_
      exact (resolved_below_iff hlinks h.plain' h.leads' hsource).mpr fun hs' =>
        hkept (halike.mpr hs')
    have hswap : Respells d q s' s a := ⟨h.plain', h.plain, h.leads', h.leads⟩
    constructor
    · rintro (hothers | hs')
      · exact Or.inl hothers
      · exact hfound s' s hswap (fun ns hns => (hignored ns hns).imp_right Iff.symm) hs'
    · rintro (hothers | hs)
      · exact Or.inl hothers
      · exact hfound s s' h hignored hs

theorem findsAlike_of_ignoredAlike (hlinks : d.tree.LinkFree) (h : Respells d q s s' a)
    (halike : ∀ ns, ns ≠ [] → IgnoredAlike q s s' ns) : FindsAlike d q front s s' back :=
  (findsAlike_iff hlinks h).mpr fun ns hsource => Or.inr (halike ns hsource.inside)

/-- Where nothing is left out, no spelling is. -/
theorem not_isIgnored (hignores : q.ignores = []) (hflag : q.ignoreNodeModules = false)
    (p : Path) : ¬IsIgnored q p := by
  intro h
  cases h with
  | under hs => exact absurd hs (hignores ▸ List.not_mem_nil)
  | matching hs => exact absurd hs (hignores ▸ List.not_mem_nil)
  | inPackages hflag' =>
    rw [hflag] at hflag'
    cases hflag'

/-- Packages are left out under a path as under any other one with the same components. -/
theorem acceptsText_below_congr {p p' : Path} (hp : p.SlashFree) (hp' : p'.SlashFree)
    (h : p.components = p'.components) {ns : List EntryName} (hne : ns ≠ []) :
    (inDirectory "node_modules").acceptsText (p.below ns).text = true ↔
      (inDirectory "node_modules").acceptsText (p'.below ns).text = true := by
  rw [acceptsText_inDirectory_iff (by decide) (by decide) (hp.below ns),
    acceptsText_inDirectory_iff (by decide) (by decide) (hp'.below ns)]
  obtain ⟨front, n, rfl⟩ := (List.eq_nil_or_concat ns).resolve_left hne
  have hsteps : (p.below front).steps = (p'.below front).steps := by
    rw [steps_below, steps_below, steps_congr h]
  rw [List.concat_eq_append, below_concat, below_concat, mem_dropLast_child_iff _ n (by decide),
    mem_dropLast_child_iff _ n (by decide), hsteps]

theorem ignoredAlike_of_components (hignores : ∀ t ∈ q.ignores, isGlob t = false)
    (hbase : q.ignoreNodeModules = true → q.base.SlashFree)
    (h : (q.base.join (.ofText s)).components = (q.base.join (.ofText s')).components)
    {ns : List EntryName} (hne : ns ≠ []) : IgnoredAlike q s s' ns := by
  have hspelled (s : String) (hflag : q.ignoreNodeModules = true) :
      (q.base.join (.ofText s)).SlashFree := (hbase hflag).join (slashFree_ofText s)
  have himp {s s' : String}
      (h : (q.base.join (.ofText s)).components = (q.base.join (.ofText s')).components)
      (hignored : IsIgnored q ((q.base.join (.ofText s)).below ns)) :
      IsIgnored q ((q.base.join (.ofText s')).below ns) := by
    cases hignored with
    | under ht hglob hbegins =>
      refine .under ht hglob ?_
      rw [components_below, ← h, ← components_below]
      exact hbegins
    | matching ht hglob =>
      rw [hignores _ ht] at hglob
      cases hglob
    | inPackages hflag hcompile haccepts =>
      obtain rfl := Except.ok.inj (compile_nodeModulesPattern.symm.trans hcompile)
      exact .inPackages hflag hcompile
        ((acceptsText_below_congr (hspelled s hflag) (hspelled s' hflag) h hne).mp haccepts)
  exact ⟨himp h, himp h.symm⟩

end Respelling

/-! ## What depends on the spelling -/

/-- What the spelling of includes and ignores does to a search. -/
structure SpellingLaws (d : Disk) (q : Discovery) : Prop where
  /-- No place is found under two paths that go up alike. -/
  once : ∀ p ∈ (discover d q).files, ∀ p' ∈ (discover d q).files,
    UpAlike p p' → d.namesTo p = d.namesTo p' → p = p'
  /-- Nothing is found under the place of an ignore if the paths go up alike. -/
  kept : ∀ p ∈ (discover d q).files, ∀ s ∈ q.ignores, isGlob s = false →
    UpAlike (q.base.join (.ofText s)) p →
      ¬d.namesTo (q.base.join (.ofText s)) <:+ d.namesTo p
  /-- When another spelling of an include finds the same files. -/
  respelled : ∀ front s s' back a, Respells d q s s' a →
    (FindsAlike d q front s s' back ↔ ∀ ns, HasSource d q a ns →
      (∃ t ∈ front ++ back, Resolved d (q.including t) ((ns.reverse ++ a).map EntryName.text)) ∨
        IgnoredAlike q s s' ns)
  /-- Single dots in an include make no difference. -/
  dotted : (∀ t ∈ q.ignores, isGlob t = false) →
    (q.ignoreNodeModules = true → q.base.SlashFree) →
    ∀ front s s' back a, Respells d q s s' a →
      (q.base.join (.ofText s)).components = (q.base.join (.ofText s')).components →
        FindsAlike d q front s s' back
  /-- Without ignores double dots make none either. -/
  unignored : q.ignores = [] → q.ignoreNodeModules = false →
    ∀ front s s' back a, Respells d q s s' a →
      FindsAlike d q front s s' back

end Discovery

open Discovery Glob

/-- In a tree without links no file is found under two paths, and none under the place of an ignore,
unless one of the paths goes up where the other one does not. Another spelling of an include finds
the same files just where ignores treat both spellings alike; so it is for single dots, and for all
spellings if nothing is ignored. -/
theorem files_discover_respelled {d : Disk} (hlinks : d.tree.LinkFree) (q : Discovery) :
    SpellingLaws d q where
  once p hp p' hp' halike hplace := eq_of_mem_distinct hp hp' (halike.components_eq hplace)
  kept p hp s hs hglob halike hplace := by
    obtain ⟨start, e, -, -, hwanted⟩ := mem_sources_iff.mp (mem_of_mem_distinct hp)
    exact hwanted.kept (.under hs hglob ((halike.prefix_iff _).mpr hplace))
  respelled front s s' back a h := findsAlike_iff hlinks h
  dotted hignores hbase front s s' back a h hsame :=
    findsAlike_of_ignoredAlike hlinks h fun _ =>
      ignoredAlike_of_components hignores hbase hsame
  unignored hignores hflag front s s' back a h :=
    findsAlike_of_ignoredAlike hlinks h fun _ _ =>
      iff_of_false (not_isIgnored hignores hflag _) (not_isIgnored hignores hflag _)

/-! ## Detours -/

namespace Discovery

/-- A source below `src`, and a directory `lib` to make a detour through. -/
def detours : Disk where
  tree := ((FileTree.empty.put [⟨"lib", Eq.refl true⟩] .directory).put
    [⟨"src", Eq.refl true⟩] .directory).put [⟨"a.js", Eq.refl true⟩, ⟨"src", Eq.refl true⟩] (.file .empty)
  here := []

theorem linkFree_detours : detours.tree.LinkFree := by
  refine ((linkFree_empty.put _ ?_).put _ ?_).put _ ?_
  all_goals
    intro target h
    cases h

/-- The search for scripts from the root. -/
def scripts (includes ignores : List String) : Discovery where
  base := .root
  includes := includes
  ignores := ignores
  extensions := ["js"]
  ignoreNodeModules := true

theorem mem_files_iff {d : Disk} {q : Discovery} {p : Path} : p ∈ (discover d q).files ↔
    ((starts d q).flatMap (sourcesFrom d q)).find? p.sameSteps = some p :=
  mem_distinct_iff

/-- With `lib` ignored, `src/.` finds what `src` finds, and `lib/../src` does not. -/
theorem files_discover_respelled_detours :
    detours.tree.LinkFree ∧
      ofText "/src/a.js" ∈ (discover detours (scripts ["src", "src/."] ["lib"])).files ∧
      UpAlike (Path.root.join (ofText "lib")) (ofText "/src/a.js") ∧
      ¬detours.namesTo (Path.root.join (ofText "lib")) <:+ detours.namesTo (ofText "/src/a.js") ∧
      FindsAlike detours (scripts [] ["lib"]) [] "src" "src/." [] ∧
      FindsAlike detours { scripts [] [] with ignoreNodeModules := false } [] "src" "lib/../src" [] ∧
      ¬FindsAlike detours (scripts [] ["lib"]) [] "src" "lib/../src" [] := by
  have hlinks := linkFree_detours
  have hlaws := files_discover_respelled hlinks (scripts ["src", "src/."] ["lib"])
  have hfound : ofText "/src/a.js" ∈ (discover detours (scripts ["src", "src/."] ["lib"])).files :=
    mem_files_iff.mpr (by decide +kernel)
  have halike : UpAlike (Path.root.join (ofText "lib")) (ofText "/src/a.js") :=
    upAlike_of_notMem (by decide) (by decide) (by decide)
  have hdot : Respells detours (scripts [] ["lib"]) "src" "src/." [⟨"src", by decide⟩] :=
    ⟨by decide, by decide, rfl, rfl⟩
  have hdetour (q : Discovery) (hq : q.base = .root) :
      Respells detours q "src" "lib/../src" [⟨"src", by decide⟩] :=
    ⟨by decide, by decide, by rw [hq]; rfl, by rw [hq]; rfl⟩
  refine ⟨hlinks, hfound, halike, ?_, ?_, ?_, ?_⟩
  · exact hlaws.kept _ hfound "lib" (by decide) (by decide) halike
  · exact (files_discover_respelled hlinks (scripts [] ["lib"])).dotted (by decide)
      (fun _ => by unfold SlashFree; decide) _ _ _ _ _ hdot (by decide)
  · exact (files_discover_respelled hlinks _).unignored rfl rfl _ _ _ _ _ (hdetour _ rfl)
  · intro hsame
    have hiff := ((files_discover_respelled hlinks (scripts [] ["lib"])).respelled _ _ _ _ _
      (hdetour _ rfl)).mp hsame
    have hsource : HasSource detours (scripts [] ["lib"]) [⟨"src", by decide⟩]
        [⟨"a.js", by decide⟩] :=
      ⟨by decide, ⟨.empty, by decide +kernel⟩, ⟨"js", by decide, by decide +kernel⟩⟩
    rcases hiff _ hsource with ⟨t, ht, -⟩ | hignored
    · cases ht
    · unfold IgnoredAlike at hignored
      rw [← rules_any_iff, ← rules_any_iff] at hignored
      revert hignored
      decide +kernel

/-- A detour in an include finds a file under two paths, finds it though it is ignored, or misses it
because the detour is. -/
theorem files_discover_not_respelled :
    (¬∀ (d : Disk) (q : Discovery), d.tree.LinkFree →
      (∀ s ∈ q.includes ++ q.ignores, isGlob s = false) →
        ∀ p ∈ (discover d q).files, ∀ p' ∈ (discover d q).files,
          d.namesTo p = d.namesTo p' → p = p') ∧
    (¬∀ (d : Disk) (q : Discovery), d.tree.LinkFree →
      (∀ s ∈ q.includes ++ q.ignores, isGlob s = false) →
        ∀ p ∈ (discover d q).files, ∀ s ∈ q.ignores,
          ¬d.namesTo (q.base.join (.ofText s)) <:+ d.namesTo p) ∧
    ¬∀ (d : Disk) (q : Discovery), d.tree.LinkFree →
      (∀ s ∈ q.includes ++ q.ignores, isGlob s = false) →
        ∀ front s s' back a, q.includes = front ++ s :: back → Respells d q s s' a →
          FindsAlike d q front s s' back := by
  refine ⟨?_, ?_, ?_⟩
  · intro h
    have heq := h detours (scripts ["src", "lib/../src"] []) linkFree_detours (by decide)
      (ofText "/src/a.js") (mem_files_iff.mpr (by decide +kernel))
      (ofText "/lib/../src/a.js") (mem_files_iff.mpr (by decide +kernel)) (by decide)
    revert heq
    decide
  · intro h
    have hnot := h detours (scripts ["lib/../src"] ["src"]) linkFree_detours (by decide)
      (ofText "/lib/../src/a.js") (mem_files_iff.mpr (by decide +kernel)) "src" (by decide)
    revert hnot
    decide
  · intro h
    have hsame := h detours (scripts ["src"] ["lib"]) linkFree_detours (by decide) [] "src"
      "lib/../src" [] [⟨"src", by decide⟩] rfl ⟨by decide, by decide, rfl, rfl⟩
      ["a.js", "src"]
    have hfound : Resolved detours (scripts ["src"] ["lib"]) ["a.js", "src"] :=
      ⟨ofText "/src/a.js", mem_files_iff.mpr (by decide +kernel), by decide⟩
    obtain ⟨p, hp, -⟩ := hsame.mpr hfound
    have hnone : (starts detours (scripts ["lib/../src"] ["lib"])).flatMap
        (sourcesFrom detours (scripts ["lib/../src"] ["lib"])) = [] := by decide +kernel
    have hmem := mem_of_mem_distinct hp
    exact absurd (hnone ▸ hmem) List.not_mem_nil

end Discovery

end CmsVariables
