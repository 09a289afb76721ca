import CmsVariables.Proofs.Discovery.Sources
import CmsVariables.Proofs.Glob.Relocation

/-!
# Searching a copy

A search from a directory that holds a copy of a tree finds the same files wherever the directory
lies, as long as it looks at what is below the directory only. Two things reach above it. The
pattern for packages is matched with whole paths; so if the directory lies below one for packages,
all is left out. And the names above the directory become a part of patterns among the includes.

What is left open: patterns among the includes below a directory with a star, a question mark or an
opening bracket in its path, which are taken for wildcards, and those with a component that begins
with a dot and matches the double dot, which lead out of the directory. So are directories whose path
is no UTF-8: paths are texts here.

* `starts_moved`: where the searches walk.
* `isSource_under`: what they keep.
* `files_discover_relocated`: what they find.
* `files_discover_not_relocated`: each of the conditions is needed.
-/

namespace CmsVariables

open FileTree CmsVariables.Path

variable {t : FileTree} {d : Disk} {a : Address} {r : List String}

namespace Discovery

open Glob

variable {q : Discovery}

/-- The search from the directory at an address. -/
def startingAt (q : Discovery) (a : Address) : Discovery := { q with base := .ofAddress a }

/-- Includes and ignores lead from the base, includes without a double dot, and no ignore is a
pattern. -/
structure Relative (q : Discovery) : Prop where
  includes : ∀ s ∈ q.includes, (ofText s).rooted = false ∧ ".." ∉ (ofText s).segments
  ignores : ∀ s ∈ q.ignores, (ofText s).rooted = false ∧ isGlob s = false

/-- No pattern among the includes has a component that leads up. -/
def PatternsDescend (q : Discovery) : Prop :=
  ∀ s ∈ q.includes, isGlob s = true → ∀ c ∈ (ofText s).segments, ¬LeadsUp c

/-- The names above the base are no wildcards if they become a part of a pattern. -/
def PlainBase (q : Discovery) (a : Address) : Prop :=
  (∃ s ∈ q.includes, isGlob s = true) → ∀ n ∈ a, Plain n.text

/-! ## Where to walk -/

theorem getD_startsOf (d : Disk) (base : Path) (s : String) :
    (startsOf d base s).toOption.getD [] =
      if isGlob s then ((expand d (base.join (.ofText s))).toOption.getD []).filter d.isDirectory
      else if d.exists? (base.join (.ofText s)) then [base.join (.ofText s)] else [] := by
  rw [startsOf]
  split
  · cases expand d (base.join (.ofText s)) <;> rfl
  · split <;> rfl

theorem segments_ne_of_isGlob {s : String} (h : isGlob s = true)
    (hrooted : (ofText s).rooted = false) : (ofText s).segments ≠ [""] := by
  intro hsegments
  have htext := text_ofText s
  rw [Path.text, hrooted, hsegments] at htext
  rw [← htext] at h
  revert h
  decide

theorem starts_moved (h : d.Holds a t) (hlinks : t.LinkFree) (hq : q.Relative)
    (hup : q.PatternsDescend) (hplain : q.PlainBase a) :
    List.Forall₂ (Moved a) (starts t.disk (q.startingAt [])) (starts d (q.startingAt a)) := by
  rw [starts, starts]
  show List.Forall₂ (Moved a) (if q.includes = [] then [ofAddress []] else _)
    (if q.includes = [] then [ofAddress a] else _)
  split
  · exact .cons ⟨[], List.forall_mem_nil _, (under_nil []).symm, (under_nil a).symm⟩ .nil
  refine forall₂_flatMap fun s hs => ?_
  obtain ⟨hrooted, hdouble⟩ := hq.includes s hs
  have hne := segments_ofText_ne_nil s
  have hr : Descends (ofText s).segments := fun c hc =>
    ⟨fun heq => hdouble (heq ▸ hc), slash_notMem_segments s c hc⟩
  show List.Forall₂ (Moved a) ((startsOf t.disk (ofAddress []) s).toOption.getD [])
    ((startsOf d (ofAddress a) s).toOption.getD [])
  rw [getD_startsOf, getD_startsOf, join_ofAddress _ hrooted hne, join_ofAddress _ hrooted hne,
    h.exists?_under hlinks hr]
  split
  · rename_i hglob
    refine List.rel_filter ?_ (expand_moved h hlinks (hplain ⟨s, hs, hglob⟩) hr hne
      (segments_ne_of_isGlob hglob hrooted) (hup s hs hglob))
    rintro _ _ ⟨r, hr, rfl, rfl⟩
    exact (Bool.eq_iff_iff.mp (h.isDirectory_under hlinks hr)).symm
  · split
    · exact .cons ⟨_, hr, rfl, rfl⟩ .nil
    · exact .nil

/-! ## What is met -/

/-- What a walk in the tree meets, each with the segments that lead there. -/
def visits (t : FileTree) (r : List String) : List (List String × Entry) :=
  match t.disk.stat (under [] r) with
  | .ok (b, .directory) => (r, .directory) :: (t.below b).map fun x => (extendAll r x.1, x.2)
  | .ok (_, e) => [(r, e)]
  | .error _ => []

theorem below_perm (h : d.Holds a t) (b : Address) :
    (d.tree.below (b ++ a)).Perm (t.below b) := by
  refine (List.perm_ext_iff_of_nodup (nodup_below _ _).of_map (nodup_below _ _).of_map).mpr ?_
  rintro ⟨ns, e⟩
  rw [mem_below_iff, mem_below_iff, ← List.append_assoc, h]

/-- A walk in the copy meets what a walk in the tree meets. -/
theorem sourcesFrom_under (h : d.Holds a t) (hlinks : t.LinkFree) (hr : Descends r)
    (q : Discovery) : (sourcesFrom d q (under a r)).Perm
      (((visits t r).filter fun x => isSource d q ⟨under a x.1, x.2⟩).map fun x => under a x.1) := by
  have hpaths (vs : List (List String × Entry)) :
      ((vs.map fun x => (⟨under a x.1, x.2⟩ : Disk.Visit)).filter (isSource d q)).map
        Disk.Visit.path =
      (vs.filter fun x => isSource d q ⟨under a x.1, x.2⟩).map fun x => under a x.1 := by
    rw [List.filter_map, List.map_map]
    rfl
  have hentry : d.entryAt (under a r) = d.stat (under a r) := by
    rw [h.entryAt_under hlinks hr, h.stat_under hlinks hr, Disk.entryAt_eq_stat hlinks]
  rw [sourcesFrom, Disk.walk, hentry, h.stat_under hlinks hr, visits]
  cases t.disk.stat (under [] r) with
  | error e => exact .refl _
  | ok x =>
    obtain ⟨b, e⟩ := x
    cases e with
    | file bytes => exact .of_eq (hpaths [(r, .file bytes)])
    | link target => exact .of_eq (hpaths [(r, .link target)])
    | directory =>
      refine .trans ?_ (.of_eq (hpaths _))
      refine (List.Perm.filter _ (.cons _ ?_)).map _
      rw [List.map_map]
      simp only [below_under]
      exact (below_perm h b).map _

/-- What is met in a tree without links lies below the start, no link, and files lie deeper than the
root. -/
theorem mem_visits (hlinks : t.LinkFree) (hr : Descends r) {x : List String × Entry}
    (hx : x ∈ visits t r) : Descends x.1 ∧ (∀ target, x.2 ≠ .link target) ∧
      (x.2 ≠ .directory → 0 < depth x.1) := by
  rw [visits] at hx
  split at hx
  · rename_i b hstat
    rcases List.mem_cons.mp hx with rfl | hx
    · exact ⟨hr, fun _ => nofun, fun h => absurd rfl h⟩
    · obtain ⟨⟨ns, e⟩, hbelow, rfl⟩ := List.mem_map.mp hx
      obtain ⟨hne, hget⟩ := mem_below_iff.mp hbelow
      refine ⟨hr.extendAll ns, fun target he => hlinks _ target (hget.trans (congrArg some he)), ?_⟩
      intro _
      rw [depth_extendAll]
      exact Nat.add_pos_right _ (List.length_pos_of_ne_nil hne)
  · rename_i b e hnot hstat
    obtain rfl := List.mem_singleton.mp hx
    obtain ⟨place, -, rfl, hget⟩ := Disk.stat_eq_ok_iff.mp hstat
    refine ⟨hr, fun target he => hlinks _ target (hget.trans (congrArg some he)), fun hdir => ?_⟩
    rw [← Disk.length_of_stat hlinks hr hstat]
    refine List.length_pos_of_ne_nil fun hnil => hdir ?_
    rw [hnil] at hget
    exact (Option.some.inj hget).symm
  · cases hx

/-! ## What is kept -/

/-- Ignores and the pattern for packages, told by the segments below the base. -/
theorem isIgnored_under (a : Address) (hq : q.Relative) (hr : Descends r) (hdeep : 0 < depth r) :
    IsIgnored (q.startingAt a) (under a r) ↔
      (∃ s ∈ q.ignores, (ofText s).steps <+: r.filter isStep) ∨ q.ignoreNodeModules = true ∧
        ("node_modules" ∈ a.map EntryName.text ∨ "node_modules" ∈ r.dropLast) := by
  have hne : r ≠ [] := fun hnil => by
    rw [hnil] at hdeep
    exact absurd hdeep (lt_irrefl 0)
  have hliteral (s : String) (hs : s ∈ q.ignores) :
      ((ofAddress a).join (ofText s)).components <+: (under a r).components ↔
        (ofText s).steps <+: r.filter isStep := by
    rw [join_ofAddress a (hq.ignores s hs).1 (segments_ofText_ne_nil s), components_under,
      components_under, List.prefix_append_right_inj,
      List.prefix_map_iff_of_injective stepOf_injective]
    rfl
  have hsegments : ∀ s ∈ (under a r).segments, '/' ∉ s.toList := by
    rw [under_of_ne_nil a hne]
    intro s hs
    rcases List.mem_append.mp hs with hs | hs
    · obtain ⟨n, -, rfl⟩ := List.mem_map.mp hs
      exact n.slash_notMem
    · exact (hr s hs).2
  have hpackages : (inDirectory "node_modules").acceptsText (under a r).text = true ↔
      "node_modules" ∈ a.map EntryName.text ∨ "node_modules" ∈ r.dropLast := by
    rw [acceptsText_inDirectory_iff (by decide) (by decide) hsegments, under_of_ne_nil a hne,
      List.dropLast_append_of_ne_nil hne, List.mem_append, List.map_reverse, List.mem_reverse]
  constructor
  · intro hignored
    cases hignored with
    | under hs _ hbegins => exact Or.inl ⟨_, hs, (hliteral _ hs).mp hbegins⟩
    | matching hs hglob =>
      rw [(hq.ignores _ hs).2] at hglob
      exact absurd hglob Bool.false_ne_true
    | inPackages hflag hcompile haccepts =>
      obtain rfl := Except.ok.inj (compile_nodeModulesPattern.symm.trans hcompile)
      exact Or.inr ⟨hflag, hpackages.mp haccepts⟩
  · rintro (⟨s, hs, hbegins⟩ | ⟨hflag, hmem⟩)
    · exact .under hs (hq.ignores s hs).2 ((hliteral s hs).mpr hbegins)
    · exact .inPackages hflag compile_nodeModulesPattern (hpackages.mpr hmem)

/-- The base lies in a directory for packages, which are left out. -/
def InPackages (q : Discovery) (a : Address) : Prop :=
  q.ignoreNodeModules = true ∧ "node_modules" ∈ a.map EntryName.text

instance (q : Discovery) (a : Address) : Decidable (InPackages q a) :=
  inferInstanceAs (Decidable (q.ignoreNodeModules = true ∧ "node_modules" ∈ a.map EntryName.text))

/-- What a walk keeps in the copy it keeps in the tree, unless it leaves all out. -/
theorem isSource_under (d : Disk) (a : Address) (hlinks : t.LinkFree) (hq : q.Relative)
    (hr : Descends r) {x : List String × Entry} (hx : x ∈ visits t r) :
    isSource d (q.startingAt a) ⟨under a x.1, x.2⟩ = true ↔ ¬InPackages q a ∧
      isSource t.disk (q.startingAt []) ⟨under [] x.1, x.2⟩ = true := by
  obtain ⟨hdescends, hlink, hfile⟩ := mem_visits hlinks hr hx
  obtain ⟨r', e⟩ := x
  rw [isSource_iff, isSource_iff]
  cases e with
  | link target => exact absurd rfl (hlink target)
  | directory =>
    exact iff_of_false (fun h => h.ne_directory rfl) fun h => h.2.ne_directory rfl
  | file bytes =>
    have hdeep : 0 < depth r' := hfile nofun
    have hkept : IsIgnored (q.startingAt a) (under a r') ↔
        InPackages q a ∨ IsIgnored (q.startingAt []) (under [] r') := by
      rw [isIgnored_under a hq hdescends hdeep, isIgnored_under [] hq hdescends hdeep, InPackages,
        List.map_nil]
      simp only [List.not_mem_nil, false_or, and_or_left]
      exact or_left_comm
    constructor
    · rintro ⟨-, hextension, hnot⟩
      rw [extension?_under a hdeep] at hextension
      rw [hkept, not_or] at hnot
      exact ⟨hnot.1, Or.inl ⟨bytes, rfl⟩, hextension, hnot.2⟩
    · rintro ⟨hpackages, -, hextension, hnot⟩
      rw [← extension?_under a hdeep] at hextension
      exact ⟨Or.inl ⟨bytes, rfl⟩, hextension, fun h => (hkept.mp h).elim hpackages hnot⟩

/-! ## What is found -/

/-- The segments that lead to the sources met on walks in the tree. -/
def sourceSegments (q : Discovery) (t : FileTree) (rs : List (List String)) :
    List (List String) :=
  rs.flatMap fun r => ((visits t r).filter fun x =>
    isSource t.disk (q.startingAt []) ⟨under [] x.1, x.2⟩).map Prod.fst

theorem files_of_starts (h : d.Holds a t) (hlinks : t.LinkFree) (hq : q.Relative)
    {rs : List (List String)} (hrs : ∀ r ∈ rs, Descends r)
    (hstarts : starts d (q.startingAt a) = rs.map (under a)) :
    (discover d (q.startingAt a)).files = if InPackages q a then [] else
      distinct ((sourceSegments q t rs).map (under a)) := by
  have hwalks : (discover d (q.startingAt a)).files = distinct (rs.flatMap fun r =>
      ((visits t r).filter fun x => isSource d (q.startingAt a) ⟨under a x.1, x.2⟩).map
        fun x => under a x.1) := by
    rw [discover, hstarts, List.flatMap_map]
    exact distinct_flatMap_congr (fun r hr => sourcesFrom_under h hlinks (hrs r hr) _)
      fun r _ => nodup_sourcesFrom d _ _
  rw [hwalks]
  split
  · rename_i hpackages
    have hnone : (rs.flatMap fun r => ((visits t r).filter fun x =>
        isSource d (q.startingAt a) ⟨under a x.1, x.2⟩).map fun x => under a x.1) = [] := by
      refine List.flatMap_eq_nil_iff.mpr fun r hr => ?_
      rw [List.map_eq_nil_iff, List.filter_eq_nil_iff]
      intro x hx hsource
      exact ((isSource_under d a hlinks hq (hrs r hr) hx).mp hsource).1 hpackages
    rw [hnone]
    exact distinct_eq_self .nil
  · rename_i hpackages
    rw [sourceSegments, List.map_flatMap]
    refine congrArg distinct (List.flatMap_congr fun r hr => ?_)
    rw [List.map_map]
    refine congrArg (List.map _) (List.filter_congr fun x hx => Bool.eq_iff_iff.mpr ?_)
    rw [isSource_under d a hlinks hq (hrs r hr) hx, and_iff_right hpackages]

theorem mem_sourceSegments (hlinks : t.LinkFree) {rs : List (List String)}
    (hrs : ∀ r ∈ rs, Descends r) {r : List String} (h : r ∈ sourceSegments q t rs) :
    Descends r ∧ r ≠ [] := by
  obtain ⟨start, hstart, hr⟩ := List.mem_flatMap.mp h
  obtain ⟨⟨r, e⟩, hx, rfl⟩ := List.mem_map.mp hr
  obtain ⟨hvisit, hsource⟩ := List.mem_filter.mp hx
  obtain ⟨hdescends, -, hfile⟩ := mem_visits hlinks (hrs start hstart) hvisit
  refine ⟨hdescends, fun hnil => ?_⟩
  have hdeep : 0 < depth r := hfile (isSource_iff.mp hsource).ne_directory
  rw [show r = [] from hnil] at hdeep
  exact absurd hdeep (lt_irrefl 0)

theorem files_moved (h : d.Holds a t) (hlinks : t.LinkFree) (hq : q.Relative)
    (hup : q.PatternsDescend) (hplain : q.PlainBase a) :
    ∃ rs : List (List String), (∀ r ∈ rs, Descends r ∧ r ≠ []) ∧
      (discover t.disk (q.startingAt [])).files = rs.map (under []) ∧
      (discover d (q.startingAt a)).files = if InPackages q a then [] else rs.map (under a) := by
  obtain ⟨starts, hstarts, htree, hcopy⟩ :=
    exists_of_forall₂_moved (starts_moved h hlinks hq hup hplain)
  obtain ⟨rs, hsub, hroot, hbase⟩ := exists_distinct_map (sourceSegments q t starts)
    (fun r r' => (before_under a r r').symm) fun r r' => (sameSteps_under a r r').symm
  have hnotIn : ¬InPackages q [] := fun hin => List.not_mem_nil hin.2
  refine ⟨rs, fun r hr => mem_sourceSegments hlinks hstarts (hsub hr), ?_, ?_⟩
  · rw [files_of_starts (Disk.holds_disk t) hlinks hq hstarts htree, if_neg hnotIn, hroot]
  · rw [files_of_starts h hlinks hq hstarts hcopy, hbase]

end Discovery

open Discovery Glob

/-- A search finds the same files, told from its base, in every directory that holds a copy of the
tree. Only below a directory for packages it finds none, if these are left out. -/
theorem files_discover_relocated {q : Discovery} (hlinks : t.LinkFree) (hq : q.Relative)
    (hup : q.PatternsDescend) :
    ∃ found : List Path, (∀ p ∈ found, p.rooted = false ∧ ".." ∉ p.segments) ∧
      ∀ d a, d.Holds a t → q.PlainBase a → (discover d (q.startingAt a)).files =
        if q.ignoreNodeModules = true ∧ "node_modules" ∈ a.map EntryName.text then []
        else found.map (Path.ofAddress a).join := by
  have hroot : q.PlainBase [] := fun _ => List.forall_mem_nil _
  refine ⟨(discover t.disk (q.startingAt [])).files.map fun p => ⟨false, p.segments⟩, ?_, ?_⟩
  · obtain ⟨rs, hrs, hfiles, -⟩ := files_moved (Disk.holds_disk t) hlinks hq hup hroot
    rw [hfiles, List.map_map]
    intro p hp
    obtain ⟨r, hr, rfl⟩ := List.mem_map.mp hp
    obtain ⟨hdescends, hne⟩ := hrs r hr
    refine ⟨rfl, fun hmem => ?_⟩
    rw [Function.comp_apply, under_of_ne_nil [] hne] at hmem
    exact (hdescends _ hmem).1 rfl
  · intro d a h hplain
    obtain ⟨rs, hrs, htree, hcopy⟩ := files_moved h hlinks hq hup hplain
    rw [hcopy, htree, List.map_map, List.map_map]
    refine if_congr Iff.rfl rfl (List.map_congr_left fun r hr => ?_)
    obtain ⟨-, hne⟩ := hrs r hr
    rw [Function.comp_apply, Function.comp_apply, under_of_ne_nil [] hne]
    exact (join_ofAddress a (q := ⟨false, r⟩) rfl hne).symm

/-! ## Two bases -/

namespace Relocation

/-- A directory with a file in it. -/
def smallTree : FileTree :=
  (FileTree.empty.put [⟨"s", by decide⟩] .directory).put
    [⟨"x.js", by decide⟩, ⟨"s", by decide⟩] (.file .empty)

/-- A disk with a copy of this tree in a directory. -/
def copyAt (name : EntryName) : Disk where
  tree := ((FileTree.empty.put [name] .directory).put [⟨"s", by decide⟩, name] .directory).put
    [⟨"x.js", by decide⟩, ⟨"s", by decide⟩, name] (.file .empty)
  here := []

def site : EntryName := ⟨"site", by decide⟩

def packages : EntryName := ⟨"node_modules", by decide⟩

def bracketed : EntryName := ⟨"[a]", by decide⟩

/-- A disk with an empty directory, and a file beside it. -/
def emptySite : Disk where
  tree := (FileTree.empty.put [⟨"x.js", by decide⟩] (.file .empty)).put [site] .directory
  here := []

/-- A search without ignores. -/
def search (includes : List String) (ignoreNodeModules : Bool) : Discovery where
  base := .root
  includes := includes
  ignores := []
  extensions := ["js"]
  ignoreNodeModules := ignoreNodeModules

theorem linkFree_smallTree : smallTree.LinkFree :=
  (linkFree_empty.put _ fun _ h => Entry.noConfusion h).put _ fun _ h => Entry.noConfusion h

theorem get?_empty (b : Address) :
    FileTree.empty.get? b = if b = [] then some .directory else none := by
  rw [FileTree.get?]
  rfl

theorem holds_copyAt (name : EntryName) : (copyAt name).Holds [name] smallTree := by
  have hdir : FileTree.empty.hasRoom [name] = true := rfl
  have hinner : (FileTree.empty.put [name] .directory).hasRoom [⟨"s", by decide⟩, name] = true := by
    simp [hasRoom, get?_put hdir, get?_empty]
  have hfile : ((FileTree.empty.put [name] .directory).put [⟨"s", by decide⟩, name]
      .directory).hasRoom [⟨"x.js", by decide⟩, ⟨"s", by decide⟩, name] = true := by
    simp [hasRoom, get?_put hinner, get?_put hdir, get?_empty]
  have hdir' : FileTree.empty.hasRoom [⟨"s", by decide⟩] = true := rfl
  have hfile' : (FileTree.empty.put [⟨"s", by decide⟩] .directory).hasRoom
      [⟨"x.js", by decide⟩, ⟨"s", by decide⟩] = true := by
    simp [hasRoom, get?_put hdir', get?_empty]
  intro b
  have hcancel (front : Address) : b ++ [name] = front ++ [name] ↔ b = front :=
    List.append_left_inj [name]
  have hx := hcancel [⟨"x.js", by decide⟩, ⟨"s", by decide⟩]
  have hs := hcancel [⟨"s", by decide⟩]
  have hbase := hcancel []
  simp only [List.cons_append, List.nil_append] at hx hs hbase
  rw [copyAt, smallTree, get?_put hfile, get?_put hinner, get?_put hdir, get?_put hfile',
    get?_put hdir', get?_empty, get?_empty]
  simp only [hx, hs, hbase]
  by_cases hb : b = []
  · simp [hb]
  · simp [hb]

theorem holds_emptySite : emptySite.Holds [site] .empty := by
  have hfile : FileTree.empty.hasRoom [⟨"x.js", by decide⟩] = true := rfl
  have hdir : (FileTree.empty.put [⟨"x.js", by decide⟩] (.file .empty)).hasRoom [site] = true := by
    decide
  intro b
  rw [emptySite, get?_put hdir, get?_put hfile, get?_empty, get?_empty]
  cases b with
  | nil => rfl
  | cons n b => simp

theorem relative_search {includes : List String} {flag : Bool}
    (h : ∀ s ∈ includes, (ofText s).rooted = false ∧ ".." ∉ (ofText s).segments) :
    (search includes flag).Relative :=
  ⟨h, List.forall_mem_nil _⟩

theorem patternsDescend_star (flag : Bool) : (search ["s*"] flag).PatternsDescend := by
  have hsegments : (ofText "s*").segments = ["s*"] := by decide
  intro s hs _ c hc
  obtain rfl := List.mem_singleton.mp hs
  rw [hsegments] at hc
  obtain rfl := List.mem_singleton.mp hc
  rintro ⟨p, hp, hdot, -⟩
  have hcompile : compile "s*" = .ok [.char 's', .anyText] := by
    simp [compile, compileFrom]
  obtain rfl := Except.ok.inj (hcompile.symm.trans hp)
  revert hdot
  decide

end Relocation

open Relocation

theorem files_discover_relocated_site :
    smallTree.LinkFree ∧ (search ["s*"] true).Relative ∧ (search ["s*"] true).PatternsDescend ∧
      ∃ found : List Path,
        (discover (copyAt site) ((search ["s*"] true).startingAt [site])).files =
          found.map (Path.ofAddress [site]).join ∧
        (discover (copyAt packages) ((search ["s*"] true).startingAt [packages])).files = [] ∧
        found.length = 1 := by
  have hq : (search ["s*"] true).Relative := relative_search (by decide)
  obtain ⟨found, -, hfound⟩ :=
    files_discover_relocated linkFree_smallTree hq (patternsDescend_star true)
  have hsite := hfound (copyAt site) [site] (holds_copyAt site) fun _ => by decide
  have hpackages := hfound (copyAt packages) [packages] (holds_copyAt packages) fun _ => by decide
  rw [if_neg (by decide)] at hsite
  rw [if_pos (by decide)] at hpackages
  have hlength :
      (discover (copyAt site) ((search ["s*"] true).startingAt [site])).files.length = 1 := by
    decide +kernel
  rw [hsite, List.length_map] at hlength
  exact ⟨linkFree_smallTree, hq, patternsDescend_star true, found, hsite, hpackages, hlength⟩

/-- Searches from any two bases that hold copies of one tree without links find the same files, told
from the base, if both bases satisfy `P`. -/
def Relocates (P : Discovery → Address → Prop) : Prop :=
  ∀ (t : FileTree) (q : Discovery) (d₁ d₂ : Disk) (a₁ a₂ : Address), t.LinkFree → q.Relative →
    d₁.Holds a₁ t → d₂.Holds a₂ t → P q a₁ → P q a₂ →
      ∃ found : List Path, (∀ p ∈ found, p.rooted = false) ∧
        (discover d₁ (q.startingAt a₁)).files = found.map (Path.ofAddress a₁).join ∧
        (discover d₂ (q.startingAt a₂)).files = found.map (Path.ofAddress a₂).join

theorem Relocates.length_eq {P : Discovery → Address → Prop} (h : Relocates P) {q : Discovery}
    {d₁ d₂ : Disk} {a₁ a₂ : Address} (hlinks : t.LinkFree) (hq : q.Relative) (h₁ : d₁.Holds a₁ t)
    (h₂ : d₂.Holds a₂ t) (ha₁ : P q a₁) (ha₂ : P q a₂) :
    (discover d₁ (q.startingAt a₁)).files.length = (discover d₂ (q.startingAt a₂)).files.length := by
  obtain ⟨found, -, hfiles₁, hfiles₂⟩ := h t q d₁ d₂ a₁ a₂ hlinks hq h₁ h₂ ha₁ ha₂
  rw [hfiles₁, hfiles₂, List.length_map, List.length_map]

/-- In general searches do not find the same files, and each of the conditions is needed: a base
below a directory for packages, a base with a bracket in its path, and a pattern that leads up make
a difference, each on its own. -/
theorem files_discover_not_relocated :
    ¬Relocates (fun _ _ => True) ∧
    ¬Relocates (fun q a => q.PatternsDescend ∧ q.PlainBase a) ∧
    ¬Relocates (fun q a => ¬q.InPackages a ∧ q.PatternsDescend) ∧
    ¬Relocates (fun q a => ¬q.InPackages a ∧ q.PlainBase a) := by
  have hpackages : ¬Relocates (fun q a => q.PatternsDescend ∧ q.PlainBase a) := by
    intro h
    have hconditions (a : Address) :
        (search [] true).PatternsDescend ∧ (search [] true).PlainBase a :=
      ⟨List.forall_mem_nil _, fun ⟨_, hs, _⟩ => nomatch hs⟩
    have hlength := h.length_eq linkFree_smallTree (relative_search (by decide)) (holds_copyAt site)
      (holds_copyAt packages) (hconditions _) (hconditions _)
    revert hlength
    decide +kernel
  refine ⟨fun h => hpackages fun t q d₁ d₂ a₁ a₂ hlinks hq h₁ h₂ _ _ =>
    h t q d₁ d₂ a₁ a₂ hlinks hq h₁ h₂ trivial trivial, hpackages, fun h => ?_, fun h => ?_⟩
  · have hconditions (a : Address) :
        ¬(search ["s*"] false).InPackages a ∧ (search ["s*"] false).PatternsDescend :=
      ⟨fun hin => Bool.false_ne_true hin.1, patternsDescend_star false⟩
    have hlength := h.length_eq linkFree_smallTree (relative_search (by decide)) (holds_copyAt site)
      (holds_copyAt bracketed) (hconditions _) (hconditions _)
    revert hlength
    decide +kernel
  · have hin (a : Address) : ¬(search [".*"] false).InPackages a := fun hin =>
      Bool.false_ne_true hin.1
    have hlength := h.length_eq linkFree_empty (relative_search (by decide)) holds_emptySite
      (Disk.holds_disk .empty) ⟨hin _, fun _ => by decide⟩
      ⟨hin _, fun _ => List.forall_mem_nil _⟩
    revert hlength
    decide +kernel

end CmsVariables
