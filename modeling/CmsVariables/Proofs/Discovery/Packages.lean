import CmsVariables.Proofs.Discovery.Includes
import CmsVariables.Proofs.Discovery.Sources
import CmsVariables.Proofs.Glob.Following
import CmsVariables.Proofs.Glob.Packages
import CmsVariables.Proofs.Path.Ascent
import CmsVariables.Proofs.Path.Below

/-!
# Leaving packages out

The rule for installed packages leaves out the files whose path, as it is spelled, enters a directory
`node_modules`. It is a pattern for the text of the whole path; but no segment of a path that a
search meets holds a slash, and the last one of a source file has an extension, which that name has
not. So the pattern says of a source file what its steps say: one of them before the last is that
name. A name that only contains it is another step.

* `slashFree_of_mem_starts`: no segment of a place where a search starts holds a slash.
* `mem_dropLast_segments_iff`: directories on a path, told by segments and told by components.
* `distinct_filter`: sorting and leaving out by components can change places.
* `files_discover_ignoreNodeModules`: what is found with packages left out.
-/

namespace CmsVariables

namespace Path

variable {p q : Path} {s : String}

/-! ## Directories on the way -/

/-- A step before the last one has this name: a directory that the path enters, as it is spelled. -/
def enters (p : Path) (name : String) : Bool := p.components.dropLast.contains (.name name)

theorem enters_iff : p.enters s = true ↔ .name s ∈ p.components.dropLast := List.contains_iff_mem

theorem mem_dropLast_of_ne {α : Type} {xs : List α} {x y : α} (hx : x ∈ xs)
    (hlast : xs.getLast? = some y) (hne : x ≠ y) : x ∈ xs.dropLast := by
  obtain ⟨front, rfl⟩ := List.getLast?_eq_some_iff.mp hlast
  rw [List.dropLast_concat]
  simpa [hne] using hx

theorem exists_fileName_of_extension? {x : String} (h : p.extension? = some x) :
    ∃ s, p.components.getLast? = some (.name s) ∧ extensionOf? s.toList = some x.toList := by
  obtain ⟨s, hs, hextension⟩ := Option.bind_eq_some_iff.mp h
  obtain ⟨cs, hcs, rfl⟩ := Option.map_eq_some_iff.mp hextension
  refine ⟨s, ?_, by rw [hcs, String.toList_ofList]⟩
  unfold fileName? at hs
  split at hs
  · rename_i t hlast
    rw [hlast, Option.some.inj hs]
  · cases hs

/-- A path with an extension enters a directory of a name without one before its last segment, and
that is before its last step. -/
theorem mem_dropLast_segments_iff {x : String} (hx : p.extension? = some x) (hstep : isStep s = true)
    (hup : s ≠ "..") (hs : extensionOf? s.toList = none) :
    s ∈ p.segments.dropLast ↔ .name s ∈ p.components.dropLast := by
  obtain ⟨t, hlast, ht⟩ := exists_fileName_of_extension? hx
  have hne : s ≠ t := by
    rintro rfl
    rw [hs] at ht
    cases ht
  have hname : stepOf s = .name s := if_neg hup
  have hcomponents := p.components_eq
  constructor
  · intro hmem
    have hsteps : s ∈ p.steps := List.mem_filter.mpr ⟨List.mem_of_mem_dropLast hmem, hstep⟩
    refine mem_dropLast_of_ne ?_ hlast fun heq => hne (Component.name.inj heq)
    rw [hcomponents, ← hname]
    exact List.mem_append_right _ (List.mem_map_of_mem hsteps)
  · intro hmem
    have hsteps : s ∈ p.steps := by
      rw [← filterMap_components]
      exact List.mem_filterMap.mpr ⟨.name s, List.mem_of_mem_dropLast hmem, rfl⟩
    have hsegments : s ∈ p.segments := (List.mem_filter.mp hsteps).1
    rcases List.eq_nil_or_concat p.segments with hnil | ⟨front, last, hfront⟩
    · rw [hnil] at hsegments
      cases hsegments
    rw [List.concat_eq_append] at hfront
    apply mem_dropLast_of_ne hsegments (List.getLast?_eq_some_iff.mpr ⟨front, hfront⟩)
    -- if it were the last segment it would be the last step, and that has an extension
    rintro rfl
    rw [hcomponents, steps, hfront, List.filter_append, List.filter_cons_of_pos hstep,
      List.filter_nil, List.map_append, List.map_singleton, hname, ← List.append_assoc,
      List.getLast?_concat] at hlast
    exact hne (Component.name.inj (Option.some.inj hlast))

/-! ## Sorting and leaving out -/

/-- What is left out by components can be left out before or after sorting. -/
theorem distinct_filter {f : Path → Bool} (hf : ∀ p q : Path, p.components = q.components → f p = f q)
    (ps : List Path) : distinct (ps.filter f) = (distinct ps).filter f := by
  have hsorted : ((distinct ps).filter f).Pairwise fun p q => p.before q = true :=
    (pairwise_before_distinct ps).sublist List.filter_sublist
  refine eq_of_mem_iff (pairwise_before_distinct _) hsorted fun p => ?_
  have hclass : ∀ q, decide (f q = true ∧ p.sameSteps q = true) = (f p && p.sameSteps q) := by
    intro q
    by_cases hsame : p.components = q.components
    · simp [hf p q hsame]
    · have hother : p.sameSteps q = false := beq_eq_false_iff_ne.mpr hsame
      simp [hother]
  simp only [mem_distinct_iff, List.find?_filter, List.mem_filter, hclass]
  cases f p with
  | true => simp
  | false => simp [List.find?_eq_none.mpr]

end Path

namespace Discovery

open Glob CmsVariables.Path

variable {d : Disk} {q : Discovery} {p : Path}

/-! ## Where a search walks -/

theorem slash_notMem_of_spells {c s : String} {pattern : Pattern} (hc : '/' ∉ c.toList)
    (hcompile : compile c = .ok pattern) (h : pattern.Spells s) : '/' ∉ s.toList := by
  cases h with
  | text hliteral =>
    obtain rfl := eq_literal_of_literal? hliteral
    intro hmem
    rcases mem_of_compileFrom hcompile (List.mem_map_of_mem hmem) with hnil | hin
    · cases hnil
    · exact hc hin
  | dots _ hs _ =>
    rcases hs with rfl | rfl
    · decide
    · decide

theorem slashFree_of_mem_expand {pattern : Path} {found : List Path} (hpattern : pattern.SlashFree)
    (h : expand d pattern = .ok found) : ∀ p ∈ found, p.SlashFree := by
  have hchild (p : Path) (s : String) (hp : p.SlashFree) (hs : '/' ∉ s.toList) :
      (p.child s).SlashFree := hp.child hs
  refine forall_mem_expand hchild EntryName.slash_notMem h ?_ ?_
  · intro s hs
    split at hs
    · rw [List.mem_singleton.mp hs]
      decide
    · exact slashFree_ofText "." s hs
  · intro c hc pattern' hcompile s hs
    refine slash_notMem_of_spells ?_ hcompile hs
    rcases mem_of_mem_componentsOf hc with hc | rfl
    · exact hpattern c hc
    · decide

theorem slashFree_of_mem_starts (hbase : q.base.SlashFree) {start : Path}
    (h : start ∈ starts d q) : start.SlashFree := by
  cases mem_starts_iff.mp h with
  | base _ => exact hbase
  | @plain s _ _ _ => exact hbase.join (slashFree_ofText s)
  | @pattern s _ _ _ _ hexpand hp _ =>
    exact slashFree_of_mem_expand (hbase.join (slashFree_ofText s)) hexpand _ hp

/-! ## The rule for packages -/

theorem matches_eq_enters {x : String} (hp : p.SlashFree) (hx : p.extension? = some x) :
    (inDirectory "node_modules").acceptsText p.text = p.enters "node_modules" := by
  rw [Bool.eq_iff_iff, acceptsText_inDirectory_iff (by decide) (by decide) hp, enters_iff]
  exact mem_dropLast_segments_iff hx (by decide) (by decide) (by decide)

theorem rules_ignoreNodeModules (q : Discovery) :
    rules { q with ignoreNodeModules := true } =
      rules { q with ignoreNodeModules := false } ++ [.matching (inDirectory "node_modules")] := by
  unfold rules
  rw [compile_nodeModulesPattern]
  simp [Except.toOption]

/-- With packages left out, a source file is one that does not lie in them. -/
theorem isSource_ignoreNodeModules {v : Disk.Visit} (hv : v.path.SlashFree) :
    isSource d { q with ignoreNodeModules := true } v =
      (isSource d { q with ignoreNodeModules := false } v && !v.path.enters "node_modules") := by
  unfold isSource
  cases hx : v.path.extension? with
  | none => simp [hasExtension, hx]
  | some x =>
    rw [rules_ignoreNodeModules, List.any_append, List.any_cons, List.any_nil, Bool.or_false,
      Rule.covers, matches_eq_enters hv hx]
    cases v.path.enters "node_modules" <;> simp

theorem sourcesFrom_ignoreNodeModules {start : Path} (hstart : start.SlashFree) :
    sourcesFrom d { q with ignoreNodeModules := true } start =
      (sourcesFrom d { q with ignoreNodeModules := false } start).filter
        (fun p => !p.enters "node_modules") := by
  unfold sourcesFrom
  cases hwalk : d.walk start with
  | error e => rfl
  | ok vs =>
    have hsource : vs.filter (isSource d { q with ignoreNodeModules := true }) =
        vs.filter fun v =>
          isSource d { q with ignoreNodeModules := false } v && !v.path.enters "node_modules" := by
      refine List.filter_congr fun v hv => isSource_ignoreNodeModules ?_
      obtain ⟨ns, hns⟩ := exists_below_of_mem_walk hwalk hv
      exact hns ▸ hstart.below ns
    simp only [hsource, List.filter_map, List.filter_filter]
    congr 2
    funext v
    exact Bool.and_comm _ _

theorem files_ignoreNodeModules (hbase : q.base.SlashFree) :
    (discover d { q with ignoreNodeModules := true }).files =
      (discover d { q with ignoreNodeModules := false }).files.filter
        fun p => !p.enters "node_modules" := by
  have hsteps (p p' : Path) (h : p.components = p'.components) :
      (!p.enters "node_modules") = !p'.enters "node_modules" := by
    rw [enters, enters, h]
  have hstarts : starts d { q with ignoreNodeModules := true } =
      starts d { q with ignoreNodeModules := false } := rfl
  show distinct _ = (distinct _).filter _
  rw [← distinct_filter hsteps, List.filter_flatMap, hstarts]
  refine congrArg distinct (List.flatMap_congr fun start hstart => ?_)
  exact sourcesFrom_ignoreNodeModules (slashFree_of_mem_starts hbase hstart)

end Discovery

open Discovery

/-- Leaving packages out leaves out exactly the files whose path enters a directory of that name, as
it is spelled. In particular all others are kept, also those on whose path there are steps that hold
the name and more. -/
theorem files_discover_ignoreNodeModules (d : Disk) (base : String) (q : Discovery) :
    (discover d { q with base := .ofText base, ignoreNodeModules := true }).files =
        (discover d { q with base := .ofText base, ignoreNodeModules := false }).files.filter
          (fun p => !p.enters "node_modules") ∧
      ∀ p ∈ (discover d { q with base := .ofText base, ignoreNodeModules := false }).files,
        (∀ s, .name s ∈ p.components.dropLast → "node_modules".toList <:+: s.toList →
          s ≠ "node_modules") →
        p ∈ (discover d { q with base := .ofText base, ignoreNodeModules := true }).files := by
  have hkept := files_ignoreNodeModules (d := d) (q := { q with base := .ofText base })
    (Path.slashFree_ofText base)
  refine ⟨hkept, fun p hp hmore => ?_⟩
  rw [hkept, List.mem_filter, Bool.not_eq_true', ← Bool.not_eq_true, Path.enters_iff]
  exact ⟨hp, fun hmem => hmore _ hmem (List.infix_refl _) rfl⟩

end CmsVariables
