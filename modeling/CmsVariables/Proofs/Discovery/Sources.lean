import CmsVariables.Proofs.Discovery.Walking

/-!
# Which files a search finds

A search walks from the base, or from each place that an include leads to, and finds the source
files met on the way that no ignore leaves out. `Finds` says so without lists. What is found does
not depend on the order in which directories are read, because a walk meets nothing twice and the
result is sorted.

Paths are the same if they take the same steps. Two spellings of one path can be met from two
places, and a pattern among the ignores can leave out one of them only; then the other one is found.
So the result is told in two parts: each path in it was met as it is spelled there, and of each path
that was met some spelling is in it.

* `mem_starts_iff`, `rules_any_iff`: where a search walks, and what it leaves out.
* `mem_sources_iff`: what it meets that is wanted.
* `files_discover`: which files it finds, and in which order.
-/

namespace CmsVariables

namespace Discovery

open Glob

variable {d : Disk} {q : Discovery} {p : Path}

/-! ## Where to walk -/

/-- A place from which to walk: the base if there are no includes, or else what an include leads to.
An include names a path to something, or it is a pattern for directories. -/
inductive IsStart (d : Disk) (q : Discovery) : Path → Prop where
  | base (h : q.includes = []) : IsStart d q q.base
  | plain {s : String} (hs : s ∈ q.includes) (hglob : isGlob s = false)
      (hexists : d.exists? (q.base.join (.ofText s)) = true) : IsStart d q (q.base.join (.ofText s))
  | pattern {s : String} {p : Path} {ps : List Path} (hs : s ∈ q.includes) (hglob : isGlob s = true)
      (hexpand : expand d (q.base.join (.ofText s)) = .ok ps) (hp : p ∈ ps)
      (hdir : d.isDirectory p = true) : IsStart d q p

theorem mem_startsOf_iff {s : String} :
    p ∈ (startsOf d q.base s).toOption.getD [] ↔
      (isGlob s = false ∧ d.exists? (q.base.join (.ofText s)) = true ∧ p = q.base.join (.ofText s)) ∨
        (isGlob s = true ∧ ∃ ps, expand d (q.base.join (.ofText s)) = .ok ps ∧ p ∈ ps ∧
          d.isDirectory p = true) := by
  rw [startsOf]
  cases isGlob s with
  | true =>
    cases expand d (q.base.join (.ofText s)) with
    | error e => simp [Except.toOption]
    | ok ps => simp [Except.toOption]
  | false =>
    cases d.exists? (q.base.join (.ofText s)) with
    | true => simp [Except.toOption]
    | false => simp [Except.toOption]

theorem mem_starts_iff : p ∈ starts d q ↔ IsStart d q p := by
  rw [starts]
  split
  · rename_i hnone
    rw [List.mem_singleton]
    constructor
    · rintro rfl
      exact .base hnone
    · intro h
      cases h with
      | base => rfl
      | plain hs => exact absurd hs (hnone ▸ List.not_mem_nil)
      | pattern hs => exact absurd hs (hnone ▸ List.not_mem_nil)
  · rename_i hsome
    simp only [List.mem_flatMap, mem_startsOf_iff]
    constructor
    · rintro ⟨s, hs, ⟨hglob, hexists, rfl⟩ | ⟨hglob, ps, hexpand, hp, hdir⟩⟩
      · exact .plain hs hglob hexists
      · exact .pattern hs hglob hexpand hp hdir
    · intro h
      cases h with
      | base h => exact absurd h hsome
      | plain hs hglob hexists => exact ⟨_, hs, Or.inl ⟨hglob, hexists, rfl⟩⟩
      | pattern hs hglob hexpand hp hdir => exact ⟨_, hs, Or.inr ⟨hglob, _, hexpand, hp, hdir⟩⟩

/-! ## What is left out -/

/-- An ignore leaves the path out: one that names a path above it, or a pattern that matches its
text. Packages are left out by a pattern of their own. -/
inductive IsIgnored (q : Discovery) (p : Path) : Prop where
  | under {s : String} (hs : s ∈ q.ignores) (hglob : isGlob s = false)
      (h : (q.base.join (.ofText s)).components <+: p.components)
  | matching {s : String} {pattern : Pattern} (hs : s ∈ q.ignores) (hglob : isGlob s = true)
      (hcompile : compile s = .ok pattern) (h : pattern.acceptsText p.text = true)
  | inPackages {pattern : Pattern} (hflag : q.ignoreNodeModules = true)
      (hcompile : compile "**/node_modules/**" = .ok pattern) (h : pattern.acceptsText p.text = true)

theorem covers_ruleOf_iff {s : String} :
    (∃ r, ruleOf q.base s = .ok r ∧ r.covers p = true) ↔
      (isGlob s = false ∧ (q.base.join (.ofText s)).components <+: p.components) ∨
        (isGlob s = true ∧ ∃ pattern, compile s = .ok pattern ∧ pattern.acceptsText p.text = true) := by
  rw [ruleOf]
  cases isGlob s with
  | true => cases compile s <;> simp [Rule.covers]
  | false => simp [Rule.covers, Path.startsWith]

theorem rules_any_iff : q.rules.any (Rule.covers p) = true ↔ IsIgnored q p := by
  have hruleOf (s : String) (r : Rule) : (ruleOf q.base s).toOption = some r ↔
      ruleOf q.base s = .ok r := by
    cases ruleOf q.base s <;> simp [Except.toOption]
  have hpackages (r : Rule) :
      r ∈ (compile nodeModulesPattern).toOption.toList.map Rule.matching ↔
        ∃ pattern, compile nodeModulesPattern = .ok pattern ∧ r = .matching pattern := by
    cases compile nodeModulesPattern <;> simp [Except.toOption]
  simp only [rules, List.any_eq_true, List.mem_append, List.mem_filterMap, hruleOf]
  constructor
  · rintro ⟨r, ⟨s, hs, hr⟩ | hr, hcovers⟩
    · rcases covers_ruleOf_iff.mp ⟨r, hr, hcovers⟩ with ⟨hglob, h⟩ | ⟨hglob, pattern, hcompile, h⟩
      · exact .under hs hglob h
      · exact .matching hs hglob hcompile h
    · split at hr
      · rename_i hflag
        obtain ⟨pattern, hcompile, rfl⟩ := (hpackages r).mp hr
        exact .inPackages hflag hcompile hcovers
      · cases hr
  · intro h
    cases h with
    | under hs hglob h =>
      obtain ⟨r, hr, hcovers⟩ := covers_ruleOf_iff.mpr (Or.inl ⟨hglob, h⟩)
      exact ⟨r, Or.inl ⟨_, hs, hr⟩, hcovers⟩
    | matching hs hglob hcompile h =>
      obtain ⟨r, hr, hcovers⟩ := covers_ruleOf_iff.mpr (Or.inr ⟨hglob, _, hcompile, h⟩)
      exact ⟨r, Or.inl ⟨_, hs, hr⟩, hcovers⟩
    | inPackages hflag hcompile h =>
      refine ⟨.matching _, Or.inr ?_, h⟩
      rw [if_pos hflag]
      exact (hpackages _).mpr ⟨_, hcompile, rfl⟩

/-! ## What is found -/

/-- What was met is a source file that is not left out: a regular file or a link that does not lead
to a directory, with one of the extensions. -/
structure IsWanted (d : Disk) (q : Discovery) (p : Path) (e : Entry) : Prop where
  candidate : (∃ bytes, e = .file bytes) ∨ (∃ target, e = .link target) ∧ d.isDirectory p = false
  extension : ∃ x ∈ q.extensions, p.extension? = some x
  kept : ¬IsIgnored q p

theorem isSource_iff {e : Entry} : isSource d q ⟨p, e⟩ = true ↔ IsWanted d q p e := by
  have hcandidate : isCandidate d ⟨p, e⟩ = true ↔
      (∃ bytes, e = .file bytes) ∨ (∃ target, e = .link target) ∧ d.isDirectory p = false := by
    cases e <;> simp [isCandidate]
  have hextension : hasExtension q.extensions p = true ↔
      ∃ x ∈ q.extensions, p.extension? = some x := by
    rw [hasExtension]
    cases p.extension? <;> simp
  rw [isSource, Bool.and_eq_true, Bool.and_eq_true, Bool.not_eq_true', ← Bool.not_eq_true,
    rules_any_iff, hcandidate, hextension]
  constructor
  · rintro ⟨⟨hkept, hcandidate⟩, hextension⟩
    exact ⟨hcandidate, hextension, hkept⟩
  · intro h
    exact ⟨⟨h.kept, h.candidate⟩, h.extension⟩

theorem IsWanted.ne_directory {e : Entry} (h : IsWanted d q p e) : e ≠ .directory := by
  rintro rfl
  rcases h.candidate with ⟨_, hfile⟩ | ⟨⟨_, hlink⟩, -⟩
  · cases hfile
  · cases hlink

/-- The path is met on a walk from some place, and what is met there is wanted. -/
def Finds (d : Disk) (q : Discovery) (p : Path) : Prop :=
  ∃ start e, IsStart d q start ∧ d.Meets start p e ∧ IsWanted d q p e

theorem mem_sourcesFrom_iff {start : Path} :
    p ∈ sourcesFrom d q start ↔ ∃ e, d.Meets start p e ∧ IsWanted d q p e := by
  simp only [← Disk.mem_walk_iff, ← isSource_iff, sourcesFrom]
  cases d.walk start with
  | error e => simp
  | ok vs =>
    simp only [List.mem_map, List.mem_filter, Except.ok.injEq, exists_eq_left']
    constructor
    · rintro ⟨v, ⟨hv, hsource⟩, rfl⟩
      exact ⟨v.entry, hv, hsource⟩
    · rintro ⟨e, hv, hsource⟩
      exact ⟨⟨p, e⟩, ⟨hv, hsource⟩, rfl⟩

theorem mem_sources_iff : p ∈ (starts d q).flatMap (sourcesFrom d q) ↔ Finds d q p := by
  simp only [List.mem_flatMap, mem_starts_iff, mem_sourcesFrom_iff, Finds]
  exact ⟨fun ⟨start, hstart, e, h⟩ => ⟨start, e, hstart, h⟩,
    fun ⟨start, e, hstart, h⟩ => ⟨start, hstart, e, h⟩⟩

end Discovery

open Discovery

/-- The files found are in strict order of their steps. Each of them was met and is wanted, as it is
spelled, and of each path that was met and is wanted some spelling is found. Neither the order in
which walks meet files matters nor the order in which the tree lists its entries, and what is
ignored does not change how many places could not be walked. -/
theorem files_discover (d : Disk) (q : Discovery) :
    ((discover d q).files.Pairwise fun p p' => p.before p' = true) ∧
    (∀ p ∈ (discover d q).files, Finds d q p) ∧
    (∀ p : Path, (∃ p' ∈ (discover d q).files, p'.components = p.components) ↔
      ∃ p', p'.components = p.components ∧ Finds d q p') ∧
    (∀ walk : Path → List Path, (∀ start, (walk start).Perm (sourcesFrom d q start)) →
      Path.distinct ((starts d q).flatMap walk) = (discover d q).files) ∧
    (∀ d' : Disk, d'.here = d.here → (∀ a, d'.tree.get? a = d.tree.get? a) →
      discover d' q = discover d q) ∧
    ∀ more, (discover d { q with ignores := q.ignores ++ more }).skipped =
      (discover d q).skipped := by
  have hsound : ∀ p ∈ (discover d q).files, Finds d q p := fun p hp =>
    mem_sources_iff.mp (Path.mem_of_mem_distinct hp)
  refine ⟨Path.pairwise_before_distinct _, hsound, fun p => ⟨?_, ?_⟩, ?_, ?_, fun _ => rfl⟩
  · rintro ⟨p', hp', hsteps⟩
    exact ⟨p', hsteps, hsound p' hp'⟩
  · rintro ⟨p', hsteps, hfinds⟩
    obtain ⟨r, hr, hsame⟩ := Path.exists_mem_distinct (mem_sources_iff.mpr hfinds)
    exact ⟨r, hr, hsame.trans hsteps⟩
  · intro walk hwalk
    refine (Path.distinct_flatMap_congr (fun start _ => (hwalk start).symm) fun start _ => ?_).symm
    exact nodup_sourcesFrom d q start
  · intro d' hhere htree
    exact discover_eq ⟨hhere.symm, fun a => by rw [htree a]⟩ q

end CmsVariables
