import CmsVariables.Config.Validation
import CmsVariables.Proofs.Discovery.Sources
import CmsVariables.Proofs.Glob.Components
import CmsVariables.Run.Context

/-!
# What valid settings promise

Settings are checked before a search begins: each pattern has to compile. For ignores that is all a
search asks. But it follows a pattern among the includes from the base, component by component. So
two things can be wrong with one that was found valid. A class in it can reach over a slash: then the
pattern compiles as a whole and its components do not. Or the path of the base, which is put before
it as it is, can hold a bracket. Such an include is noted and leads nowhere.

* `badIgnore_mem_iff`, `exists_badInclude_mem_iff`: which notices a search gives about patterns.
* `expandable_join_iff`: a pattern behind a base can be followed if both can.
* `notices_of_valid`: what a search refuses of valid settings; `valid_include_refused`: it can refuse
  something.
-/

namespace CmsVariables

open Glob

/-- An expansion can follow the path as a pattern: all its components compile. -/
def Path.Expandable (p : Path) : Prop := ∀ s ∈ p.segments, Compiles s

instance : DecidablePred Path.Expandable := fun p => p.segments.decidableBAll Compiles

/-- A pattern behind a base can be followed if it can by itself, and the base can as well, unless the
pattern starts at the root. -/
theorem Path.expandable_join_iff (p q : Path) :
    (p.join q).Expandable ↔ q.Expandable ∧ (q.rooted = false → p.Expandable) := by
  unfold Path.join
  cases q.rooted with
  | true => simp [Expandable]
  | false =>
    rw [if_neg Bool.false_ne_true]
    split
    · -- the empty segment that gives way is no obstacle
      rename_i hlast
      obtain ⟨front, hfront⟩ := List.getLast?_eq_some_iff.mp hlast
      simp only [Expandable, hfront, List.dropLast_concat, List.forall_mem_append,
        List.forall_mem_singleton, compiles_empty, and_true, forall_const]
      exact and_comm
    · simp only [Expandable, List.forall_mem_append, forall_const]
      exact and_comm

namespace Config

variable {c : Config} {key : Key} {s : String}

theorem compiles_of_patternProblem? (h : patternProblem? key s = none) (hglob : isGlob s = true) :
    Compiles s := by
  unfold patternProblem? at h
  rw [if_pos hglob] at h
  cases hcompile : compile s with
  | ok p => exact compiles_iff.mpr ⟨p, hcompile⟩
  | error e =>
    rw [hcompile] at h
    cases h

/-- In valid settings every pattern compiles. -/
theorem compiles_of_problem? (h : c.problem? = none) (hs : s ∈ c.ignores ∨ s ∈ c.includes)
    (hglob : isGlob s = true) : Compiles s := by
  unfold problem? at h
  cases hignores : c.ignores.findSome? (patternProblem? .ignores) with
  | some problem =>
    rw [hignores] at h
    cases h
  | none =>
    cases hincludes : c.includes.findSome? (patternProblem? .includes) with
    | some problem =>
      rw [hignores, hincludes] at h
      cases h
    | none =>
      rcases hs with hs | hs
      · exact compiles_of_patternProblem? (List.findSome?_eq_none_iff.mp hignores s hs) hglob
      · exact compiles_of_patternProblem? (List.findSome?_eq_none_iff.mp hincludes s hs) hglob

end Config

namespace Discovery

variable {d : Disk} {q : Discovery} {base : Path} {s : String} {e : PatternError} {n : Notice}

/-! ## Notices about patterns -/

theorem ruleOf_eq_error_iff : ruleOf base s = .error n ↔
    isGlob s = true ∧ ∃ e, compile s = .error e ∧ n = .badIgnore s e := by
  unfold ruleOf
  cases isGlob s with
  | true => cases compile s <;> simp [@eq_comm _ n]
  | false => simp

theorem startsOf_eq_error_iff : startsOf d base s = .error n ↔
    (isGlob s = true ∧ ∃ e, expand d (base.join (.ofText s)) = .error e ∧ n = .badInclude s e) ∨
      (isGlob s = false ∧ d.exists? (base.join (.ofText s)) = false ∧
        n = .missingInclude (base.join (.ofText s))) := by
  rw [startsOf]
  cases isGlob s with
  | true => cases expand d (base.join (.ofText s)) <;> simp [@eq_comm _ n]
  | false => cases d.exists? (base.join (.ofText s)) <;> simp [@eq_comm _ n]

theorem mem_ruleNotices_iff : n ∈ q.ruleNotices ↔ ∃ s ∈ q.ignores, ruleOf q.base s = .error n := by
  unfold ruleNotices
  rw [List.mem_filterMap]
  refine exists_congr fun s => and_congr_right fun _ => ?_
  cases ruleOf q.base s <;> simp

theorem mem_startNotices_iff :
    n ∈ startNotices d q ↔ ∃ s ∈ q.includes, startsOf d q.base s = .error n := by
  unfold startNotices
  rw [List.mem_filterMap]
  refine exists_congr fun s => and_congr_right fun _ => ?_
  cases startsOf d q.base s <;> simp

theorem exists_of_mem_walkNotices (h : n ∈ walkNotices d q) : ∃ p e, n = .inaccessible p e := by
  obtain ⟨p, -, hp⟩ := List.mem_filterMap.mp h
  cases hwalk : d.walk p with
  | ok vs =>
    rw [hwalk] at hp
    cases hp
  | error e =>
    rw [hwalk] at hp
    exact ⟨p, e, (Option.some.inj hp).symm⟩

theorem mem_notices_iff : n ∈ (discover d q).notices ↔
    n ∈ q.ruleNotices ∨ n ∈ startNotices d q ∨ n ∈ walkNotices d q := by
  unfold discover
  rw [List.mem_append, List.mem_append, or_assoc]

theorem badIgnore_mem_iff : .badIgnore s e ∈ (discover d q).notices ↔
    s ∈ q.ignores ∧ isGlob s = true ∧ compile s = .error e := by
  rw [mem_notices_iff, mem_ruleNotices_iff, mem_startNotices_iff]
  constructor
  · rintro (⟨s', hs', h⟩ | ⟨s', -, h⟩ | h)
    · obtain ⟨hglob, e', hcompile, heq⟩ := ruleOf_eq_error_iff.mp h
      cases heq
      exact ⟨hs', hglob, hcompile⟩
    · rcases startsOf_eq_error_iff.mp h with ⟨-, e', -, heq⟩ | ⟨-, -, heq⟩
      · cases heq
      · cases heq
    · obtain ⟨p, e', heq⟩ := exists_of_mem_walkNotices h
      cases heq
  · rintro ⟨hs, hglob, hcompile⟩
    exact Or.inl ⟨s, hs, ruleOf_eq_error_iff.mpr ⟨hglob, e, hcompile, rfl⟩⟩

theorem badInclude_mem_iff : .badInclude s e ∈ (discover d q).notices ↔
    s ∈ q.includes ∧ isGlob s = true ∧ expand d (q.base.join (.ofText s)) = .error e := by
  rw [mem_notices_iff, mem_ruleNotices_iff, mem_startNotices_iff]
  constructor
  · rintro (⟨s', -, h⟩ | ⟨s', hs', h⟩ | h)
    · obtain ⟨-, e', -, heq⟩ := ruleOf_eq_error_iff.mp h
      cases heq
    · rcases startsOf_eq_error_iff.mp h with ⟨hglob, e', hexpand, heq⟩ | ⟨-, -, heq⟩
      · cases heq
        exact ⟨hs', hglob, hexpand⟩
      · cases heq
    · obtain ⟨p, e', heq⟩ := exists_of_mem_walkNotices h
      cases heq
  · rintro ⟨hs, hglob, hexpand⟩
    exact Or.inr (Or.inl ⟨s, hs, startsOf_eq_error_iff.mpr (Or.inl ⟨hglob, e, hexpand, rfl⟩)⟩)

/-- Some pattern among the includes is refused: it, or the base behind which it is followed, has a
component that does not compile. -/
theorem exists_badInclude_mem_iff (d : Disk) (base : String) (q : Discovery) (s : String) :
    (∃ e, .badInclude s e ∈ (discover d { q with base := .ofText base }).notices) ↔
      s ∈ q.includes ∧ isGlob s = true ∧ ¬((Path.ofText s).Expandable ∧
        ((Path.ofText s).rooted = false → (Path.ofText base).Expandable)) := by
  have hslash : ((Path.ofText base).join (.ofText s)).SlashFree :=
    (Path.slashFree_ofText base).join (Path.slashFree_ofText s)
  have hexpand := toBool_expand_iff d
    (Path.segments_join_ne_nil (.ofText base) (Path.segments_ofText_ne_nil s)) hslash
  rw [← Path.expandable_join_iff]
  unfold Path.Expandable
  rw [← hexpand]
  simp only [badInclude_mem_iff, exists_and_left]
  refine and_congr_right fun _ => and_congr_right fun _ => ?_
  cases expand d ((Path.ofText base).join (.ofText s)) <;> simp [Except.toBool]

/-- A search that follows patterns only, none of which it can follow, finds nothing. -/
theorem discover_of_all_refused (hne : q.includes ≠ [])
    (h : ∀ s ∈ q.includes, ∃ e, .badInclude s e ∈ (discover d q).notices) :
    (discover d q).files = [] ∧ (discover d q).skipped = 0 := by
  have hstarts : starts d q = [] := by
    unfold starts
    rw [if_neg hne, List.flatMap_eq_nil_iff]
    intro s hs
    obtain ⟨e, he⟩ := h s hs
    obtain ⟨-, hglob, hexpand⟩ := badInclude_mem_iff.mp he
    rw [startsOf_eq_error_iff.mpr (Or.inl ⟨hglob, e, hexpand, rfl⟩)]
    rfl
  have hnone : Path.distinct [] = [] :=
    List.eq_nil_iff_forall_not_mem.mpr fun p hp => nomatch Path.mem_of_mem_distinct hp
  unfold discover walkNotices
  rw [hstarts]
  exact ⟨hnone, rfl⟩

end Discovery

open Discovery

/-- What a search refuses of valid settings: no ignore, but a pattern among the includes if one of its
components does not compile, or one of the base when it is followed from there. If all includes are
refused then nothing is found. -/
theorem notices_of_valid (d : Disk) (base : String) {c : Config} (h : c.problem? = none) :
    let found := discover d (Run.discovery c (.ofText base))
    (∀ s e, .badIgnore s e ∉ found.notices) ∧
      (∀ s, (∃ e, .badInclude s e ∈ found.notices) ↔ s ∈ c.includes ∧ isGlob s = true ∧
        ¬((Path.ofText s).Expandable ∧
          ((Path.ofText s).rooted = false → (Path.ofText base).Expandable))) ∧
      (c.includes ≠ [] → (∀ s ∈ c.includes, ∃ e, .badInclude s e ∈ found.notices) →
        found.files = [] ∧ found.skipped = 0) := by
  refine ⟨fun s e hmem => ?_, fun s => ?_, fun hne hall => ?_⟩
  · obtain ⟨hs, hglob, hcompile⟩ := badIgnore_mem_iff.mp hmem
    obtain ⟨p, hp⟩ := compiles_iff.mp (Config.compiles_of_problem? h (Or.inl hs) hglob)
    rw [hp] at hcompile
    cases hcompile
  · exact exists_badInclude_mem_iff d base (Run.discovery c (.ofText base)) s
  · exact discover_of_all_refused hne hall

/-- A class can reach over a slash in a pattern that is valid. -/
example : Compiles "[a/b]*" ∧ ¬(Path.ofText "[a/b]*").Expandable := by
  decide +kernel

/-- A directory whose name holds an opening bracket, with a directory in it. -/
def bracketDisk : Disk where
  tree := (FileTree.empty.put [⟨"a[", Eq.refl true⟩] .directory).put
    [⟨"d", Eq.refl true⟩, ⟨"a[", Eq.refl true⟩] .directory
  here := []

theorem not_expandable_bracket : ¬(Path.ofText "/a[").Expandable := by
  decide +kernel

/-- The only setting is the pattern for any directory. -/
def anyDirectory : Config := { includes := ["*"] }

theorem problem?_anyDirectory : anyDirectory.problem? = none := by
  decide +kernel

theorem notices_of_valid_bracketed : anyDirectory.problem? = none ∧
    ∃ e, .badInclude "*" e ∈
      (discover bracketDisk (Run.discovery anyDirectory (.ofText "/a["))).notices := by
  have hrefused := (notices_of_valid bracketDisk "/a[" problem?_anyDirectory).2.1 "*"
  refine ⟨problem?_anyDirectory, hrefused.mpr ⟨List.mem_singleton.mpr rfl, rfl, ?_⟩⟩
  intro hboth
  exact not_expandable_bracket (hboth.2 rfl)

/-- A pattern that was found valid can be refused in a directory that exists. -/
theorem valid_include_refused : ¬∀ (d : Disk) (base : String) (c : Config), c.problem? = none →
    d.isDirectory (.ofText base) = true → ∀ s e,
      .badIgnore s e ∉ (discover d (Run.discovery c (.ofText base))).notices ∧
        .badInclude s e ∉ (discover d (Run.discovery c (.ofText base))).notices := by
  intro h
  have hdirectory : bracketDisk.isDirectory (.ofText "/a[") = true := by
    decide +kernel
  have hrefused :=
    exists_badInclude_mem_iff bracketDisk "/a[" (Run.discovery anyDirectory (.ofText "/a[")) "*"
  obtain ⟨e, he⟩ := hrefused.mpr ⟨List.mem_singleton.mpr rfl, rfl, fun hboth =>
    not_expandable_bracket (hboth.2 rfl)⟩
  exact (h bracketDisk "/a[" anyDirectory problem?_anyDirectory hdirectory "*" e).2 he

end CmsVariables
