import CmsVariables.Proofs.Glob.Following
import CmsVariables.Proofs.Path.Below
import CmsVariables.Proofs.Path.Normal

/-!
# Patterns and their components

A pattern is compiled twice before it is expanded: as a whole, to see whether it is a pattern, and
then component by component. If all components compile then so does the whole; two stars are alone
between slashes in a component if they are in the whole. But a class in brackets can reach over a
slash. Such a pattern compiles as a whole, and can match the text of a path, but its components end
or begin inside a class, so it cannot be expanded.

* `Compiles`: a text is a pattern.
* `toBool_compileFrom_slash`: compiling a component and what follows it.
* `toBool_expand_iff`: which patterns can be expanded.
-/

namespace CmsVariables.Glob

variable {position : ℕ} {before : Option Char} {done : List Token} {cs rest after : List Char}
  {t : Token} {s : String} {ss : List String}

/-- The text is a pattern. -/
def Compiles (s : String) : Prop := (compile s).toBool = true

instance : DecidablePred Compiles := fun s => inferInstanceAs (Decidable ((compile s).toBool = true))

theorem compiles_iff : Compiles s ↔ ∃ p, compile s = .ok p := by
  unfold Compiles
  cases compile s <;> simp [Except.toBool]

theorem compiles_empty : Compiles "" := by
  unfold Compiles compile
  rw [show "".toList = [] from rfl, compileFrom]
  rfl

/-! ## One component and what follows it -/

/-- The start of a pattern counts as a slash. -/
theorem compileFrom_none (position : ℕ) (done : List Token) (cs : List Char) :
    compileFrom position none done cs = compileFrom position (some '/') done cs := by
  rw [compileFrom.eq_def, compileFrom.eq_def position (some '/')]
  simp

/-- What the class takes of a text does not change with what follows its closing bracket. -/
theorem dropWhile_bracket_append {d : Char} (h : cs.dropWhile (· != ']') = d :: after)
    (rest : List Char) : (cs ++ rest).dropWhile (· != ']') = d :: (after ++ rest) ∧
      (cs ++ rest).takeWhile (· != ']') = cs.takeWhile (· != ']') := by
  induction cs with
  | nil => cases h
  | cons c cs ih =>
    by_cases hc : c = ']'
    · subst hc
      cases h
      exact ⟨rfl, rfl⟩
    · have hopen : (c != ']') = true := bne_iff_ne.mpr hc
      simp only [List.dropWhile_cons, hopen, if_true] at h
      obtain ⟨hdrop, htake⟩ := ih h
      simp only [List.cons_append, List.dropWhile_cons, List.takeWhile_cons, hopen, if_true]
      exact ⟨hdrop, congrArg (c :: ·) htake⟩

/-- A class ends at its first closing bracket, whatever follows. -/
theorem readClass_append (h : readClass cs = some (t, after)) (rest : List Char) :
    readClass (cs ++ rest) = some (t, after ++ rest) := by
  unfold readClass at h
  split at h
  · rename_i a inner
    split at h
    · rename_i hclose
      cases h
      obtain ⟨hdrop, htake⟩ := dropWhile_bracket_append hclose rest
      simp only [List.cons_append, readClass, hdrop, htake]
    · cases h
  · cases h
  · rename_i a inner hlong hshort
    have ha : a ≠ '!' := by
      rintro rfl
      cases inner with
      | nil => exact hshort rfl rfl
      | cons b inner => exact hlong b inner rfl rfl
    split at h
    · rename_i hclose
      cases h
      obtain ⟨hdrop, htake⟩ := dropWhile_bracket_append hclose rest
      simp [readClass, ha, hdrop, htake]
    · cases h
  · cases h

/-- Two stars that compile stand at the start of their component, and nothing else follows in it. -/
theorem eq_nil_of_directories (hslash : '/' ∉ after)
    (h : (compileFrom position before done ('*' :: '*' :: after)).toBool = true) :
    (before = none ∨ before = some '/') ∧ after = [] := by
  cases after with
  | nil =>
    by_cases hbefore : before = none ∨ before = some '/'
    · exact ⟨hbefore, rfl⟩
    · simp [compileFrom, hbefore, Except.toBool] at h
  | cons d after =>
    have hd : d ≠ '/' := fun hd => hslash (hd ▸ List.mem_cons_self)
    by_cases hstar : d = '*'
    · subst hstar
      simp [compileFrom, Except.toBool] at h
    · by_cases hbefore : before = none ∨ before = some '/'
      · simp [compileFrom, hbefore, hd, hstar, Except.toBool] at h
      · simp [compileFrom, hbefore, hstar, Except.toBool] at h

/-- If the front of a pattern up to a slash compiles, then it does not matter for what follows. -/
theorem toBool_compileFrom_slash (hslash : '/' ∉ cs)
    (h : (compileFrom position before done cs).toBool = true) (rest : List Char) :
    (compileFrom position before done (cs ++ '/' :: rest)).toBool =
      (compileFrom 0 (some '/') [] rest).toBool := by
  induction hn : cs.length using Nat.strongRecOn generalizing cs position before done with
  | ind n ih =>
    subst hn
    have hnext {front : List Char} {position before done} (hfront : front <:+ cs)
        (hshort : front.length < cs.length)
        (h : (compileFrom position before done front).toBool = true) :
        (compileFrom position before done (front ++ '/' :: rest)).toBool =
          (compileFrom 0 (some '/') [] rest).toBool :=
      ih _ hshort (fun hmem => hslash (hfront.subset hmem)) h rfl
    cases cs with
    | nil =>
      rw [List.nil_append, compileFrom_plain (by decide)]
      exact toBool_compileFrom _ _ _ _ _ _
    | cons c cs =>
      have htail : cs <:+ c :: cs := List.suffix_cons c cs
      rw [List.cons_append]
      by_cases hany : c = '?'
      · subst hany
        rw [compileFrom_anyChar] at h ⊢
        exact hnext htail (Nat.lt_succ_self _) h
      by_cases hstar : c = '*'
      · subst hstar
        by_cases hdouble : ∃ after, cs = '*' :: after
        · obtain ⟨after, rfl⟩ := hdouble
          have hafter : '/' ∉ after := fun hmem => hslash (by simp [hmem])
          obtain ⟨hbefore, rfl⟩ := eq_nil_of_directories hafter h
          rw [List.singleton_append, compileFrom_directories hbefore]
          exact toBool_compileFrom _ _ _ _ _ _
        · have hsingle : ∀ after, cs ++ '/' :: rest ≠ '*' :: after := by
            intro after heq
            cases cs with
            | nil => cases heq
            | cons d cs =>
              obtain ⟨rfl, -⟩ := List.cons_eq_cons.mp heq
              exact hdouble ⟨cs, rfl⟩
          rw [compileFrom_anyText fun after heq => hdouble ⟨after, heq⟩] at h
          rw [compileFrom_anyText hsingle]
          exact hnext htail (Nat.lt_succ_self _) h
      by_cases hclass : c = '['
      · subst hclass
        cases hread : readClass cs with
        | none =>
          rw [compileFrom_noClass hread] at h
          cases h
        | some found =>
          obtain ⟨t, after⟩ := found
          obtain ⟨hsuffix, -⟩ := suffix_of_readClass hread
          rw [compileFrom_class hread] at h
          rw [compileFrom_class (readClass_append hread _)]
          apply (toBool_compileFrom _ _ _ _ _ _).trans
          exact hnext (hsuffix.trans htail) (Nat.lt_succ_of_le hsuffix.length_le) h
      · have hplain : IsPlain c := ⟨hany, hstar, hclass⟩
        rw [compileFrom_plain hplain] at h ⊢
        exact hnext htail (Nat.lt_succ_self _) h

/-! ## All components -/

/-- Behind a slash, components that compile make a pattern that compiles. -/
theorem toBool_compileFrom_joinSegments (hne : ss ≠ []) (hslash : ∀ s ∈ ss, '/' ∉ s.toList)
    (h : ∀ s ∈ ss, Compiles s) :
    (compileFrom 0 (some '/') [] (Path.joinSegments ss).toList).toBool = true := by
  induction ss with
  | nil => exact absurd rfl hne
  | cons s ss ih =>
    obtain ⟨hs, hss⟩ := List.forall_mem_cons.mp h
    obtain ⟨hsslash, hssslash⟩ := List.forall_mem_cons.mp hslash
    have hfirst : (compileFrom 0 (some '/') [] s.toList).toBool = true := by
      rw [← compileFrom_none]
      exact hs
    by_cases hnil : ss = []
    · rw [hnil, Path.joinSegments]
      exact hfirst
    · rw [Path.toList_joinSegments_cons s hnil, toBool_compileFrom_slash hsslash hfirst]
      exact ih hnil hssslash hss

/-- A path compiles as a pattern if its components do. -/
theorem compiles_text {pattern : Path} (hne : pattern.segments ≠ []) (hslash : pattern.SlashFree)
    (h : ∀ s ∈ pattern.segments, Compiles s) : Compiles pattern.text := by
  have hbehind := toBool_compileFrom_joinSegments hne hslash h
  unfold Compiles compile
  cases hrooted : pattern.rooted with
  | true =>
    rw [Path.toList_text hrooted, compileFrom_plain (by decide), ← hbehind]
    exact toBool_compileFrom _ _ _ _ _ _
  | false =>
    rw [Path.text, hrooted, compileFrom_none]
    simpa using hbehind

theorem mem_componentsOf_of_mem {pattern : Path} (h : s ∈ pattern.segments) (hne : s ≠ "") :
    s ∈ componentsOf pattern := by
  have hkept : s ∈ if pattern.segments.getLast? = some "" then pattern.segments.dropLast
      else pattern.segments := by
    split
    · rename_i hlast
      obtain ⟨front, hfront⟩ := List.getLast?_eq_some_iff.mp hlast
      rw [hfront] at h ⊢
      rw [List.dropLast_concat]
      simpa [hne] using h
    · exact h
  unfold componentsOf
  simp only
  rw [if_neg (List.ne_nil_of_mem hkept)]
  exact hkept

/-- The components that an expansion follows differ from the segments by empty ones only, and those
compile. -/
theorem forall_componentsOf_iff {pattern : Path} :
    (∀ c ∈ componentsOf pattern, Compiles c) ↔ ∀ s ∈ pattern.segments, Compiles s := by
  constructor
  · intro h s hs
    by_cases hempty : s = ""
    · exact hempty ▸ compiles_empty
    · exact h s (mem_componentsOf_of_mem hs hempty)
  · intro h c hc
    rcases mem_of_mem_componentsOf hc with hc | rfl
    · exact h c hc
    · exact compiles_empty

theorem toBool_mapM_iff {ε α β : Type} {f : α → Except ε β} {xs : List α} :
    (xs.mapM f).toBool = true ↔ ∀ x ∈ xs, (f x).toBool = true := by
  induction xs with
  | nil => simp [pure, Except.pure, Except.toBool]
  | cons x xs ih =>
    rw [List.mapM_cons, List.forall_mem_cons, ← ih]
    cases f x with
    | error e => simp [bind, Except.bind, Except.toBool]
    | ok y => cases xs.mapM f <;> simp [bind, Except.bind, pure, Except.pure, Except.toBool]

/-- A pattern can be expanded, on any disk, if all its components compile. -/
theorem toBool_expand_iff (d : Disk) {pattern : Path} (hne : pattern.segments ≠ [])
    (hslash : pattern.SlashFree) :
    (expand d pattern).toBool = true ↔ ∀ s ∈ pattern.segments, Compiles s := by
  rw [← forall_componentsOf_iff]
  constructor
  · intro h
    cases hexpand : expand d pattern with
    | error e =>
      rw [hexpand] at h
      cases h
    | ok found =>
      obtain ⟨components, hcomponents, -⟩ := exists_components_of_expand hexpand
      apply toBool_mapM_iff.mp
      rw [hcomponents]
      rfl
  · intro h
    obtain ⟨whole, hwhole⟩ :=
      compiles_iff.mp (compiles_text hne hslash (forall_componentsOf_iff.mp h))
    obtain ⟨components, hcomponents⟩ : ∃ ps, (componentsOf pattern).mapM compile = .ok ps := by
      have hall := toBool_mapM_iff.mpr h
      cases hmap : (componentsOf pattern).mapM compile with
      | error e =>
        rw [hmap] at hall
        cases hall
      | ok ps => exact ⟨ps, rfl⟩
    unfold expand
    rw [hwhole, hcomponents]
    rfl

end CmsVariables.Glob
