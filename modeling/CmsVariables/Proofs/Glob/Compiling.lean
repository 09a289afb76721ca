import CmsVariables.Glob.Expansion
import Mathlib.Data.List.Basic

/-!
# Compiling parts of a pattern

A text without wildcards compiles to its characters. In front of a pattern, with a slash between, it
does not change whether the pattern compiles; it only moves the place where a fault is reported.

An expansion follows a pattern component by component. It goes up only by a component that begins
with a dot and matches the double dot.

* `step`: what one step of compiling does.
* `compile_of_plain`, `toBool_compileFrom_plain`: compiling a plain text, and behind one.
* `Pattern.StaysInside`, `staysInside_of_compile`: the components that do not lead up.
-/

namespace CmsVariables.Glob

variable {position : ℕ} {before : Option Char} {done : List Token} {c d : Char}
  {cs rest : List Char} {t t' : Token} {p : Pattern} {s : String}

/-! ## One step -/

/-- The character has no meaning of its own in a pattern. -/
def IsPlain (c : Char) : Prop := c ≠ '?' ∧ c ≠ '*' ∧ c ≠ '['

instance : DecidablePred IsPlain := fun c =>
  inferInstanceAs (Decidable (c ≠ '?' ∧ c ≠ '*' ∧ c ≠ '['))

theorem compileFrom_plain (hc : IsPlain c) : compileFrom position before done (c :: cs) =
    compileFrom (position + 1) (some c) (.char c :: done) cs := by
  rw [compileFrom.eq_def]
  exact (if_neg hc.1).trans ((if_neg hc.2.1).trans (if_neg hc.2.2))

theorem compileFrom_anyChar : compileFrom position before done ('?' :: cs) =
    compileFrom (position + 1) (some '?') (.anyChar :: done) cs := by
  rw [compileFrom.eq_def]
  exact if_pos rfl

theorem compileFrom_anyText (h : ∀ after, cs ≠ '*' :: after) :
    compileFrom position before done ('*' :: cs) =
      compileFrom (position + 1) (some '*') (.anyText :: done) cs := by
  simp [compileFrom, h]

theorem compileFrom_directories (hbefore : before = none ∨ before = some '/') :
    compileFrom position before done ('*' :: '*' :: '/' :: rest) =
      compileFrom (position + 3) (some '/') (pushDirectories done) rest := by
  rw [compileFrom.eq_def]
  exact if_pos hbefore

theorem bracket_ne_query : '[' ≠ '?' := by decide

theorem bracket_ne_star : '[' ≠ '*' := by decide

theorem compileFrom_class (h : readClass cs = some (t, rest)) :
    compileFrom position before done ('[' :: cs) =
      compileFrom (position + (1 + (cs.length - rest.length))) (some ']') (t :: done) rest := by
  rw [compileFrom.eq_def, ← Nat.add_assoc]
  dsimp only
  rw [if_neg bracket_ne_query, if_neg bracket_ne_star, if_pos rfl]
  split
  · rename_i hread
    obtain ⟨rfl, rfl⟩ := Prod.mk.inj (Option.some.inj (h.symm.trans hread))
    rfl
  · rename_i hread
    rw [h] at hread
    cases hread

theorem compileFrom_noClass (h : readClass cs = none) :
    compileFrom position before done ('[' :: cs) = .error ⟨position, .range⟩ := by
  rw [compileFrom.eq_def]
  dsimp only
  rw [if_neg bracket_ne_query, if_neg bracket_ne_star, if_pos rfl]
  split
  · rename_i hread
    rw [h] at hread
    cases hread
  · rfl

theorem suffix_of_readClass (h : readClass cs = some (t, rest)) :
    rest <:+ cs ∧ ∀ c, t ≠ .char c := by
  have key : ∀ {ds after : List Char} {d : Char}, ds.dropWhile (· != ']') = d :: after →
      after <:+ ds := fun hds =>
    (List.suffix_cons _ _).trans (hds ▸ List.dropWhile_suffix _)
  unfold readClass at h
  split at h
  · split at h
    · rename_i hdrop
      cases h
      exact ⟨(key hdrop).trans ((List.suffix_cons _ _).trans (List.suffix_cons _ _)), fun _ => nofun⟩
    · cases h
  · cases h
  · split at h
    · rename_i hdrop
      cases h
      exact ⟨(key hdrop).trans (List.suffix_cons _ _), fun _ => nofun⟩
    · cases h
  · cases h

theorem mem_pushDirectories (h : t ∈ pushDirectories done) : t ∈ done ∨ t = .directories := by
  unfold pushDirectories at h
  split at h
  · exact Or.inl h
  · exact (List.mem_cons.mp h).symm

/-- A token that is read where `c` stands: it is no plain character but `c`. -/
def ReadAt (c : Char) (t : Token) : Prop := ∀ d, t = .char d → d = c

theorem ReadAt.of_mem_cons (ht : ReadAt c t') (h : t ∈ t' :: done) : t ∈ done ∨ ReadAt c t := by
  rcases List.mem_cons.mp h with rfl | h
  · exact Or.inr ht
  · exact Or.inl h

theorem ReadAt.of_mem_pushDirectories (h : t ∈ pushDirectories done) : t ∈ done ∨ ReadAt c t := by
  rcases mem_pushDirectories h with h | rfl
  · exact Or.inl h
  · exact Or.inr fun _ => nofun

/-- What one step of compiling does, wherever it stands and whatever was read: it fails, or it ends
with any number of directories, or it goes on behind what it has read. -/
inductive Step (before : Option Char) (c : Char) (cs : List Char) : Prop where
  | fails (h : ∀ position done, (compileFrom position before done (c :: cs)).toBool = false)
  | ends (h : ∀ position done,
      compileFrom position before done (c :: cs) = .ok (pushDirectories done).reverse)
  | goesOn {skip : ℕ} {push : List Token → List Token} {before' : Option Char} {rest : List Char}
      (hrest : rest <:+ cs) (hpush : ∀ done, ∀ t ∈ push done, t ∈ done ∨ ReadAt c t)
      (h : ∀ position done, compileFrom position before done (c :: cs) =
        compileFrom (position + skip) before' (push done) rest)

theorem step_star (before : Option Char) (cs : List Char) : Step before '*' cs := by
  by_cases hdouble : ∃ after, cs = '*' :: after
  · obtain ⟨after, rfl⟩ := hdouble
    by_cases hbefore : before = none ∨ before = some '/'
    · cases after with
      | nil =>
        refine .ends fun position done => ?_
        rw [compileFrom.eq_def]
        exact if_pos hbefore
      | cons d rest =>
        by_cases hslash : d = '/'
        · subst hslash
          have hrest : rest <:+ '*' :: '/' :: rest := ⟨['*', '/'], rfl⟩
          exact .goesOn hrest (fun _ _ => ReadAt.of_mem_pushDirectories)
            fun _ _ => compileFrom_directories hbefore
        · refine .fails fun position done => ?_
          by_cases hstar : d = '*'
          · subst hstar
            simp [compileFrom, Except.toBool]
          · simp [compileFrom, hbefore, hslash, hstar, Except.toBool]
    · refine .fails fun position done => ?_
      cases after with
      | nil => simp [compileFrom, hbefore, Except.toBool]
      | cons d rest =>
        by_cases hstar : d = '*'
        · subst hstar
          simp [compileFrom, Except.toBool]
        · simp [compileFrom, hbefore, hstar, Except.toBool]
  · refine .goesOn (List.suffix_refl cs) ?_ fun position done => compileFrom_anyText ?_
    · exact fun _ _ => ReadAt.of_mem_cons fun _ h => Token.noConfusion h
    · exact fun after h => hdouble ⟨after, h⟩

theorem step (before : Option Char) (c : Char) (cs : List Char) : Step before c cs := by
  by_cases hany : c = '?'
  · subst hany
    refine .goesOn (List.suffix_refl cs) ?_ fun position done => compileFrom_anyChar
    exact fun _ _ => ReadAt.of_mem_cons fun _ => nofun
  by_cases hstar : c = '*'
  · subst hstar
    exact step_star before cs
  by_cases hclass : c = '['
  · subst hclass
    cases hread : readClass cs with
    | none =>
      refine .fails fun position done => ?_
      rw [compileFrom_noClass hread]
      rfl
    | some found =>
      obtain ⟨t, rest⟩ := found
      obtain ⟨hrest, ht⟩ := suffix_of_readClass hread
      refine .goesOn hrest ?_ fun position done => compileFrom_class hread
      exact fun _ _ => ReadAt.of_mem_cons fun d hd => absurd hd (ht d)
  · refine .goesOn (List.suffix_refl cs) ?_ fun position done =>
      compileFrom_plain ⟨hany, hstar, hclass⟩
    exact fun _ _ => ReadAt.of_mem_cons fun d hd => (Token.char.inj hd).symm

/-! ## Plain texts -/

/-- No character of the text has a meaning of its own in a pattern. -/
def Plain (s : String) : Prop := ∀ c ∈ s.toList, IsPlain c

instance : DecidablePred Plain := fun s => s.toList.decidableBAll IsPlain

/-- The pattern that matches one text only. -/
def literal (s : String) : Pattern := s.toList.map .char

theorem compile_of_plain (h : Plain s) : compile s = .ok (literal s) := by
  have hfrom : ∀ cs : List Char, (∀ c ∈ cs, IsPlain c) → ∀ position before done,
      compileFrom position before done cs = .ok (done.reverse ++ cs.map .char) := by
    intro cs hcs
    induction cs with
    | nil =>
      intro position before done
      rw [compileFrom, List.map_nil, List.append_nil]
    | cons c cs ih =>
      intro position before done
      obtain ⟨hc, hcs⟩ := List.forall_mem_cons.mp hcs
      rw [compileFrom_plain hc, ih hcs, List.reverse_cons, List.append_assoc, List.map_cons,
        List.singleton_append]
  exact hfrom s.toList h 0 none []

/-- Whether the rest of a pattern compiles is told by the character before it, not by its place. -/
theorem toBool_compileFrom (cs : List Char) (before : Option Char) (position position' : ℕ)
    (done done' : List Token) : (compileFrom position before done cs).toBool =
      (compileFrom position' before done' cs).toBool := by
  induction hn : cs.length using Nat.strongRecOn generalizing cs before position position' done done'
    with
  | ind n ih =>
    subst hn
    cases cs with
    | nil =>
      rw [compileFrom, compileFrom]
      rfl
    | cons c cs =>
      cases step before c cs with
      | fails h => rw [h, h]
      | ends h =>
        rw [h, h]
        rfl
      | goesOn hrest _ h =>
        rw [h, h]
        exact ih _ (Nat.lt_succ_of_le hrest.length_le) _ _ _ _ _ _ rfl

/-- Behind a plain text and a slash a pattern compiles if it does behind a slash. -/
theorem toBool_compileFrom_plain (h : ∀ c ∈ cs, IsPlain c) (rest : List Char) :
    (compileFrom position before done (cs ++ '/' :: rest)).toBool =
      (compileFrom 0 (some '/') [] rest).toBool := by
  induction cs generalizing position before done with
  | nil =>
    rw [List.nil_append, compileFrom_plain (by decide)]
    exact toBool_compileFrom _ _ _ _ _ _
  | cons c cs ih =>
    obtain ⟨hc, hcs⟩ := List.forall_mem_cons.mp h
    rw [List.cons_append, compileFrom_plain hc]
    exact ih hcs

/-! ## Components that stay inside -/

/-- An expansion does not follow the component upward, and it is a single component. -/
structure Pattern.StaysInside (p : Pattern) : Prop where
  noSlash : .char '/' ∉ p
  noUp : p.head? = some (.char '.') → p.acceptsText ".." = false

theorem mem_of_compileFrom (h : compileFrom position before done cs = .ok p)
    (hc : .char c ∈ p) : .char c ∈ done ∨ c ∈ cs := by
  induction hn : cs.length using Nat.strongRecOn generalizing cs before position done with
  | ind n ih =>
    subst hn
    cases cs with
    | nil =>
      rw [compileFrom] at h
      cases h
      exact Or.inl (List.mem_reverse.mp hc)
    | cons d cs =>
      cases step before d cs with
      | fails hfails =>
        have hfalse := hfails position done
        rw [h] at hfalse
        cases hfalse
      | ends hends =>
        rw [hends] at h
        cases h
        exact (mem_pushDirectories (List.mem_reverse.mp hc)).imp_right Token.noConfusion
      | goesOn hrest hpush hgoes =>
        rw [hgoes] at h
        rcases ih _ (Nat.lt_succ_of_le hrest.length_le) h rfl with hdone | hmem
        · refine (hpush _ _ hdone).imp_right fun hread => ?_
          exact hread c rfl ▸ List.mem_cons_self
        · exact Or.inr (List.mem_cons_of_mem _ (hrest.subset hmem))

/-- A component of a pattern that an expansion follows upward: it begins with a dot and matches the
double dot. -/
def LeadsUp (component : String) : Prop :=
  ∃ p, compile component = .ok p ∧ p.head? = some (.char '.') ∧ p.acceptsText ".." = true

theorem staysInside_of_compile (h : compile s = .ok p) (hslash : '/' ∉ s.toList)
    (hup : ¬LeadsUp s) : p.StaysInside where
  noSlash hmem := (mem_of_compileFrom h hmem).elim List.not_mem_nil hslash
  noUp hhead := Bool.eq_false_iff.mpr fun haccepts => hup ⟨p, h, hhead, haccepts⟩

theorem eq_literal_of_literal? (h : literal? p = some s) : p = literal s := by
  induction p generalizing s with
  | nil =>
    cases h
    rfl
  | cons t ts ih =>
    cases t with
    | char c =>
      rw [literal?] at h
      obtain ⟨rest, hrest, rfl⟩ := Option.map_eq_some_iff.mp h
      rw [ih hrest, literal, literal, String.toList_append, String.toList_singleton,
        List.singleton_append, List.map_cons]
    | _ => cases h

theorem literal?_literal (s : String) : literal? (literal s) = some s := by
  have hchars : ∀ cs : List Char, literal? (cs.map .char) = some (String.ofList cs) := by
    intro cs
    induction cs with
    | nil => rfl
    | cons c cs ih =>
      rw [List.map_cons, literal?, ih, Option.map_some, Option.some_inj, ← String.toList_inj]
      simp
  rw [literal, hchars, String.ofList_toList]

/-- A plain component that stays inside goes down or stays. -/
theorem Pattern.StaysInside.literal? (h : p.StaysInside) (hs : Glob.literal? p = some s) :
    s ≠ ".." ∧ '/' ∉ s.toList := by
  obtain rfl := eq_literal_of_literal? hs
  constructor
  · rintro rfl
    have haccepts := h.noUp rfl
    revert haccepts
    decide
  · exact fun hmem => h.noSlash (List.mem_map_of_mem hmem)

end CmsVariables.Glob
