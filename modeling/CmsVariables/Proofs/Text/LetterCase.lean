import CmsVariables.Text.LetterCase
import Mathlib.Data.List.TakeWhile

/-!
# Lower case around separators

An underscore and a hyphen have no case and are not passed over when the case of their neighbours is
asked. So no sigma sees past one: a text is lower-cased from one of them to the next, and it makes no
difference which of the two it is. No other character becomes a hyphen in lower case.

* `lower_append_underscore`: what stands before and after an underscore is lower-cased by itself.
* `lower_withUnderscores`: hyphens can be replaced before or after.
-/

namespace CmsVariables.Text

/-! ## Neighbours -/

theorem caseIgnorable_separators :
    caseIgnorablePoints.has '_' = false ∧ caseIgnorablePoints.has '-' = false := by decide +kernel

theorem cased_separators : casedPoints.has '_' = false ∧ casedPoints.has '-' = false := by
  decide +kernel

/-- What follows an underscore does not count as a neighbour. -/
theorem startsCased_append_underscore (cs ds : List Char) :
    startsCased (cs ++ '_' :: ds) = startsCased cs := by
  have hstop : ('_' :: ds).dropWhile caseIgnorablePoints.has = '_' :: ds := by
    rw [List.dropWhile_cons, if_neg (Bool.eq_false_iff.mp caseIgnorable_separators.1)]
  rw [startsCased, startsCased, List.dropWhile_append, hstop]
  cases hcs : cs.dropWhile caseIgnorablePoints.has with
  | nil => exact cased_separators.1
  | cons c cs => rfl

/-- An underscore for a hyphen. -/
def underscoreFor (c : Char) : Char := if c = '-' then '_' else c

theorem underscoreFor_of_ne {c : Char} (h : c ≠ '-') : underscoreFor c = c := if_neg h

theorem has_underscoreFor {s : CodePoints} (h : s.has '_' = s.has '-') (c : Char) :
    s.has (underscoreFor c) = s.has c := by
  by_cases hc : c = '-'
  · rw [hc]
    exact h
  · rw [underscoreFor_of_ne hc]

theorem startsCased_map (cs : List Char) : startsCased (cs.map underscoreFor) = startsCased cs := by
  have hignorable : caseIgnorablePoints.has ∘ underscoreFor = caseIgnorablePoints.has :=
    funext (has_underscoreFor (caseIgnorable_separators.1.trans caseIgnorable_separators.2.symm))
  rw [startsCased, startsCased, List.dropWhile_map, hignorable]
  cases cs.dropWhile caseIgnorablePoints.has with
  | nil => rfl
  | cons c cs => exact has_underscoreFor (cased_separators.1.trans cased_separators.2.symm) c

theorem endsWord_map (before after : List Char) :
    endsWord (before.map underscoreFor) (after.map underscoreFor) = endsWord before after := by
  rw [endsWord, endsWord, startsCased_map, startsCased_map]

/-! ## Characters -/

theorem lowerChar_separators : lowerChar '_' = '_' ∧ lowerChar '-' = '-' := by decide +kernel

/-- All small letters come after the hyphen. -/
theorem capitalRuns_shift : ∀ r ∈ capitalRuns, ('-'.toNat : Int) < r.first + r.shift := by
  decide +kernel

theorem lowerChar_ne_hyphen {c : Char} (h : c ≠ '-') : lowerChar c ≠ '-' := by
  rw [lowerChar]
  split
  · rename_i r hfind
    have hcovers := List.find?_some hfind
    simp only [CaseRun.covers, Bool.and_eq_true, decide_eq_true_eq] at hcovers
    have hshift := capitalRuns_shift r (List.mem_of_find?_eq_some hfind)
    by_cases hvalid : (c.toNat + r.shift).toNat.isValidChar
    · rw [Char.ofNat, dif_pos hvalid]
      intro hhyphen
      have hnat : (c.toNat + r.shift).toNat = '-'.toNat := congrArg Char.toNat hhyphen
      omega
    · rw [Char.ofNat, dif_neg hvalid]
      decide
  · exact h

/-! ## Texts -/

/-- What stands before an underscore makes no difference after it. -/
theorem lowerFrom_append_underscore_left (before above cs : List Char) :
    lowerFrom (before ++ '_' :: above) cs = lowerFrom before cs := by
  induction cs generalizing before with
  | nil => rfl
  | cons c cs ih =>
    rw [lowerFrom, lowerFrom, endsWord, startsCased_append_underscore, ← List.cons_append, ih]
    rfl

theorem lowerFrom_underscore (before cs : List Char) :
    lowerFrom before ('_' :: cs) = '_' :: lowerFrom [] cs := by
  have hrest := lowerFrom_append_underscore_left [] before cs
  rw [List.nil_append] at hrest
  rw [lowerFrom, hrest, if_neg (by decide : '_' ≠ 'Σ'), if_neg (by decide : '_' ≠ 'İ'),
    lowerChar_separators.1]
  rfl

theorem lowerFrom_append_underscore (before xs ys : List Char) :
    lowerFrom before (xs ++ '_' :: ys) = lowerFrom before xs ++ '_' :: lowerFrom [] ys := by
  induction xs generalizing before with
  | nil => exact lowerFrom_underscore before ys
  | cons c xs ih =>
    rw [List.cons_append, lowerFrom, lowerFrom, ih, endsWord, startsCased_append_underscore,
      List.append_assoc]
    rfl

theorem lowerFrom_map (before cs : List Char) :
    lowerFrom (before.map underscoreFor) (cs.map underscoreFor) =
      (lowerFrom before cs).map underscoreFor := by
  induction cs generalizing before with
  | nil => rfl
  | cons c cs ih =>
    have hrest := ih (c :: before)
    rw [List.map_cons] at hrest
    rw [List.map_cons, lowerFrom, lowerFrom, hrest, List.map_append, endsWord_map]
    refine congrArg (· ++ _) ?_
    by_cases hc : c = '-'
    · subst hc
      rw [if_neg (by decide), if_neg (by decide), if_neg (by decide), if_neg (by decide),
        lowerChar_separators.2]
      exact congrArg (fun c => [c]) lowerChar_separators.1
    · rw [underscoreFor_of_ne hc]
      split
      · split <;> rfl
      · split
        · rfl
        · rw [List.map_singleton, underscoreFor_of_ne (lowerChar_ne_hyphen hc)]

/-- A text with underscores for hyphens. -/
def withUnderscores (s : String) : String := String.ofList (s.toList.map underscoreFor)

/-- What stands before and after an underscore is lower-cased by itself. -/
theorem lower_append_underscore (s t : String) :
    lower (s ++ "_" ++ t) = lower s ++ "_" ++ lower t := by
  apply String.toList_inj.mp
  have hchars : (s ++ "_" ++ t).toList = s.toList ++ '_' :: t.toList := by simp
  rw [lower, hchars, lowerFrom_append_underscore]
  simp [lower]

/-- Hyphens can be replaced before or after. -/
theorem lower_withUnderscores (s : String) :
    lower (withUnderscores s) = withUnderscores (lower s) := by
  apply String.toList_inj.mp
  have hmap := lowerFrom_map [] s.toList
  rw [List.map_nil] at hmap
  rw [lower, withUnderscores, withUnderscores, lower, String.toList_ofList, String.toList_ofList,
    String.toList_ofList, String.toList_ofList, hmap]

end CmsVariables.Text
