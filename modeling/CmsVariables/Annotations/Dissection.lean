import CmsVariables.Annotations.Reading

/-!
# Dissecting a text

Annotations are found from left to right: the next one begins at the first place where one can be
read, and the search goes on after it. `dissect` cuts a whole text into the annotations found and
the gaps between them.

* `text_of_next?`: a search loses nothing of the text.
* `text_dissect`: gaps and annotations, put together again, are the text.
-/

namespace CmsVariables.Annotations

/-- An annotation and the text that was passed over to reach it. -/
structure Found where
  gap : List Char
  form : Form
deriving DecidableEq, Repr

/-- The stretch of text that a find accounts for. -/
def Found.text (f : Found) : List Char := f.gap ++ f.form.text

/-- The search of `next?`; `passed` holds the characters already passed over, last one first. -/
def nextFrom (passed : List Char) : List Char → Option (Found × List Char)
  | [] => none
  | c :: cs =>
    match Form.read? (c :: cs) with
    | some (form, rest) => some (⟨passed.reverse, form⟩, rest)
    | none => nextFrom (c :: passed) cs

/-- The first annotation of a text, and the text after it. -/
def next? (cs : List Char) : Option (Found × List Char) := nextFrom [] cs

theorem text_of_nextFrom {passed cs rest : List Char} {f : Found}
    (h : nextFrom passed cs = some (f, rest)) : passed.reverse ++ cs = f.text ++ rest := by
  induction cs generalizing passed with
  | nil => cases h
  | cons c cs ih =>
    rw [nextFrom] at h
    split at h
    · rename_i form tail hread
      cases h
      rw [Form.text_of_read? hread]
      simp [Found.text]
    · have hrec := ih h
      rwa [List.reverse_cons, List.append_assoc, List.singleton_append] at hrec

theorem text_of_next? {cs rest : List Char} {f : Found} (h : next? cs = some (f, rest)) :
    cs = f.text ++ rest :=
  text_of_nextFrom h

theorem length_lt_of_nextFrom {passed cs rest : List Char} {f : Found}
    (h : nextFrom passed cs = some (f, rest)) : rest.length < cs.length := by
  induction cs generalizing passed with
  | nil => cases h
  | cons c cs ih =>
    rw [nextFrom] at h
    split at h
    · rename_i form tail hread
      cases h
      exact Form.length_lt_of_read? hread
    · exact Nat.lt_succ_of_lt (ih h)

theorem length_lt_of_next? {cs rest : List Char} {f : Found} (h : next? cs = some (f, rest)) :
    rest.length < cs.length :=
  length_lt_of_nextFrom h

/-- All annotations of a text with the gaps before them, and the text after the last one. -/
def dissect (cs : List Char) : List Found × List Char :=
  match _h : next? cs with
  | none => ([], cs)
  | some (f, rest) =>
    let (fs, tail) := dissect rest
    (f :: fs, tail)
termination_by cs.length
decreasing_by exact length_lt_of_next? _h

theorem dissect_of_none {cs : List Char} (h : next? cs = none) : dissect cs = ([], cs) := by
  rw [dissect]
  split
  · rfl
  · rename_i h'
    rw [h] at h'
    cases h'

theorem dissect_of_some {cs rest : List Char} {f : Found} (h : next? cs = some (f, rest)) :
    dissect cs = (f :: (dissect rest).1, (dissect rest).2) := by
  rw [dissect]
  split
  · rename_i h'
    rw [h] at h'
    cases h'
  · rename_i h'
    rw [h] at h'
    cases h'
    rfl

theorem text_dissect (cs : List Char) :
    (dissect cs).1.flatMap Found.text ++ (dissect cs).2 = cs := by
  cases h : next? cs with
  | none => rw [dissect_of_none h]; rfl
  | some p =>
    obtain ⟨f, rest⟩ := p
    have hlt := length_lt_of_next? h
    rw [dissect_of_some h, List.flatMap_cons, List.append_assoc, text_dissect rest]
    exact (text_of_next? h).symm
termination_by cs.length

end CmsVariables.Annotations
