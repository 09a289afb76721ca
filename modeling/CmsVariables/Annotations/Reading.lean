import CmsVariables.Annotations.Form

/-!
# Reading one annotation

`Form.read?` reads the annotation that begins at the front of a text. Every piece takes as many
characters as it can, and only the border between tags and name asks for more: where no name
follows the tag run, its last letter is the name (`splitTags`). So reading never has to try a second
way of cutting.

* `Form.text_of_read?`: what was read and what is left make up the text.
* `Form.wellFormed_of_read?`: what was read obeys the grammar.
-/

namespace CmsVariables.Annotations

open Text

/-- The blank that may stand before the tags. -/
def leadingBlank : List Char → List Char
  | c :: _ => if isBlank c then [c] else []
  | [] => []

/-- The border between tags and name, given the longest run of tag characters and the longest run of
name characters after it. Without such characters the last letter of the tag run is the name. -/
def splitTags (run word : List Char) : Option (List Char × List Char) :=
  match word with
  | _ :: _ => if run = [] then none else some (run, word)
  | [] =>
    match run.getLast? with
    | some c => if c = ':' ∨ run.dropLast = [] then none else some (run.dropLast, [c])
    | none => none

/-- The text after its first character, if that is a quote. -/
def afterQuote? : List Char → Option (List Char)
  | c :: cs => if c = '\'' then some cs else none
  | [] => none

namespace Form

/-- The rest of an annotation after its opening delimiter, and the text after it. -/
def readAfter (opening cs : List Char) : Option (Form × List Char) := do
  let blank := leadingBlank cs
  let cs := cs.drop blank.length
  let run := cs.takeWhile isTag
  let cs := cs.dropWhile isTag
  let word := cs.takeWhile isNameChar
  let cs := cs.dropWhile isNameChar
  let (tags, name) ← splitTags run word
  let middle := cs.takeWhile isDelimiter
  let cs ← afterQuote? (cs.dropWhile isDelimiter)
  let content := cs.takeWhile isContentChar
  let cs ← afterQuote? (cs.dropWhile isContentChar)
  let closing := cs.takeWhile isDelimiter
  if middle = [] ∨ closing = [] then none
  else some (⟨opening, blank, tags, name, middle, content, closing⟩, cs.dropWhile isDelimiter)

/-- The annotation at the front of a text, and the text after it. -/
def read? (cs : List Char) : Option (Form × List Char) :=
  let opening := cs.takeWhile isDelimiter
  if opening = [] then none else readAfter opening (cs.dropWhile isDelimiter)

end Form

/-! ## What was read -/

theorem leadingBlank_append_drop (cs : List Char) :
    leadingBlank cs ++ cs.drop (leadingBlank cs).length = cs := by
  cases cs with
  | nil => rfl
  | cons c cs =>
    by_cases hc : isBlank c = true
    · simp [leadingBlank, hc]
    · simp [leadingBlank, hc]

theorem length_leadingBlank_le (cs : List Char) : (leadingBlank cs).length ≤ 1 := by
  cases cs with
  | nil => exact Nat.zero_le 1
  | cons c cs =>
    by_cases hc : isBlank c = true
    · simp [leadingBlank, hc]
    · simp [leadingBlank, hc]

theorem isBlank_of_mem_leadingBlank {cs : List Char} {c : Char} (h : c ∈ leadingBlank cs) :
    isBlank c = true := by
  cases cs with
  | nil => cases h
  | cons d cs =>
    by_cases hd : isBlank d = true
    · simp only [leadingBlank, hd, if_true, List.mem_singleton] at h
      exact h ▸ hd
    · simp [leadingBlank, hd] at h

theorem mem_takeWhile {α : Type} {p : α → Bool} {xs : List α} {x : α} (h : x ∈ xs.takeWhile p) :
    p x = true := by
  induction xs with
  | nil => cases h
  | cons y ys ih =>
    rw [List.takeWhile_cons] at h
    split at h
    · rcases List.mem_cons.mp h with rfl | hx
      · assumption
      · exact ih hx
    · cases h

theorem splitTags_append {run word tags name : List Char}
    (h : splitTags run word = some (tags, name)) : tags ++ name = run ++ word := by
  unfold splitTags at h
  split at h
  · split at h
    · cases h
    · cases h
      rfl
  · split at h
    · rename_i c hc
      split at h
      · cases h
      · cases h
        obtain ⟨ys, rfl⟩ := List.getLast?_eq_some_iff.mp hc
        simp
    · cases h

theorem isNameChar_of_isTag {c : Char} (h : isTag c = true) (hc : c ≠ ':') :
    isNameChar c = true := by
  simp only [isTag, Bool.or_eq_true, beq_iff_eq, hc, or_false] at h
  rcases h with ((((((h | h) | h) | h) | h) | h) | h) | h <;> (subst h; decide)

theorem splitTags_classes {run word tags name : List Char} (hrun : ∀ c ∈ run, isTag c = true)
    (hword : ∀ c ∈ word, isNameChar c = true) (h : splitTags run word = some (tags, name)) :
    tags ≠ [] ∧ (∀ c ∈ tags, isTag c = true) ∧ name ≠ [] ∧ ∀ c ∈ name, isNameChar c = true := by
  unfold splitTags at h
  split at h
  · split at h
    · cases h
    · rename_i hne
      cases h
      exact ⟨hne, hrun, List.cons_ne_nil _ _, hword⟩
  · split at h
    · rename_i c hc
      split at h
      · cases h
      · rename_i hne
        simp only [not_or] at hne
        cases h
        have hmem : c ∈ run := List.mem_of_getLast? hc
        refine ⟨hne.2, fun d hd => hrun d (List.dropLast_subset run hd), List.cons_ne_nil _ _, ?_⟩
        intro d hd
        rw [List.mem_singleton.mp hd]
        exact isNameChar_of_isTag (hrun c hmem) hne.1
    · cases h

theorem afterQuote?_eq_some {cs rest : List Char} :
    afterQuote? cs = some rest ↔ cs = '\'' :: rest := by
  cases cs with
  | nil => simp [afterQuote?]
  | cons c cs =>
    by_cases hc : c = '\''
    · simp [afterQuote?, hc]
    · simp [afterQuote?, hc]

namespace Form

/-- The steps of a successful reading. -/
theorem read?_eq_some {cs rest : List Char} {f : Form} (h : read? cs = some (f, rest)) :
    ∃ run word afterOpening afterWord inside after,
      cs = f.opening ++ afterOpening ∧
      f.opening = cs.takeWhile isDelimiter ∧ f.opening ≠ [] ∧
      f.blank = leadingBlank afterOpening ∧
      afterOpening = f.blank ++ (run ++ (word ++ afterWord)) ∧
      run = (afterOpening.drop f.blank.length).takeWhile isTag ∧
      word = ((afterOpening.drop f.blank.length).dropWhile isTag).takeWhile isNameChar ∧
      splitTags run word = some (f.tags, f.name) ∧
      f.middle = afterWord.takeWhile isDelimiter ∧ f.middle ≠ [] ∧
      afterWord = f.middle ++ '\'' :: inside ∧
      f.content = inside.takeWhile isContentChar ∧
      inside = f.content ++ '\'' :: after ∧
      f.closing = after.takeWhile isDelimiter ∧ f.closing ≠ [] ∧
      after = f.closing ++ rest := by
  simp only [read?] at h
  split at h
  · cases h
  rename_i hopening
  simp only [readAfter, Option.bind_eq_bind, Option.bind_eq_some_iff, Prod.exists] at h
  obtain ⟨tags, name, hsplit, inside, hinside, after, hafter, h⟩ := h
  split at h
  · cases h
  · rename_i hne
    simp only [not_or] at hne
    obtain ⟨hmiddle, hclosing⟩ := hne
    cases h
    rw [afterQuote?_eq_some] at hinside hafter
    refine ⟨_, _, cs.dropWhile isDelimiter, _, inside, after,
      List.takeWhile_append_dropWhile.symm, rfl, hopening, rfl, ?_, rfl, rfl, hsplit, rfl, hmiddle, ?_, rfl,
      ?_, rfl, hclosing, List.takeWhile_append_dropWhile.symm⟩
    · rw [List.takeWhile_append_dropWhile, List.takeWhile_append_dropWhile,
        leadingBlank_append_drop]
    · rw [← hinside, List.takeWhile_append_dropWhile]
    · rw [← hafter, List.takeWhile_append_dropWhile]

theorem text_of_read? {cs rest : List Char} {f : Form} (h : read? cs = some (f, rest)) :
    cs = f.text ++ rest := by
  obtain ⟨run, word, afterOpening, afterWord, inside, after, h1, -, -, -, h2, -, -, h3, -, -, h4,
    -, h5, -, -, h6⟩ := read?_eq_some h
  have h7 : run ++ (word ++ afterWord) = f.tags ++ (f.name ++ afterWord) := by
    rw [← List.append_assoc, ← List.append_assoc, splitTags_append h3]
  rw [h1, h2, h7, h4, h5, h6]
  simp [Form.text]

theorem wellFormed_of_read? {cs rest : List Char} {f : Form} (h : read? cs = some (f, rest)) :
    f.WellFormed := by
  obtain ⟨run, word, afterOpening, afterWord, inside, after, -, h1, h2, h3, -, h4, h5, h6, h7, h8,
    -, h9, -, h10, h11, -⟩ := read?_eq_some h
  have hrun : ∀ c ∈ run, isTag c = true := fun c hc => by
    rw [h4] at hc
    exact mem_takeWhile hc
  have hword : ∀ c ∈ word, isNameChar c = true := fun c hc => by
    rw [h5] at hc
    exact mem_takeWhile hc
  obtain ⟨htags, htagsAll, hname, hnameAll⟩ := splitTags_classes hrun hword h6
  exact
    { opening_ne := h2
      opening_all := fun c hc => mem_takeWhile (h1 ▸ hc)
      blank_le := h3 ▸ length_leadingBlank_le afterOpening
      blank_all := fun c hc => isBlank_of_mem_leadingBlank (h3 ▸ hc)
      tags_ne := htags
      tags_all := htagsAll
      name_ne := hname
      name_all := hnameAll
      middle_ne := h8
      middle_all := fun c hc => mem_takeWhile (h7 ▸ hc)
      content_all := fun c hc => mem_takeWhile (h9 ▸ hc)
      closing_ne := h11
      closing_all := fun c hc => mem_takeWhile (h10 ▸ hc) }

theorem length_lt_of_read? {cs rest : List Char} {f : Form} (h : read? cs = some (f, rest)) :
    rest.length < cs.length := by
  rw [text_of_read? h]
  simp only [Form.text, List.length_append, List.length_cons]
  omega

end Form

end CmsVariables.Annotations
