import CmsVariables.Annotations.Occurrence
import Mathlib.Data.List.TakeWhile

/-!
# Reading and the grammar

A written annotation can be cut into pieces in several ways, but only at the border between tags and
name: the classes of all other neighbours have no character in common. Reading takes the cut with the
shortest name, and reads on over all delimiters that follow.

* `Form.read?_text_append`: what the grammar allows is read.
* `Form.prefix_text_of_read?`: what is read is the longest annotation that is written there.
* `Form.eq_or_length_lt_of_read?`: every other way of cutting it has a longer name.
* `Form.read?_eq_some_iff`: what is read, told without reading.
-/

namespace CmsVariables.Annotations

open Text

/-! ## Classes of characters -/

theorem eq_of_isDelimiter {c : Char} (h : isDelimiter c = true) : c = '/' ∨ c = '*' := by
  simpa [isDelimiter] using h

theorem not_isTag_of_isDelimiter {c : Char} (h : isDelimiter c = true) : isTag c = false := by
  rcases eq_of_isDelimiter h with rfl | rfl <;> decide

theorem not_isNameChar_of_isDelimiter {c : Char} (h : isDelimiter c = true) :
    isNameChar c = false := by
  rcases eq_of_isDelimiter h with rfl | rfl <;> decide

theorem not_isBlank_of_isTag {c : Char} (h : isTag c = true) : isBlank c = false := by
  simp only [isTag, Bool.or_eq_true, beq_iff_eq] at h
  rcases h with (((((((rfl | rfl) | rfl) | rfl) | rfl) | rfl) | rfl) | rfl) | rfl <;> decide

theorem not_isDelimiter_of_isTag {c : Char} (h : isTag c = true) : isDelimiter c = false := by
  by_contra hc
  rw [not_isTag_of_isDelimiter (Bool.not_eq_false _ ▸ hc)] at h
  cases h

theorem not_isDelimiter_of_isBlank {c : Char} (h : isBlank c = true) : isDelimiter c = false := by
  by_contra hc
  have hname := not_isNameChar_of_isDelimiter (Bool.not_eq_false _ ▸ hc)
  simp [isNameChar, h] at hname

/-! ## Runs of characters -/

section Runs

variable {p : Char → Bool} {xs ys : List Char}

/-- A run that a text starts with ends inside of it, or where the next text stops it. -/
theorem takeWhile_append_of_stop (h : ∀ c ∈ ys.head?, p c = false) :
    (xs ++ ys).takeWhile p = xs.takeWhile p := by
  induction xs with
  | nil =>
    cases ys with
    | nil => rfl
    | cons y ys => simp [h y rfl]
  | cons x xs ih =>
    by_cases hx : p x = true
    · simp [hx, ih]
    · simp [hx]

theorem dropWhile_append_of_stop (h : ∀ c ∈ ys.head?, p c = false) :
    (xs ++ ys).dropWhile p = xs.dropWhile p ++ ys := by
  induction xs with
  | nil =>
    cases ys with
    | nil => rfl
    | cons y ys => simp [h y rfl]
  | cons x xs ih =>
    by_cases hx : p x = true
    · simp [hx, ih]
    · simp [hx]

theorem takeWhile_run (hxs : ∀ c ∈ xs, p c = true) (h : ∀ c ∈ ys.head?, p c = false) :
    (xs ++ ys).takeWhile p = xs :=
  (takeWhile_append_of_stop h).trans (List.takeWhile_eq_self_iff.mpr hxs)

theorem dropWhile_run (hxs : ∀ c ∈ xs, p c = true) (h : ∀ c ∈ ys.head?, p c = false) :
    (xs ++ ys).dropWhile p = ys := by
  rw [dropWhile_append_of_stop h, List.dropWhile_eq_nil_iff.mpr hxs, List.nil_append]

/-- What follows begins with a character of another class. -/
theorem head?_append_of_ne_nil {q : Char → Bool} (hne : xs ≠ []) (hxs : ∀ c ∈ xs, q c = true)
    (hpq : ∀ c, q c = true → p c = false) : ∀ c ∈ (xs ++ ys).head?, p c = false := by
  intro c hc
  obtain ⟨x, tail, rfl⟩ := List.exists_cons_of_ne_nil hne
  cases hc
  exact hpq _ (hxs _ List.mem_cons_self)

theorem head?_append_of_all (hxs : ∀ c ∈ xs, p c = false) (hys : ∀ c ∈ ys.head?, p c = false) :
    ∀ c ∈ (xs ++ ys).head?, p c = false := by
  intro c hc
  cases xs with
  | nil => exact hys c hc
  | cons x tail =>
    cases hc
    exact hxs _ List.mem_cons_self

end Runs

/-! ## Reading what the grammar allows -/

theorem leadingBlank_append {blank rest : List Char} (hle : blank.length ≤ 1)
    (hall : ∀ c ∈ blank, isBlank c = true) (h : ∀ c ∈ rest.head?, isBlank c = false) :
    leadingBlank (blank ++ rest) = blank := by
  match blank, hle with
  | [], _ =>
    cases rest with
    | nil => rfl
    | cons c cs => simp [leadingBlank, h c rfl]
  | [c], _ => simp [leadingBlank, hall c (List.mem_singleton_self c)]

/-- The border between tags and name is set where the name is shortest. -/
theorem splitTags_of_pieces {tags name : List Char} (htags : tags ≠ []) (hname : name ≠ [])
    (hnameAll : ∀ c ∈ name, isNameChar c = true) :
    ∃ tags' name', splitTags (tags ++ name.takeWhile isTag) (name.dropWhile isTag) =
      some (tags', name') ∧ name'.length ≤ name.length := by
  cases hword : name.dropWhile isTag with
  | cons c cs =>
    refine ⟨tags ++ name.takeWhile isTag, c :: cs, by simp [splitTags, htags], ?_⟩
    rw [← hword]
    exact List.length_dropWhile_le _ _
  | nil =>
    have hall := List.takeWhile_eq_self_iff.mpr (List.dropWhile_eq_nil_iff.mp hword)
    obtain ⟨front, last, hconcat⟩ := (List.eq_nil_or_concat name).resolve_left hname
    obtain rfl : name = front ++ [last] := hconcat.trans List.concat_eq_append
    have hlast : last ≠ ':' := by
      rintro rfl
      exact absurd (hnameAll ':' (by simp)) (by decide)
    refine ⟨tags ++ front, [last], ?_, by simp⟩
    rw [hall, splitTags, ← List.append_assoc]
    simp [hlast, htags]

namespace Form

/-- A text that begins with a written annotation is read as one, up to the end of the delimiters
after it. The pieces are the same, except that the border before the name may lie further right. -/
theorem read?_text_append {f : Form} (hf : f.WellFormed) (rest : List Char) :
    ∃ tags name, tags ++ name = f.tags ++ f.name ∧ name.length ≤ f.name.length ∧
      read? (f.text ++ rest) = some (⟨f.opening, f.blank, tags, name, f.middle, f.content,
        f.closing ++ rest.takeWhile isDelimiter⟩, rest.dropWhile isDelimiter) := by
  obtain ⟨tags, name, hsplit, hlength⟩ := splitTags_of_pieces hf.tags_ne hf.name_ne hf.name_all
  let closed := '\'' :: (f.closing ++ rest)
  let quoted := '\'' :: (f.content ++ closed)
  let afterName := f.middle ++ quoted
  let afterBlank := f.tags ++ (f.name ++ afterName)
  have htext : f.text ++ rest = f.opening ++ (f.blank ++ afterBlank) := by
    simp [Form.text, afterBlank, afterName, quoted, closed]
  have hclosed : ∀ c ∈ closed.head?, isContentChar c = false := by
    rintro _ ⟨⟩
    decide
  have hquoted : ∀ c ∈ quoted.head?, isDelimiter c = false := by
    rintro _ ⟨⟩
    decide
  have hnotTag : ∀ c ∈ afterName.head?, isTag c = false :=
    head?_append_of_ne_nil hf.middle_ne hf.middle_all fun _ => not_isTag_of_isDelimiter
  have hnotName : ∀ c ∈ afterName.head?, isNameChar c = false :=
    head?_append_of_ne_nil hf.middle_ne hf.middle_all fun _ => not_isNameChar_of_isDelimiter
  have hnotBlank : ∀ c ∈ afterBlank.head?, isBlank c = false :=
    head?_append_of_ne_nil hf.tags_ne hf.tags_all fun _ => not_isBlank_of_isTag
  have hnotDelimiter : ∀ c ∈ (f.blank ++ afterBlank).head?, isDelimiter c = false :=
    head?_append_of_all (fun c hc => not_isDelimiter_of_isBlank (hf.blank_all c hc))
      (head?_append_of_ne_nil hf.tags_ne hf.tags_all fun _ => not_isDelimiter_of_isTag)
  have hblank : leadingBlank (f.blank ++ afterBlank) = f.blank :=
    leadingBlank_append hf.blank_le hf.blank_all hnotBlank
  have hrun : afterBlank.takeWhile isTag = f.tags ++ f.name.takeWhile isTag := by
    rw [List.takeWhile_append_of_pos hf.tags_all, takeWhile_append_of_stop hnotTag]
  have hafterRun : afterBlank.dropWhile isTag = f.name.dropWhile isTag ++ afterName := by
    rw [List.dropWhile_append_of_pos hf.tags_all, dropWhile_append_of_stop hnotTag]
  have hword : ∀ c ∈ f.name.dropWhile isTag, isNameChar c = true := fun c hc =>
    hf.name_all c (List.dropWhile_subset isTag hc)
  refine ⟨tags, name, ?_, hlength, ?_⟩
  · rw [splitTags_append hsplit, List.append_assoc, List.takeWhile_append_dropWhile]
  · rw [htext, read?, takeWhile_run hf.opening_all hnotDelimiter,
      dropWhile_run hf.opening_all hnotDelimiter, if_neg hf.opening_ne, readAfter]
    simp only [hblank, List.drop_left, hrun, hafterRun, takeWhile_run hword hnotName,
      dropWhile_run hword hnotName, hsplit, Option.bind_eq_bind, Option.bind_some]
    simp only [afterName, takeWhile_run hf.middle_all hquoted,
      dropWhile_run hf.middle_all hquoted, quoted, afterQuote?, if_true, Option.bind_some,
      takeWhile_run hf.content_all hclosed, dropWhile_run hf.content_all hclosed, closed,
      List.takeWhile_append_of_pos hf.closing_all, List.dropWhile_append_of_pos hf.closing_all]
    rw [if_neg (by simp [hf.middle_ne, hf.closing_ne])]

end Form

theorem Written.ne_nil {word : List Char} (h : Written word) : word ≠ [] := by
  obtain ⟨f, hf, rfl⟩ := h
  simp [Form.text]

namespace Form

/-- Where an annotation is written, one is read. -/
theorem read?_ne_none {word rest : List Char} (hword : Written word) :
    read? (word ++ rest) ≠ none := by
  obtain ⟨f, hf, rfl⟩ := hword
  obtain ⟨tags, name, -, -, hread⟩ := read?_text_append hf rest
  rw [hread]
  exact Option.some_ne_none _

/-- What is read is the longest annotation that is written there. -/
theorem prefix_text_of_read? {cs rest word : List Char} {f : Form}
    (h : read? cs = some (f, rest)) (hword : Written word) (hbegins : word <+: cs) :
    word <+: f.text := by
  obtain ⟨g, hg, rfl⟩ := hword
  obtain ⟨after, rfl⟩ := hbegins
  obtain ⟨tags, name, hpieces, -, hread⟩ := read?_text_append hg after
  rw [hread] at h
  cases h
  refine ⟨after.takeWhile isDelimiter, ?_⟩
  simp only [Form.text, List.append_assoc, List.cons_append]
  rw [← List.append_assoc tags, hpieces, List.append_assoc]

/-- The same text cut in another way has a longer name, unless it is cut in the same way. -/
theorem eq_or_length_lt_of_read? {cs rest : List Char} {f g : Form}
    (h : read? cs = some (f, rest)) (hg : g.WellFormed) (htext : g.text = f.text) :
    g = f ∨ f.name.length < g.name.length := by
  have hcs := text_of_read? h
  obtain ⟨tags, name, hpieces, hlength, hread⟩ := read?_text_append hg rest
  rw [htext, ← hcs, h] at hread
  obtain ⟨rfl, -⟩ := Prod.mk.inj (Option.some.inj hread)
  rcases Nat.lt_or_eq_of_le hlength with hlt | heq
  · exact Or.inr hlt
  · obtain ⟨rfl, rfl⟩ := List.append_inj' hpieces heq
    have hclosing : g.closing = g.closing ++ rest.takeWhile isDelimiter := by
      simpa [Form.text] using htext
    rw [← hclosing]
    exact Or.inl rfl

/-- Two ways of cutting a text agree in all but the border between tags and name. -/
theorem WellFormed.eq_of_text_eq {f g : Form} (hf : f.WellFormed) (hg : g.WellFormed)
    (htext : f.text = g.text) (hname : f.name.length = g.name.length) : f = g := by
  obtain ⟨tags, name, hpieces, -, hread⟩ := read?_text_append hf []
  obtain ⟨tags', name', hpieces', -, hread'⟩ := read?_text_append hg []
  rw [htext, hread'] at hread
  simp only [Option.some.injEq, Prod.mk.injEq, Form.mk.injEq, List.takeWhile_nil,
    List.append_nil] at hread
  obtain ⟨⟨hopening, hblank, rfl, rfl, hmiddle, hcontent, hclosing⟩, -⟩ := hread
  obtain ⟨htags, hname⟩ := List.append_inj' (hpieces.symm.trans hpieces') hname
  cases f
  cases g
  simp_all

/-- An annotation is read if it is written in front, cut with the shortest name, and no delimiter
follows. Of the text after it only the first character matters. -/
theorem read?_eq_some_iff {cs rest : List Char} {f : Form} :
    read? cs = some (f, rest) ↔
      f.WellFormed ∧ cs = f.text ++ rest ∧ (∀ c ∈ rest.head?, isDelimiter c = false) ∧
        ∀ g : Form, g.WellFormed → g.text = f.text → f.name.length ≤ g.name.length := by
  constructor
  · intro h
    have hf := wellFormed_of_read? h
    have hcs := text_of_read? h
    refine ⟨hf, hcs, ?_, ?_⟩
    · obtain ⟨tags, name, -, -, hread⟩ := read?_text_append hf rest
      rw [← hcs, h] at hread
      have hrest : rest = rest.dropWhile isDelimiter := (Prod.mk.inj (Option.some.inj hread)).2
      intro c hc
      rw [hrest] at hc
      have hhead := List.head?_dropWhile_not isDelimiter rest
      rw [hc] at hhead
      simpa using hhead
    · intro g hg htext
      rcases eq_or_length_lt_of_read? h hg htext with rfl | hlt
      · exact Nat.le_refl _
      · exact hlt.le
  · rintro ⟨hf, rfl, hstop, hshortest⟩
    obtain ⟨tags, name, -, hlength, hread⟩ := read?_text_append hf rest
    have hnil : ∀ c ∈ ([] : List Char), isDelimiter c = true := List.forall_mem_nil _
    have hnone : rest.takeWhile isDelimiter = [] := takeWhile_run hnil hstop
    have hrest : rest.dropWhile isDelimiter = rest := dropWhile_run hnil hstop
    rw [hnone, hrest, List.append_nil] at hread
    have hg := wellFormed_of_read? hread
    have htext := List.append_cancel_right (text_of_read? hread)
    rw [hread, hf.eq_of_text_eq hg htext (Nat.le_antisymm (hshortest _ hg htext.symm) hlength)]

end Form

end CmsVariables.Annotations
