import CmsVariables.Config.Reading
import CmsVariables.Proofs.Json.Reading

/-!
# Values of settings

A setting is given by a string, a list of strings or a word, each spelled in any way. What spells
its value is a JSON value, and the reader for the setting takes it and leaves what follows it. And the
other way round, whatever that reader takes is what is passed over as one value; so a setting ends
where any other value in its place would end.

* `SpelledBy`: how the value of a setting is spelled; `SpelledBy.spells`: as a JSON value.
* `Leads`: what stands between the parts of a list or an object.
* `readSetting_spelled`: the value is read.
* `skipFrom_of_readSetting`: what is read is one value.
-/

namespace CmsVariables.Config

open Json

variable {cs rest a v : List Char} {s : String} {first : Bool}

/-- The text spells the value of the setting. -/
def Setting.SpelledBy : Setting → List Char → Prop
  | head lines, v => Enclosed (Padded StringText) .list v lines
  | foot lines, v => Enclosed (Padded StringText) .list v lines
  | output path, v => StringText v path
  | sourceRoot path, v => StringText v path
  | includes patterns, v => Enclosed (Padded StringText) .list v patterns
  | ignores patterns, v => Enclosed (Padded StringText) .list v patterns
  | extensions names, v => Enclosed (Padded StringText) .list v names
  | ignoreNodeModules on, v => v = (if on then "true" else "false").toList

theorem spells_of_texts {ss : List String} (h : Enclosed (Padded StringText) .list v ss) :
    Spells .value v :=
  h.spells fun _ _ => Padded.spells fun _ _ => StringText.spells

theorem Setting.SpelledBy.spells {setting : Setting} (h : setting.SpelledBy v) :
    Spells .value v := by
  cases setting with
  | head => exact spells_of_texts h
  | foot => exact spells_of_texts h
  | output => exact StringText.spells h
  | sourceRoot => exact StringText.spells h
  | includes => exact spells_of_texts h
  | ignores => exact spells_of_texts h
  | extensions => exact spells_of_texts h
  | ignoreNodeModules on =>
    obtain rfl : v = (if on then "true" else "false").toList := h
    cases on with
    | true => exact .word (by decide)
    | false => exact .word (by decide)

/-! ## Between parts -/

/-- What stands before a part: nothing before the first one, and later a comma with blanks before
it. -/
inductive Leads : Bool → List Char → List Char → Prop where
  | first {t : List Char} : Leads true t t
  | later {b t : List Char} (hb : Blank b) : Leads false (b ++ ',' :: t) t

/-- The next part begins where blanks end. -/
theorem nextItem_leads {c : Char} {t : List Char} (ha : Blank a) (hspace : isSpace c = false)
    (hc : c ≠ ']') (h : Leads first cs (a ++ c :: t)) :
    nextItem first cs = .ok (.part (c :: t)) := by
  cases h with
  | first =>
    unfold nextItem
    rw [skipSpace_part ha hspace]
    simp [hc]
  | later hb =>
    unfold nextItem
    rw [skipSpace_part hb (by decide)]
    simp [skipSpace_part ha hspace, hc]

theorem nextItem_closing {b : List Char} (hb : Blank b) (first : Bool) (rest : List Char) :
    nextItem first (b ++ ']' :: rest) = .ok (.finished rest) := by
  unfold nextItem
  rw [skipSpace_part hb (by decide)]
  rfl

theorem nextMember_leads {t : List Char} (ha : Blank a) (h : Leads first cs (a ++ '"' :: t)) :
    nextMember first cs = .ok (.part t) := by
  have hquote : isSpace '"' = false := rfl
  cases h with
  | first =>
    unfold nextMember
    rw [skipSpace_part ha hquote]
    rfl
  | later hb =>
    unfold nextMember
    rw [skipSpace_part hb (by decide)]
    simp [skipSpace_part ha hquote]

theorem nextMember_closing {b : List Char} (hb : Blank b) (first : Bool) (rest : List Char) :
    nextMember first (b ++ '}' :: rest) = .ok (.finished rest) := by
  unfold nextMember
  rw [skipSpace_part hb (by decide)]
  rfl

/-! ## Reading values -/

theorem readText_spelled (ha : Blank a) (h : StringText v s) (rest : List Char) :
    readText (a ++ (v ++ rest)) = .ok (s, rest) := by
  cases h with
  | quoted hbody =>
    unfold readText
    rw [List.cons_append, List.append_assoc, List.singleton_append, skipSpace_part ha (by decide)]
    simp only [if_true, readString_characters hbody]
    rfl

theorem readTextsFrom_finished {done : List String} (h : nextItem first cs = .ok (.finished rest)) :
    readTextsFrom first done cs = .ok (done.reverse, rest) := by
  rw [readTextsFrom]
  split <;> rename_i hitem <;> rw [h] at hitem <;> cases hitem
  rfl

/-- One string of a list is read, and then those after it. -/
theorem readTextsFrom_part {left : List Char} {done : List String}
    (h : nextItem first cs = .ok (.part left)) (htext : readText left = .ok (s, rest)) :
    readTextsFrom first done cs = readTextsFrom false (s :: done) rest := by
  rw [readTextsFrom]
  split <;> rename_i hitem <;> rw [h] at hitem <;> cases hitem
  split <;> rename_i hread <;> rw [htext] at hread <;> cases hread
  rfl

/-- One string of a list is read up to the blanks after it. -/
theorem readTextsFrom_padded {p : List Char} (done : List String) (h : Padded StringText p s)
    (hlead : Leads first cs (p ++ rest)) : ∃ b, Blank b ∧
      readTextsFrom first done cs = readTextsFrom false (s :: done) (b ++ rest) := by
  cases h with
  | @blanks a v b _ ha hv hb =>
    obtain ⟨c, t, rfl, hspace, hc, -⟩ := hv.spells.begins
    rw [List.append_assoc, List.append_assoc, List.cons_append] at hlead
    have hread : readText (c :: (t ++ (b ++ rest))) = .ok (s, b ++ rest) :=
      readText_spelled blank_nil hv (b ++ rest)
    exact ⟨b, hb, readTextsFrom_part (nextItem_leads ha hspace hc hlead) hread⟩

theorem readTextsFrom_separated {t : List Char} {ss : List String}
    (h : Separated (Padded StringText) t ss) {first : Bool} {cs : List Char} (done : List String)
    (hlead : Leads first cs (t ++ ']' :: rest)) :
    readTextsFrom first done cs = .ok (done.reverse ++ ss, rest) := by
  induction h generalizing first cs done with
  | one hp =>
    obtain ⟨b, hb, hread⟩ := readTextsFrom_padded done hp hlead
    rw [hread, readTextsFrom_finished (nextItem_closing hb false rest), List.reverse_cons]
  | more hp _ ih =>
    rw [List.append_assoc, List.cons_append] at hlead
    obtain ⟨b, hb, hread⟩ := readTextsFrom_padded done hp hlead
    rw [hread, ih _ (.later hb), List.reverse_cons, List.append_assoc, List.singleton_append]

theorem readTexts_spelled {ss : List String} (ha : Blank a)
    (h : Enclosed (Padded StringText) .list v ss) (rest : List Char) :
    readTexts (a ++ (v ++ rest)) = .ok (ss, rest) := by
  have hopen (cs : List Char) : readTexts (a ++ '[' :: cs) = readTextsFrom true [] cs := by
    unfold readTexts
    rw [skipSpace_part ha (by decide)]
    rfl
  cases h with
  | empty hb =>
    show readTexts (a ++ '[' :: (_ ++ [']'] ++ rest)) = _
    rw [hopen, List.append_assoc]
    exact readTextsFrom_finished (nextItem_closing hb true rest)
  | full ht =>
    show readTexts (a ++ '[' :: (_ ++ [']'] ++ rest)) = _
    rw [hopen, List.append_assoc]
    exact readTextsFrom_separated ht [] .first

theorem readSwitch_spelled (ha : Blank a) (on : Bool) (rest : List Char) :
    readSwitch (a ++ ((if on then "true" else "false").toList ++ rest)) = .ok (on, rest) := by
  unfold readSwitch
  cases on with
  | true =>
    have hskip : skipSpace (a ++ ("true".toList ++ rest)) = "true".toList ++ rest :=
      skipSpace_part ha (by decide) _
    simp only [if_true, hskip]
    rfl
  | false =>
    have hskip : skipSpace (a ++ ("false".toList ++ rest)) = "false".toList ++ rest :=
      skipSpace_part ha (by decide) _
    simp only [Bool.false_eq_true, if_false, hskip]
    rfl

/-- The value of a setting is read. -/
theorem readSetting_spelled {setting : Setting} (ha : Blank a) (h : setting.SpelledBy v)
    (rest : List Char) : readSetting setting.key (a ++ (v ++ rest)) = .ok (setting, rest) := by
  cases setting with
  | head => rw [Setting.key, readSetting, readTexts_spelled ha h]; rfl
  | foot => rw [Setting.key, readSetting, readTexts_spelled ha h]; rfl
  | output => rw [Setting.key, readSetting, readText_spelled ha h]; rfl
  | sourceRoot => rw [Setting.key, readSetting, readText_spelled ha h]; rfl
  | includes => rw [Setting.key, readSetting, readTexts_spelled ha h]; rfl
  | ignores => rw [Setting.key, readSetting, readTexts_spelled ha h]; rfl
  | extensions => rw [Setting.key, readSetting, readTexts_spelled ha h]; rfl
  | ignoreNodeModules on =>
    obtain rfl : v = (if on then "true" else "false").toList := h
    rw [Setting.key, readSetting, readSwitch_spelled ha]
    rfl

/-! ## What is read is one value -/

theorem skipFrom_of_readText (h : readText cs = .ok (s, rest)) (levels : List Level) :
    skipFrom .value levels cs = skipFrom .further levels rest := by
  unfold readText at h
  split at h
  · cases h
  · rename_i c left hspace
    split at h
    · rename_i hc
      subst hc
      cases hread : readString left with
      | error e =>
        rw [hread] at h
        cases h
      | ok found =>
        rw [hread] at h
        cases h
        exact skipFrom_of_skipScalar hspace (by decide) (by decide) (skipString_of_readString hread)
          levels
    · cases h

theorem skipFrom_of_readSwitch {on : Bool} (h : readSwitch cs = .ok (on, rest))
    (levels : List Level) : skipFrom .value levels cs = skipFrom .further levels rest := by
  unfold readSwitch at h
  split at h
  · cases h
  · rename_i c left hspace
    split at h
    · rename_i hc
      subst hc
      obtain ⟨after, hword, hafter⟩ := ok_of_mapped h
      cases hafter
      exact skipFrom_of_skipScalar hspace (by decide) (by decide) hword levels
    · split at h
      · rename_i hc
        subst hc
        obtain ⟨after, hword, hafter⟩ := ok_of_mapped h
        cases hafter
        exact skipFrom_of_skipScalar hspace (by decide) (by decide) hword levels
      · cases h

/-- Where an item comes next: the list ends, or an item stands there, and after the first one behind a
comma. -/
theorem nextItem_cases {step : Step} (h : nextItem first cs = .ok step) :
    (∃ left, skipSpace cs = ']' :: left ∧ step = .finished left) ∨
      (first = true ∧ ∃ c left, skipSpace cs = c :: left ∧ c ≠ ']' ∧ step = .part (c :: left)) ∨
      (first = false ∧ ∃ left, skipSpace cs = ',' :: left ∧ step = .part (skipSpace left)) := by
  unfold nextItem at h
  cases hspace : skipSpace cs with
  | nil =>
    rw [hspace] at h
    cases h
  | cons c left =>
    simp only [hspace] at h
    by_cases hend : c = ']'
    · rw [if_pos hend] at h
      cases h
      exact .inl ⟨left, by rw [hend], rfl⟩
    rw [if_neg hend] at h
    cases first with
    | true =>
      cases h
      exact .inr (.inl ⟨rfl, c, left, rfl, hend, rfl⟩)
    | false =>
      rw [if_neg Bool.false_ne_true] at h
      by_cases hcomma : c = ','
      · rw [if_pos hcomma] at h
        cases hleft : skipSpace left with
        | nil =>
          rw [hleft] at h
          cases h
        | cons d after =>
          simp only [hleft] at h
          split at h
          · cases h
          · cases h
            exact .inr (.inr ⟨rfl, left, by rw [hcomma], by rw [hleft]⟩)
      · rw [if_neg hcomma] at h
        cases h

/-- What has to come next in an open value. -/
def comesNext (first : Bool) : Next := if first then .first else .further

theorem skipFrom_of_nextItem_finished (h : nextItem first cs = .ok (.finished rest))
    (outer : List Level) :
    skipFrom (comesNext first) (.list :: outer) cs = skipFrom .further outer rest := by
  obtain ⟨left, hspace, hstep⟩ | ⟨-, c, left, -, -, hstep⟩ | ⟨-, left, -, hstep⟩ := nextItem_cases h
  · cases hstep
    cases first with
    | true =>
      show skipFrom .first (.list :: outer) cs = _
      rw [skipFrom_first_eq, hspace]
      rfl
    | false =>
      show skipFrom .further (.list :: outer) cs = _
      rw [skipFrom_further_eq, hspace]
      rfl
  · cases hstep
  · cases hstep

theorem skipFrom_of_nextItem_part (h : nextItem first cs = .ok (.part rest)) (outer : List Level) :
    skipFrom (comesNext first) (.list :: outer) cs = skipFrom .value (.list :: outer) rest := by
  obtain ⟨left, -, hstep⟩ | ⟨rfl, c, left, hspace, hc, hstep⟩ | ⟨rfl, left, hspace, hstep⟩ :=
    nextItem_cases h
  · cases hstep
  · cases hstep
    show skipFrom .first (.list :: outer) cs = _
    rw [skipFrom_first_eq, hspace]
    exact if_neg hc
  · cases hstep
    show skipFrom .further (.list :: outer) cs = _
    rw [skipFrom_further_eq, hspace, skipFrom_value_skipSpace]
    rfl

theorem skipFrom_of_readTextsFrom {done ss : List String}
    (h : readTextsFrom first done cs = .ok (ss, rest)) (outer : List Level) :
    skipFrom (comesNext first) (.list :: outer) cs = skipFrom .further outer rest := by
  fun_induction readTextsFrom first done cs with
  | case1 => cases h
  | case2 first done cs left hitem =>
    cases h
    exact skipFrom_of_nextItem_finished hitem outer
  | case3 => cases h
  | case4 first done cs left hitem s after htext ih =>
    rw [skipFrom_of_nextItem_part hitem, skipFrom_of_readText htext]
    exact ih h

theorem skipFrom_of_readTexts {ss : List String} (h : readTexts cs = .ok (ss, rest))
    (levels : List Level) : skipFrom .value levels cs = skipFrom .further levels rest := by
  unfold readTexts at h
  split at h
  · cases h
  · rename_i c left hspace
    split at h
    · rename_i hc
      subst hc
      rw [skipFrom_value_eq, hspace]
      exact skipFrom_of_readTextsFrom h levels
    · cases h

/-- What is read for a setting is passed over as one value. -/
theorem skipFrom_of_readSetting {key : Key} {setting : Setting}
    (h : readSetting key cs = .ok (setting, rest)) (levels : List Level) :
    skipFrom .value levels cs = skipFrom .further levels rest := by
  cases key <;> simp only [readSetting] at h <;> obtain ⟨p, hread, hp⟩ := ok_of_map h <;> cases hp
  · exact skipFrom_of_readTexts hread levels
  · exact skipFrom_of_readTexts hread levels
  · exact skipFrom_of_readText hread levels
  · exact skipFrom_of_readText hread levels
  · exact skipFrom_of_readTexts hread levels
  · exact skipFrom_of_readTexts hread levels
  · exact skipFrom_of_readTexts hread levels
  · exact skipFrom_of_readSwitch hread levels

theorem key_of_readSetting {key : Key} {setting : Setting}
    (h : readSetting key cs = .ok (setting, rest)) : setting.key = key := by
  cases key <;> simp only [readSetting] at h <;> obtain ⟨p, -, hp⟩ := ok_of_map h <;> cases hp <;>
    rfl

end CmsVariables.Config
