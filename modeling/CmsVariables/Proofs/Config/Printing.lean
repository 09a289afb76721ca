import CmsVariables.Config.Printing
import CmsVariables.Proofs.Config.Overlay

/-!
# Settings read back as they are written

A written config file is one of the texts that spell its settings: every character of a string stands
for itself or is escaped, every list is one of strings with blanks around them, and the settings are
members of an object, each once. So it is read back as any such text is, and gives the settings that
were to be written, the defaults as well.

* `stringText_spells`, `listText_spells`, `valueText_spells`: what is written spells the value.
* `separated_lines`: parts on lines of their own.
* `parse_render`: a written config file gives its settings.
-/

namespace CmsVariables.Config

open Json

/-! ## Strings -/

/-- A control character is spelled by its number. -/
theorem hexUnit_written {n : Nat} (h : n < 256) :
    HexUnit ['0', '0', Nat.digitChar (n / 16), Nat.digitChar (n % 16)] n := by
  have hzero : HexDigit '0' 0 := by decide
  have hhigh : HexDigit (Nat.digitChar (n / 16)) (n / 16) := ⟨by omega, .inl rfl⟩
  have hlow : HexDigit (Nat.digitChar (n % 16)) (n % 16) := ⟨by omega, .inl rfl⟩
  have hunit := HexUnit.digits hzero hzero hhigh hlow
  have hvalue : ((0 * 16 + 0) * 16 + n / 16) * 16 + n % 16 = n := by omega
  rwa [hvalue] at hunit

/-- A character of a string is spelled as it is written. -/
theorem characters_escapeChar {body cs : List Char} (c : Char) (h : Characters body cs) :
    Characters (escapeChar c ++ body) (c :: cs) := by
  unfold escapeChar
  split
  · exact .letter (by decide) h
  · exact .letter (by decide) h
  · exact .letter (by decide) h
  · exact .letter (by decide) h
  · exact .letter (by decide) h
  · exact .letter (by decide) h
  · exact .letter (by decide) h
  · rename_i hquote hslash _ _ _ _ _
    split
    · rename_i hcontrol
      exact .unit (hexUnit_written (show c.toNat < 256 by omega)) h
    · rename_i hcontrol
      exact .plain ⟨hquote, hslash, Nat.not_lt.mp hcontrol⟩ h

theorem characters_written (cs : List Char) : Characters (cs.flatMap escapeChar) cs := by
  induction cs with
  | nil => exact .nil
  | cons c cs ih => exact characters_escapeChar c ih

/-- A string is spelled as it is written. -/
theorem stringText_spells (s : String) : StringText (stringText s).toList s := by
  unfold stringText
  rw [String.toList_ofList]
  exact .quoted (characters_written s.toList)

theorem toList_stringText_append (s : String) (rest : List Char) :
    (stringText s).toList ++ rest = '"' :: (s.toList.flatMap escapeChar ++ '"' :: rest) := by
  unfold stringText
  rw [String.toList_ofList]
  simp

/-! ## Lines -/

/-- A line break and blanks after it. -/
def indent (n : ℕ) : List Char := '\n' :: List.replicate n ' '

theorem blank_indent (n : ℕ) : Blank (indent n) := by
  intro c hc
  rcases List.mem_cons.mp hc with rfl | hc
  · exact .inr (.inr (.inl rfl))
  · exact .inl (List.eq_of_mem_replicate hc)

/-- Parts that follow each other with nothing but a comma between them, and blanks after the last
one. -/
theorem separated_lines {α : Type} {P : List Char → α → Prop} {line : α → List Char}
    {d : List Char} (hline : ∀ x b, Blank b → P (line x ++ b) x) (hd : Blank d) (x : α)
    (xs : List α) : Separated P (line x ++ ((xs.flatMap fun y => ',' :: line y) ++ d)) (x :: xs) := by
  induction xs generalizing x with
  | nil => exact .one (hline x d hd)
  | cons y ys ih =>
    have hfirst := hline x [] blank_nil
    rw [List.append_nil] at hfirst
    have hall := Separated.more hfirst (ih y)
    rw [List.flatMap_cons, List.append_assoc, List.cons_append]
    exact hall

theorem toList_intercalate_cons (separator t : String) (ts : List String) :
    (separator.intercalate (t :: ts)).toList =
      t.toList ++ ts.flatMap fun u => separator.toList ++ u.toList := by
  induction ts generalizing t with
  | nil => simp
  | cons u ts ih =>
    rw [String.intercalate_cons_cons, String.toList_append, String.toList_append, ih,
      List.flatMap_cons, List.append_assoc, List.append_assoc]

/-! ## Values -/

/-- The text of the items of a list after the first one, up to its end. -/
def itemsText (ss : List String) : List Char :=
  (ss.flatMap fun s => ',' :: (indent 4 ++ (stringText s).toList)) ++ (indent 2 ++ [']'])

theorem toList_listText (s : String) (ss : List String) :
    (listText (s :: ss)).toList = '[' :: (indent 4 ++ ((stringText s).toList ++ itemsText ss)) := by
  unfold listText itemsText indent
  rw [if_neg (List.cons_ne_nil s ss), List.map_cons, String.toList_append, String.toList_append,
    toList_intercalate_cons, List.flatMap_map]
  simp

/-- A list is spelled as it is written. -/
theorem listText_spells (ss : List String) :
    Enclosed (Padded StringText) .list (listText ss).toList ss := by
  cases ss with
  | nil => exact .empty blank_nil
  | cons s ss =>
    have hitem (s : String) (b : List Char) (hb : Blank b) :
        Padded StringText ((indent 4 ++ (stringText s).toList) ++ b) s := by
      rw [List.append_assoc]
      exact .blanks (blank_indent 4) (stringText_spells s) hb
    have hitems : Enclosed (Padded StringText) .list _ (s :: ss) :=
      .full (separated_lines hitem (blank_indent 2) s ss)
    rw [toList_listText]
    unfold itemsText
    simpa [Level.opening, Level.closing] using hitems

/-- The value of a setting is spelled as it is written. -/
theorem valueText_spells (s : Setting) : s.SpelledBy s.valueText.toList := by
  cases s with
  | head lines => exact listText_spells lines
  | foot lines => exact listText_spells lines
  | output path => exact stringText_spells path
  | sourceRoot path => exact stringText_spells path
  | includes patterns => exact listText_spells patterns
  | ignores patterns => exact listText_spells patterns
  | extensions names => exact listText_spells names
  | ignoreNodeModules on => rfl

/-! ## Settings -/

/-- The text of a setting after the opening quote of its name. -/
def memberText (s : Setting) : List Char :=
  s.key.text.toList.flatMap escapeChar ++ '"' :: ':' :: ' ' :: s.valueText.toList

/-- The text of the settings after the first one, up to the end of the object. -/
def membersText (ss : List Setting) : List Char :=
  (ss.flatMap fun s => ',' :: (indent 2 ++ '"' :: memberText s)) ++ (indent 0 ++ ['}'])

theorem toList_line (s : Setting) : '\n' :: s.line.toList = indent 2 ++ '"' :: memberText s := by
  have hname := toList_stringText_append s.key.text (':' :: ' ' :: s.valueText.toList)
  unfold Setting.line memberText indent
  rw [← hname]
  simp

theorem toList_render {c : Config} {s : Setting} {ss : List Setting} (h : c.settings = s :: ss) :
    (render c).toList = '{' :: (indent 2 ++ '"' :: (memberText s ++ membersText ss)) := by
  have hline (s : Setting) : ",\n".toList ++ s.line.toList =
      ',' :: (indent 2 ++ '"' :: memberText s) := congrArg (',' :: ·) (toList_line s)
  have hfirst : '\n' :: (s.line.toList ++ membersText ss) =
      indent 2 ++ '"' :: (memberText s ++ membersText ss) := by
    rw [← List.cons_append, toList_line, List.append_assoc, List.cons_append]
  rw [← hfirst]
  unfold render membersText
  rw [h, List.map_cons, String.toList_append, String.toList_append, toList_intercalate_cons,
    List.flatMap_map]
  simp only [hline]
  simp [indent]

/-- A setting as a member of an object. -/
def Setting.member (s : Setting) : String × List Char := (s.key.text, s.valueText.toList)

/-- The line of a setting is a member. -/
theorem memberText_spells (s : Setting) {b : List Char} (hb : Blank b) :
    MemberText ((indent 2 ++ '"' :: memberText s) ++ b) s.member := by
  have hmember := MemberText.named (blank_indent 2) (stringText_spells s.key.text) blank_nil
    (show Blank [' '] by decide) (valueText_spells s).spells hb
  have hname := toList_stringText_append s.key.text (':' :: ' ' :: s.valueText.toList)
  unfold memberText
  rw [← hname]
  simpa [Setting.member] using hmember

theorem gives_settings (ss : List Setting) : Gives (ss.map Setting.member) ss := by
  induction ss with
  | nil => exact .nil
  | cons s ss ih => exact .setting (valueText_spells s) ih

/-! ## Whole files -/

/-- A written config file is an object of its settings. -/
theorem objectText_render (c : Config) : ObjectText (render c) (c.settings.map Setting.member) := by
  obtain ⟨s, ss, hsettings⟩ : ∃ s ss, c.settings = s :: ss := ⟨_, _, rfl⟩
  have hlines := separated_lines (P := fun p s => MemberText p (Setting.member s))
    (fun s _ hb => memberText_spells s hb) (blank_indent 0) s ss
  have hobject : Enclosed MemberText .object _ ((s :: ss).map Setting.member) := .full hlines.map
  have hfile := Padded.blanks blank_nil hobject blank_nil
  unfold ObjectText
  rw [toList_render hsettings, hsettings]
  unfold membersText
  simpa [Level.opening, Level.closing] using hfile

theorem ofSettings_settings (c : Config) : ofSettings c.settings = c := by
  cases c
  rfl

/-- A written config file gives its settings. -/
theorem parse_render (c : Config) : parse (render c) = .ok c := by
  have hkeys : c.settings.map Setting.key = Key.all := rfl
  have hnew : (c.settings.map Setting.key).Nodup := by
    rw [hkeys]
    decide
  rw [parse_of_readSettings (readSettings_gives (objectText_render c) (gives_settings _) hnew),
    ofSettings_settings]

end CmsVariables.Config
