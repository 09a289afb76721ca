import CmsVariables.Proofs.Config.Members

/-!
# Settings laid over the defaults

A config file says what some settings are, and the others keep their defaults. Settings of different
names do not get in each other's way, so their order does not count; and a file in which a name stands
twice is not read. The settings are compared name by name.

* `value_ofSettings_of_mem`, `value_ofSettings_of_notMem`: given settings and the others.
* `ofSettings_perm`: the order does not count.
* `parse_overlay`: what a config file means, however it is spelled.
-/

namespace CmsVariables.Config

open Json

variable {c c' : Config} {ss ss' : List Setting} {key : Key} {s : Setting}

/-! ## Settings by their names -/

/-- The setting of a name. -/
def value (c : Config) : Key → Setting
  | .head => .head c.head
  | .foot => .foot c.foot
  | .output => .output c.output
  | .sourceRoot => .sourceRoot c.sourceRoot
  | .includes => .includes c.includes
  | .ignores => .ignores c.ignores
  | .extensions => .extensions c.extensions
  | .ignoreNodeModules => .ignoreNodeModules c.ignoreNodeModules

/-- All names tell all settings. -/
theorem ext_value (h : ∀ key, c.value key = c'.value key) : c = c' := by
  cases c
  cases c'
  simpa [value] using And.intro (h .head) <| And.intro (h .foot) <| And.intro (h .output) <|
    And.intro (h .sourceRoot) <| And.intro (h .includes) <| And.intro (h .ignores) <|
    And.intro (h .extensions) (h .ignoreNodeModules)

/-- A setting given anew leaves those of other names alone. -/
theorem value_set (c : Config) (s : Setting) (key : Key) :
    (c.set s).value key = if key = s.key then s else c.value key := by
  cases s <;> cases key <;> rfl

theorem value_foldl_set_of_notMem (h : key ∉ ss.map Setting.key) (c : Config) :
    (ss.foldl set c).value key = c.value key := by
  induction ss generalizing c with
  | nil => rfl
  | cons s ss ih =>
    rw [List.map_cons, List.mem_cons, not_or] at h
    obtain ⟨hne, hnotMem⟩ := h
    rw [List.foldl_cons, ih hnotMem, value_set, if_neg hne]

theorem value_foldl_set_of_mem (hnew : (ss.map Setting.key).Nodup) (hs : s ∈ ss) (c : Config) :
    (ss.foldl set c).value s.key = s := by
  induction ss generalizing c with
  | nil => cases hs
  | cons x ss ih =>
    obtain ⟨hx, hnew⟩ := List.nodup_cons.mp hnew
    rw [List.foldl_cons]
    rcases List.mem_cons.mp hs with rfl | hs
    · rw [value_foldl_set_of_notMem hx, value_set, if_pos rfl]
    · exact ih hnew hs _

theorem value_ofSettings_of_notMem (h : key ∉ ss.map Setting.key) :
    (ofSettings ss).value key = ({} : Config).value key :=
  value_foldl_set_of_notMem h {}

theorem value_ofSettings_of_mem (hnew : (ss.map Setting.key).Nodup) (hs : s ∈ ss) :
    (ofSettings ss).value s.key = s :=
  value_foldl_set_of_mem hnew hs {}

/-- The order of settings of different names does not count. -/
theorem ofSettings_perm (h : ss.Perm ss') (hnew : (ss.map Setting.key).Nodup) :
    ofSettings ss = ofSettings ss' := by
  have hkeys : (ss.map Setting.key).Perm (ss'.map Setting.key) := h.map Setting.key
  refine ext_value fun key => ?_
  by_cases hkey : key ∈ ss.map Setting.key
  · obtain ⟨s, hs, rfl⟩ := List.mem_map.mp hkey
    rw [value_ofSettings_of_mem hnew hs,
      value_ofSettings_of_mem (hkeys.nodup_iff.mp hnew) (h.mem_iff.mp hs)]
  · have hkey' : key ∉ ss'.map Setting.key := fun hmem => hkey (hkeys.mem_iff.mpr hmem)
    rw [value_ofSettings_of_notMem hkey, value_ofSettings_of_notMem hkey']

/-! ## Whole files -/

theorem count_keysNamed (members : List (String × List Char)) (key : Key) :
    (keysNamed members).count key = (members.map Prod.fst).count key.text := by
  unfold keysNamed
  rw [List.count_filterMap, List.count_eq_countP, List.countP_map]
  refine List.countP_congr fun m _ => ?_
  simp [ofText?_eq_some_iff]

theorem parse_of_readSettings {text : String} (h : readSettings text.toList = .ok ss) :
    parse text = .ok (ofSettings ss) := by
  unfold parse
  rw [h]
  rfl

/-- A setting that stands twice is not read, whatever its values are. -/
theorem parse_repeated {text : String} {members : List (String × List Char)}
    (h : ObjectText text members) (htwice : 2 ≤ (members.map Prod.fst).count key.text) :
    ∃ e, parse text = .error e := by
  cases hread : readSettings text.toList with
  | error e =>
    unfold parse
    rw [hread]
    exact ⟨e, rfl⟩
  | ok ss =>
    obtain ⟨hkeys, hnodup⟩ := keys_of_readSettings h hread
    have honce : (keysNamed members).count key ≤ 1 := by
      rw [← hkeys]
      exact List.nodup_iff_count_le_one.mp hnodup key
    rw [count_keysNamed] at honce
    omega

/-- An object that gives settings once each is read, and the settings are as given or else the
defaults, however it is spelled and whatever its other members are. An object with the name of a
setting twice is not read. A list of the first settings means the same as an object that gives
them. -/
theorem parse_overlay {text : String} {members : List (String × List Char)}
    (h : ObjectText text members) :
    (∀ ss : List Setting, Gives members ss → (ss.map Setting.key).Nodup →
      ∃ c, parse text = .ok c ∧ (∀ s ∈ ss, c.value s.key = s) ∧
        ∀ key ∉ ss.map Setting.key, c.value key = ({} : Config).value key) ∧
    (∀ key : Key, 2 ≤ (members.map Prod.fst).count key.text → ∃ e, parse text = .error e) ∧
    (∀ (list : String) (ss ss' : List Setting), ListText list ss →
      ss.map Setting.key <+: Key.all → Gives members ss' → ss'.Perm ss →
      ∃ c, parse list = .ok c ∧ parse text = .ok c) := by
  refine ⟨fun ss hgives hnew => ?_, fun key htwice => parse_repeated h htwice,
    fun list ss ss' hlist hkeys hgives hperm => ?_⟩
  · exact ⟨ofSettings ss, parse_of_readSettings (readSettings_gives h hgives hnew),
      fun s hs => value_ofSettings_of_mem hnew hs, fun key hkey => value_ofSettings_of_notMem hkey⟩
  · have hall : Key.all.Nodup := by decide
    have hnew : (ss.map Setting.key).Nodup := hall.sublist hkeys.sublist
    have hnew' : (ss'.map Setting.key).Nodup := (hperm.map Setting.key).nodup_iff.mpr hnew
    refine ⟨ofSettings ss, parse_of_readSettings (readSettings_spelled hlist hkeys), ?_⟩
    rw [← ofSettings_perm hperm hnew']
    exact parse_of_readSettings (readSettings_gives h hgives hnew')

theorem parse_overlay_escaped :
    (∃ c, parse "\x7b \"\\u0070refix\": [\"\\uD83D\\uDE00\"], \"x\":[\x7b\"y\":-0.5e+7\x7d]\x7d" =
        .ok c ∧ c.head = ["😀"] ∧ c.output = "reddot/jsvars.txt" ∧ parse "[ [\"😀\"] ]" = .ok c) ∧
    ∃ e, parse "\x7b\"output\":\"a\",\"\\u006Futput\":null\x7d" = .error e := by
  have hspace : Blank [' '] := by decide
  -- the object with an escaped name, a pair of halves and a member of another name
  have hname : StringText "\"\\u0070refix\"".toList "prefix" :=
    @StringText.quoted "\\u0070refix".toList _ <|
      @Characters.unit 'p' "0070".toList "refix".toList "refix".toList
        (@HexUnit.digits '0' '0' '7' '0' 0 0 7 0 (by decide) (by decide) (by decide) (by decide))
        (Unescaped.characters (by decide))
  have hface : StringText "\"\\uD83D\\uDE00\"".toList "😀" :=
    @StringText.quoted "\\uD83D\\uDE00".toList _ <|
      @Characters.pair '😀' 0xD83D 0xDE00 "D83D".toList "DE00".toList [] []
        (@HexUnit.digits 'D' '8' '3' 'D' 13 8 3 13 (by decide) (by decide) (by decide) (by decide))
        (@HexUnit.digits 'D' 'E' '0' '0' 13 14 0 0 (by decide) (by decide) (by decide) (by decide))
        (by decide) (by decide) (by decide) .nil
  have hhead : (Setting.head ["😀"]).SpelledBy "[\"\\uD83D\\uDE00\"]".toList :=
    Enclosed.full (Separated.one (Padded.blanks blank_nil hface blank_nil))
  have hnumber : Spells .value "-0.5e+7".toList :=
    .number <| @NumberText.parts ['-'] ['0'] ['.', '5'] ['e', '+', '7'] (.inr rfl) .zero
      (.digits (by decide))
      (@Exponent.digits 'e' ['+'] ['7'] (.inl rfl) (.inr (.inl rfl)) (by decide))
  have hy : Passed ['y'] := (Unescaped.characters (by decide)).passed
  have hother : Spells .value "[\x7b\"y\":-0.5e+7\x7d]".toList :=
    @Spells.full .list "\x7b\"y\":-0.5e+7\x7d".toList <| .one <|
      @Spells.item [] "\x7b\"y\":-0.5e+7\x7d".toList [] blank_nil
        (@Spells.full .object "\"y\":-0.5e+7".toList <| .one <|
          @Spells.member [] ['y'] [] "-0.5e+7".toList blank_nil hy blank_nil
            (@Spells.item [] "-0.5e+7".toList [] blank_nil hnumber blank_nil)) blank_nil
  have hx : StringText "\"x\"".toList "x" :=
    @StringText.quoted ['x'] _ (Unescaped.characters (by decide))
  have hobject : ObjectText
      "\x7b \"\\u0070refix\": [\"\\uD83D\\uDE00\"], \"x\":[\x7b\"y\":-0.5e+7\x7d]\x7d"
      [("prefix", "[\"\\uD83D\\uDE00\"]".toList), ("x", "[\x7b\"y\":-0.5e+7\x7d]".toList)] :=
    Padded.blanks blank_nil (Enclosed.full (Separated.more
      (MemberText.named hspace hname blank_nil hspace hhead.spells blank_nil)
      (Separated.one (MemberText.named hspace hx blank_nil blank_nil hother blank_nil)))) blank_nil
  have hgives : Gives [("prefix", "[\"\\uD83D\\uDE00\"]".toList),
      ("x", "[\x7b\"y\":-0.5e+7\x7d]".toList)] [.head ["😀"]] :=
    .setting hhead (.other (by rintro (_ | _) <;> decide) .nil)
  -- the list of the same setting
  have hplain : (Setting.head ["😀"]).SpelledBy "[\"😀\"]".toList :=
    Enclosed.full (Separated.one (Padded.blanks blank_nil
      (@StringText.quoted ['😀'] _ (Unescaped.characters (by decide))) blank_nil))
  have hitem : Padded (fun v (s : Setting) => s.SpelledBy v) " [\"😀\"] ".toList (.head ["😀"]) :=
    @Padded.blanks Setting (fun v s => s.SpelledBy v) _ _ _ _ hspace hplain hspace
  have hlist : ListText "[ [\"😀\"] ]" [.head ["😀"]] :=
    Padded.blanks blank_nil (Enclosed.full (Separated.one hitem)) blank_nil
  -- the object with one name in two spellings
  have houtput : StringText "\"output\"".toList "output" :=
    @StringText.quoted "output".toList _ (Unescaped.characters (by decide))
  have houtput' : StringText "\"\\u006Futput\"".toList "output" :=
    @StringText.quoted "\\u006Futput".toList _ <|
      @Characters.unit 'o' "006F".toList "utput".toList "utput".toList
        (@HexUnit.digits '0' '0' '6' 'F' 0 0 6 15 (by decide) (by decide) (by decide) (by decide))
        (Unescaped.characters (by decide))
  have ha : Spells .value "\"a\"".toList :=
    @Spells.string ['a'] (Unescaped.characters (by decide)).passed
  have hnull : Spells .value "null".toList := .word (by decide)
  have htwice : ObjectText "\x7b\"output\":\"a\",\"\\u006Futput\":null\x7d"
      [("output", "\"a\"".toList), ("output", "null".toList)] :=
    Padded.blanks blank_nil (Enclosed.full (Separated.more
      (MemberText.named blank_nil houtput blank_nil blank_nil ha blank_nil)
      (Separated.one (MemberText.named blank_nil houtput' blank_nil blank_nil hnull blank_nil))))
      blank_nil
  obtain ⟨hparse, -, hlists⟩ := parse_overlay hobject
  obtain ⟨c, hc, hgiven, hdefault⟩ := hparse _ hgives (by decide)
  obtain ⟨c', hc', hsame⟩ :=
    hlists _ _ _ hlist (by decide) hgives (List.Perm.refl _)
  obtain rfl : c = c' := Except.ok.inj (hc.symm.trans hsame)
  have hhead' : c.value .head = .head ["😀"] := hgiven _ List.mem_cons_self
  have houtput'' : c.value .output = .output "reddot/jsvars.txt" := hdefault .output (by decide)
  exact ⟨⟨c, hc, Setting.head.inj hhead', Setting.output.inj houtput'', hc'⟩,
    (parse_overlay htwice).2.1 .output (by decide)⟩

end CmsVariables.Config
