import CmsVariables.Proofs.Config.Values
import Mathlib.Data.List.Nodup

/-!
# Members of a config file

A config file is an object or a list, with blanks anywhere between its parts. Of an object every
member is read up to the blanks after it, whatever its value: a member with the name of a setting
adds that setting, unless it was given before, and any other member adds nothing. Of a list the
items are the settings in their order.

* `ObjectText`, `ListText`: the texts of config files; `Gives`: the settings that members give.
* `readMembers_member`: what one member does; `keys_readMembers`: the settings of a whole object,
  whatever the values are.
* `readSettings_gives`: the settings of a whole object whose values are such.
* `readSettings_spelled`: the settings of a list.
-/

namespace CmsVariables.Config

open Json

variable {cs rest : List Char} {first : Bool} {known ss : List Setting}

/-! ## Texts of config files -/

/-- An object, with its members in their order. -/
def ObjectText (text : String) (members : List (String × List Char)) : Prop :=
  Padded (Enclosed MemberText .object) text.toList members

/-- A list of the values of settings. -/
def ListText (text : String) (ss : List Setting) : Prop :=
  Padded (Enclosed (Padded fun v s => s.SpelledBy v) .list) text.toList ss

/-- The settings that the members give, in their order. A member of any other name may have any
value. -/
inductive Gives : List (String × List Char) → List Setting → Prop where
  | nil : Gives [] []
  | setting {s : Setting} {v : List Char} {members : List (String × List Char)} {ss : List Setting}
      (hv : s.SpelledBy v) (h : Gives members ss) : Gives ((s.key.text, v) :: members) (s :: ss)
  | other {name : String} {v : List Char} {members : List (String × List Char)} {ss : List Setting}
      (hname : ∀ key : Key, key.text ≠ name) (h : Gives members ss) :
      Gives ((name, v) :: members) ss

/-! ## Names of settings -/

theorem ofText?_text (key : Key) : Key.ofText? key.text = some key := by
  cases key <;> decide

theorem ofText?_eq_some_iff {name : String} {key : Key} :
    Key.ofText? name = some key ↔ name = key.text := by
  constructor
  · intro h
    exact (beq_iff_eq.mp (List.find?_some h :)).symm
  · rintro rfl
    exact ofText?_text key

theorem ofText?_eq_none_iff {name : String} :
    Key.ofText? name = none ↔ ∀ key : Key, key.text ≠ name := by
  constructor
  · rintro h key rfl
    rw [ofText?_text] at h
    cases h
  · intro h
    cases hname : Key.ofText? name with
    | none => rfl
    | some key => exact absurd (ofText?_eq_some_iff.mp hname).symm (h key)

/-! ## One member -/

theorem ok_of_bind {ε α β : Type} {x : Except ε α} {f : α → Except ε β} {y : β}
    (h : x.bind f = .ok y) : ∃ a, x = .ok a ∧ f a = .ok y := by
  cases x with
  | error e => cases h
  | ok a => exact ⟨a, rfl, h⟩

theorem readMember_repeated {key : Key} (h : key ∈ known.map Setting.key) (cs : List Char) :
    readMember known key.text cs = .error (.repeated key) := by
  have hknown : known.any (·.key = key) = true := by
    obtain ⟨s, hs, rfl⟩ := List.mem_map.mp h
    exact List.any_eq_true.mpr ⟨s, hs, decide_eq_true rfl⟩
  unfold readMember
  rw [ofText?_text]
  exact if_pos hknown

/-- The value of a new setting is read behind the colon. -/
theorem readMember_new {key : Key} (hnew : key ∉ known.map Setting.key)
    (hcolon : skipColon cs = .ok rest) :
    readMember known key.text cs = (readSetting key rest).map fun p => (some p.1, p.2) := by
  have hknown : ¬known.any (·.key = key) = true := by
    intro h
    obtain ⟨s, hs, hkey⟩ := List.any_eq_true.mp h
    exact hnew (List.mem_map.mpr ⟨s, hs, of_decide_eq_true hkey⟩)
  unfold readMember
  rw [ofText?_text]
  simp only [if_neg hknown, hcolon]

theorem readMember_other {name : String} (hname : Key.ofText? name = none)
    (hcolon : skipColon cs = .ok rest) :
    readMember known name cs =
      ((skipValue rest).map fun left => ((none : Option Setting), left)).mapError Fault.text := by
  unfold readMember
  rw [hname]
  simp only [hcolon]

theorem skipColon_blank {b : List Char} (hb : Blank b) (cs : List Char) :
    skipColon (b ++ ':' :: cs) = .ok cs := by
  unfold skipColon
  rw [skipSpace_part hb (by decide)]
  rfl

theorem readMembers_finished (known : List Setting)
    (h : nextMember first cs = .ok (.finished rest)) :
    readMembers first known cs = .ok (known, rest) := by
  rw [readMembers]
  split <;> rename_i hmember <;> rw [h] at hmember <;> cases hmember
  rfl

theorem readMembers_part {left after : List Char} {name : String}
    (h : nextMember first cs = .ok (.part left)) (hname : readString left = .ok (name, after)) :
    readMembers first known cs =
      (readMember known name after).bind fun p => readMembers false (known ++ p.1.toList) p.2 := by
  rw [readMembers]
  split <;> rename_i hmember <;> rw [h] at hmember <;> cases hmember
  split <;> rename_i hread <;> rw [hname] at hread <;> cases hread
  split <;> rename_i hvalue <;> rw [hvalue] <;> rfl

/-- What a member adds is told by its name and its value, and the text goes on with the blanks after
it. -/
theorem readMembers_member {p v : List Char} {name : String} (known : List Setting)
    (hp : MemberText p (name, v)) (hlead : Leads first cs (p ++ rest)) :
    ∃ b c d, Blank b ∧ Blank c ∧ Blank d ∧ Spells .value v ∧
      readMembers first known cs =
        (readMember known name (b ++ ':' :: (c ++ (v ++ (d ++ rest))))).bind fun p =>
          readMembers false (known ++ p.1.toList) p.2 := by
  cases hp with
  | @named a nameText b c _ d _ ha hname hb hc hv hd =>
    cases hname with
    | @quoted body _ hbody =>
      have hread : readString (body ++ '"' :: (b ++ ':' :: (c ++ (v ++ (d ++ rest))))) =
          .ok (name, b ++ ':' :: (c ++ (v ++ (d ++ rest)))) := readString_characters hbody _
      have htext : a ++ ('"' :: (body ++ ['"']) ++ (b ++ ':' :: (c ++ (v ++ d)))) ++ rest =
          a ++ '"' :: (body ++ '"' :: (b ++ ':' :: (c ++ (v ++ (d ++ rest))))) := by simp
      rw [htext] at hlead
      exact ⟨b, c, d, hb, hc, hd, hv, readMembers_part (nextMember_leads ha hlead) hread⟩

/-! ## Members with any values -/

/-- Where a member is read, it was new, and the text goes on with what follows its value. -/
theorem readMember_value {b c v : List Char} {name : String} {s : Option Setting}
    {left : List Char} (hb : Blank b) (hc : Blank c) (hv : Spells .value v) (hrest : Stops rest)
    (h : readMember known name (b ++ ':' :: (c ++ (v ++ rest))) = .ok (s, left)) :
    left = rest ∧ s.map Setting.key = Key.ofText? name ∧
      ∀ x ∈ s, x.key ∉ known.map Setting.key := by
  have hcolon := skipColon_blank hb (c ++ (v ++ rest))
  have hskip : skipValue (c ++ (v ++ rest)) = .ok rest := skipValue_spells hc hv hrest
  cases hname : Key.ofText? name with
  | none =>
    rw [readMember_other hname hcolon, hskip] at h
    cases h
    exact ⟨rfl, rfl, fun _ h => nomatch h⟩
  | some key =>
    obtain rfl := ofText?_eq_some_iff.mp hname
    by_cases hnew : key ∈ known.map Setting.key
    · rw [readMember_repeated hnew] at h
      cases h
    · rw [readMember_new hnew hcolon] at h
      obtain ⟨⟨setting, after⟩, hread, hp⟩ := ok_of_map h
      cases hp
      have hkey := key_of_readSetting hread
      have hleft : skipValue (c ++ (v ++ rest)) = .ok after := by
        unfold skipValue
        rw [skipFrom_of_readSetting hread, skipFrom]
      refine ⟨?_, congrArg some hkey, ?_⟩
      · rw [hskip] at hleft
        exact (Except.ok.inj hleft).symm
      · intro x hx
        obtain rfl := Option.some.inj hx
        rwa [hkey]

/-- The names among some members that name settings. -/
def keysNamed (members : List (String × List Char)) : List Key :=
  members.filterMap fun m => Key.ofText? m.1

/-- One member of any value, if it is read: it adds the setting of its name. -/
theorem exists_of_readMembers {p : List Char} {m : String × List Char} {left : List Char}
    (hp : MemberText p m) (hlead : Leads first cs (p ++ rest)) (hrest : Stops rest)
    (hknown : (known.map Setting.key).Nodup) (h : readMembers first known cs = .ok (ss, left)) :
    ∃ added d, Blank d ∧ added.map Setting.key = keysNamed [m] ∧
      ((known ++ added).map Setting.key).Nodup ∧
      readMembers false (known ++ added) (d ++ rest) = .ok (ss, left) := by
  obtain ⟨b, c, d, hb, hc, hd, hv, hread⟩ := readMembers_member known hp hlead
  rw [hread] at h
  obtain ⟨⟨s, after⟩, hmember, hnext⟩ := ok_of_bind h
  obtain ⟨rfl, hkey, hnew⟩ := readMember_value hb hc hv (hrest.append_blank hd) hmember
  cases s with
  | none =>
    have hnone : keysNamed [m] = [] := by simp [keysNamed, ← hkey]
    exact ⟨[], d, hd, hnone.symm, by simpa using hknown, hnext⟩
  | some x =>
    have hone : keysNamed [m] = [x.key] := by simp [keysNamed, ← hkey]
    refine ⟨[x], d, hd, hone.symm, ?_, hnext⟩
    rw [List.map_append, List.map_singleton, ← List.concat_eq_append]
    exact List.Nodup.concat (hnew x rfl) hknown

/-- All settings that members of any values give, if they are read: one for each name of a setting,
and none twice. -/
theorem keys_readMembers {t : List Char} {members : List (String × List Char)}
    (h : Separated MemberText t members) {first : Bool} {cs : List Char} {known ss : List Setting}
    {left : List Char} (hlead : Leads first cs (t ++ '}' :: rest))
    (hknown : (known.map Setting.key).Nodup) (hread : readMembers first known cs = .ok (ss, left)) :
    ss.map Setting.key = known.map Setting.key ++ keysNamed members ∧
      (ss.map Setting.key).Nodup := by
  induction h generalizing first cs known with
  | one hp =>
    obtain ⟨added, d, hd, hkeys, hnodup, hend⟩ :=
      exists_of_readMembers hp hlead (stops_closing .object rest) hknown hread
    rw [readMembers_finished _ (nextMember_closing hd false rest)] at hend
    cases hend
    exact ⟨by rw [List.map_append, hkeys], hnodup⟩
  | more hp _ ih =>
    rw [List.append_assoc, List.cons_append] at hlead
    obtain ⟨added, d, hd, hkeys, hnodup, hnext⟩ :=
      exists_of_readMembers hp hlead (stops_comma _) hknown hread
    obtain ⟨hall, hdistinct⟩ := ih (.later hd) hnodup hnext
    refine ⟨?_, hdistinct⟩
    rw [hall, List.map_append, hkeys, List.append_assoc, keysNamed, keysNamed, keysNamed,
      ← List.filterMap_append, List.singleton_append]

/-! ## Members that give settings -/

/-- One member that gives a new setting or none. -/
theorem readMembers_given {p : List Char} {m : String × List Char}
    {members : List (String × List Char)} (hp : MemberText p m) (hgives : Gives (m :: members) ss)
    (hnew : ((known ++ ss).map Setting.key).Nodup) (hlead : Leads first cs (p ++ rest))
    (hrest : Stops rest) : ∃ added later d, Blank d ∧ ss = added ++ later ∧ Gives members later ∧
      readMembers first known cs = readMembers false (known ++ added) (d ++ rest) := by
  obtain ⟨b, c, d, hb, hc, hd, hv, hread⟩ := readMembers_member known hp hlead
  cases hgives with
  | @setting s v _ later hs hlater =>
    have hkey : s.key ∉ known.map Setting.key := by
      intro hmem
      rw [List.map_append, List.map_cons] at hnew
      exact (List.nodup_append.mp hnew).2.2 _ hmem _ List.mem_cons_self rfl
    refine ⟨[s], later, d, hd, rfl, hlater, ?_⟩
    rw [hread, readMember_new hkey (skipColon_blank hb _), readSetting_spelled hc hs]
    rfl
  | other hname hlater =>
    refine ⟨[], ss, d, hd, rfl, hlater, ?_⟩
    rw [hread, readMember_other (ofText?_eq_none_iff.mpr hname) (skipColon_blank hb _),
      skipValue_spells hc hv (hrest.append_blank hd), List.append_nil]
    simp [Except.map, Except.mapError, Except.bind]

theorem readMembers_separated {t : List Char} {members : List (String × List Char)}
    (h : Separated MemberText t members) {first : Bool} {cs : List Char} {known ss : List Setting}
    (hgives : Gives members ss) (hnew : ((known ++ ss).map Setting.key).Nodup)
    (hlead : Leads first cs (t ++ '}' :: rest)) :
    readMembers first known cs = .ok (known ++ ss, rest) := by
  induction h generalizing first cs known ss with
  | one hp =>
    obtain ⟨added, later, d, hd, rfl, hlater, hread⟩ :=
      readMembers_given hp hgives hnew hlead (stops_closing .object rest)
    cases hlater
    rw [hread, readMembers_finished _ (nextMember_closing hd false rest), List.append_nil]
  | more hp _ ih =>
    rw [List.append_assoc, List.cons_append] at hlead
    obtain ⟨added, later, d, hd, rfl, hlater, hread⟩ :=
      readMembers_given hp hgives hnew hlead (stops_comma _)
    rw [← List.append_assoc] at hnew
    rw [hread, ih hlater hnew (.later hd), List.append_assoc]

/-! ## Items of a list -/

theorem readItems_closing {b : List Char} (hb : Blank b) (first : Bool) (known : List Setting)
    (keys : List Key) (rest : List Char) :
    readItems first known keys (b ++ ']' :: rest) = .ok (known, rest) := by
  cases keys with
  | nil =>
    rw [readItems, readEnd, skipSpace_part hb (by decide)]
    rfl
  | cons key keys => rw [readItems, nextItem_closing hb]

/-- One item is read as the setting of the next name. -/
theorem readItems_item {p : List Char} {s : Setting} (h : Padded (fun v s => s.SpelledBy v) p s)
    (known : List Setting) (keys : List Key) (hlead : Leads first cs (p ++ rest)) : ∃ d, Blank d ∧
      readItems first known (s.key :: keys) cs =
        readItems false (known ++ [s]) keys (d ++ rest) := by
  cases h with
  | @blanks a v d _ ha hv hd =>
    obtain ⟨c, t, rfl, hspace, hc, -⟩ := hv.spells.begins
    rw [List.append_assoc, List.append_assoc, List.cons_append] at hlead
    have hread : readSetting s.key (c :: (t ++ (d ++ rest))) = .ok (s, d ++ rest) :=
      readSetting_spelled blank_nil hv (d ++ rest)
    refine ⟨d, hd, ?_⟩
    rw [readItems, nextItem_leads ha hspace hc hlead]
    simp only [hread]

theorem readItems_separated {t : List Char} {ss : List Setting}
    (h : Separated (Padded fun v s => Setting.SpelledBy s v) t ss) {first : Bool} {cs : List Char}
    {known : List Setting} {keys : List Key} (hkeys : ss.map Setting.key <+: keys)
    (hlead : Leads first cs (t ++ ']' :: rest)) :
    readItems first known keys cs = .ok (known ++ ss, rest) := by
  induction h generalizing first cs known keys with
  | @one p s hp =>
    obtain ⟨further, rfl⟩ := hkeys
    obtain ⟨d, hd, hread⟩ := readItems_item hp known further hlead
    exact hread.trans (readItems_closing hd false _ _ rest)
  | @more p t s ss hp _ ih =>
    rw [List.append_assoc, List.cons_append] at hlead
    obtain ⟨further, rfl⟩ := hkeys
    obtain ⟨d, hd, hread⟩ := readItems_item hp known (ss.map Setting.key ++ further) hlead
    rw [List.append_cons, ← ih (List.prefix_append _ further) (.later hd)]
    exact hread

/-! ## Whole files -/

theorem skipSpace_all {b : List Char} (hb : Blank b) : skipSpace b = [] := by
  have hskip := skipSpace_blank hb []
  rw [List.append_nil] at hskip
  exact hskip

/-- Of an object in a file nothing but blanks is left. -/
theorem readSettings_object_eq {a : List Char} (ha : Blank a) (cs : List Char) :
    readSettings (a ++ '{' :: cs) = (readMembers true [] cs).bind fun p =>
      if skipSpace p.2 = [] then .ok p.1 else .error (.text .malformed) := by
  unfold readSettings
  rw [skipSpace_part ha (by decide)]
  simp only [if_true]
  cases readMembers true [] cs <;> rfl

theorem readSettings_list_eq {a : List Char} (ha : Blank a) (cs : List Char) :
    readSettings (a ++ '[' :: cs) = (readItems true [] Key.all cs).bind fun p =>
      if skipSpace p.2 = [] then .ok p.1 else .error (.text .malformed) := by
  have hobject : ('[' = '{') = False := by decide
  unfold readSettings
  rw [skipSpace_part ha (by decide)]
  simp only [hobject, if_false, if_true]
  cases readItems true [] Key.all cs <;> rfl

theorem ObjectText.exists_inner {text : String} {members : List (String × List Char)}
    (h : ObjectText text members) : ∃ a t b, Blank a ∧ Blank b ∧
      text.toList = a ++ '{' :: (t ++ '}' :: b) ∧
      (Blank t ∧ members = [] ∨ Separated MemberText t members) :=
  Padded.exists_inner h

/-- An object gives the settings that its members give. -/
theorem readSettings_gives {text : String} {members : List (String × List Char)}
    (h : ObjectText text members) (hgives : Gives members ss) (hnew : (ss.map Setting.key).Nodup) :
    readSettings text.toList = .ok ss := by
  obtain ⟨a, t, b, ha, hb, htext, hinner⟩ := h.exists_inner
  have hread : readMembers true [] (t ++ '}' :: b) = .ok (ss, b) := by
    rcases hinner with ⟨hblank, rfl⟩ | ht
    · cases hgives
      exact readMembers_finished [] (nextMember_closing hblank true b)
    · exact readMembers_separated ht hgives hnew .first
  rw [htext, readSettings_object_eq ha, hread]
  exact if_pos (skipSpace_all hb)

/-- An object that is read gives one setting for each name of a setting, and none twice. -/
theorem keys_of_readSettings {text : String} {members : List (String × List Char)}
    (h : ObjectText text members) (hread : readSettings text.toList = .ok ss) :
    ss.map Setting.key = keysNamed members ∧ (ss.map Setting.key).Nodup := by
  obtain ⟨a, t, b, ha, -, htext, hinner⟩ := h.exists_inner
  rw [htext, readSettings_object_eq ha] at hread
  obtain ⟨⟨given, left⟩, hmembers, hend⟩ := ok_of_bind hread
  obtain rfl : given = ss := by
    simp only at hend
    split at hend
    · exact Except.ok.inj hend
    · cases hend
  rcases hinner with ⟨hblank, rfl⟩ | ht
  · rw [readMembers_finished [] (nextMember_closing hblank true b)] at hmembers
    cases hmembers
    exact ⟨rfl, List.nodup_nil⟩
  · have hnone : (([] : List Setting).map Setting.key).Nodup := List.nodup_nil
    exact keys_readMembers ht .first hnone hmembers

/-- A list gives its settings. -/
theorem readSettings_spelled {text : String} (h : ListText text ss)
    (hkeys : ss.map Setting.key <+: Key.all) : readSettings text.toList = .ok ss := by
  obtain ⟨a, t, b, ha, hb, htext, hinner⟩ : ∃ a t b, Blank a ∧ Blank b ∧
      text.toList = a ++ '[' :: (t ++ ']' :: b) ∧ (Blank t ∧ ss = [] ∨ _) := Padded.exists_inner h
  have hread : readItems true [] Key.all (t ++ ']' :: b) = .ok (ss, b) := by
    rcases hinner with ⟨hblank, rfl⟩ | ht
    · exact readItems_closing hblank true [] Key.all b
    · exact readItems_separated ht hkeys .first
  rw [htext, readSettings_list_eq ha, hread]
  exact if_pos (skipSpace_all hb)

end CmsVariables.Config
