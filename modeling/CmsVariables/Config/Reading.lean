import CmsVariables.Config.Basic
import CmsVariables.Json.Value
import CmsVariables.Text.Quoted

/-!
# Reading a config file

A config file is a JSON object whose members are settings; members of other names are passed over.
A list may stand in place of the object: it gives the settings in their order. The text is read
from left to right, and the first thing wrong with it counts, whether it is no JSON (`Fault.text`), a
value of the wrong kind or a setting given twice.
-/

namespace CmsVariables.Config

open Json Text

/-! ## Faults -/

/-- What has to stand in a place. -/
inductive Wanted where
  | settings
  | list
  | string
  | boolean
deriving DecidableEq, Repr

/-- Why a config file cannot be read. -/
inductive Fault where
  | text (fault : Json.Fault)
  | mismatch (found : Shape) (wanted : Wanted)
  | repeated (key : Key)
deriving DecidableEq, Repr

/-- The message's word for what was wanted. -/
def Wanted.text : Wanted → String
  | settings => "struct Config"
  | list => "a sequence"
  | string => "a string"
  | boolean => "a boolean"

/-- The message's words for what was found. -/
def shapeText : Shape → String
  | .null => "null"
  | .boolean b => "boolean `" ++ (if b then "true" else "false") ++ "`"
  | .number (.integer n) => "integer `" ++ toString n ++ "`"
  | .number (.float s) => "floating point `" ++ s ++ "`"
  | .string s => "string " ++ quoted s
  | .list => "sequence"
  | .object => "map"

/-- What is wrong with the data; a text that is no JSON has no such message. -/
def Fault.detail? : Fault → Option String
  | text _ => none
  | mismatch found wanted =>
    some ("invalid type: " ++ shapeText found ++ ", expected " ++ wanted.text)
  | repeated key => some ("duplicate field `" ++ key.text ++ "`")

/-- The fault of a value that is not what was wanted. -/
def mismatchAt (wanted : Wanted) (cs : List Char) : Fault :=
  match shape cs with
  | .ok found => .mismatch found wanted
  | .error e => .text e

/-! ## Results of mapped readings -/

theorem ok_of_map {ε α β : Type} {x : Except ε α} {f : α → β} {b : β} (h : x.map f = .ok b) :
    ∃ a, x = .ok a ∧ f a = b := by
  cases x with
  | error e => cases h
  | ok a =>
    cases h
    exact ⟨a, rfl, rfl⟩

theorem ok_of_mapped {ε δ α β : Type} {x : Except ε α} {f : α → β} {g : ε → δ} {b : β}
    (h : (x.map f).mapError g = .ok b) : ∃ a, x = .ok a ∧ f a = b := by
  cases x with
  | error e => cases h
  | ok a =>
    cases h
    exact ⟨a, rfl, rfl⟩

/-! ## Lists and members -/

/-- Where the next part of an open value begins, or what follows the value. -/
inductive Step where
  | part (rest : List Char)
  | finished (rest : List Char)
deriving DecidableEq, Repr

/-- The next item of a list. After the first one a comma comes before it, and a comma has an item
after it. -/
def nextItem (first : Bool) (cs : List Char) : Except Json.Fault Step :=
  match skipSpace cs with
  | [] => .error .unfinished
  | c :: rest =>
    if c = ']' then .ok (.finished rest)
    else if first then .ok (.part (c :: rest))
    else if c = ',' then
      match skipSpace rest with
      | [] => .error .unfinished
      | d :: rest => if d = ']' then .error .malformed else .ok (.part (d :: rest))
    else .error .malformed

/-- The next member of an object; the part begins after the opening quote of its name. -/
def nextMember (first : Bool) (cs : List Char) : Except Json.Fault Step :=
  match skipSpace cs with
  | [] => .error .unfinished
  | c :: rest =>
    if c = '}' then .ok (.finished rest)
    else if first then if c = '"' then .ok (.part rest) else .error .malformed
    else if c = ',' then
      match skipSpace rest with
      | [] => .error .unfinished
      | d :: rest => if d = '"' then .ok (.part rest) else .error .malformed
    else .error .malformed

theorem length_le_of_finished {first : Bool} {cs rest : List Char}
    (h : nextItem first cs = .ok (.finished rest)) : rest.length ≤ cs.length := by
  unfold nextItem at h
  split at h
  · cases h
  · rename_i hspace
    have h1 := length_lt_of_skipSpace hspace
    split at h
    · cases h
      omega
    · split at h
      · cases h
      · split at h
        · split at h
          · cases h
          · split at h <;> cases h
        · cases h

theorem length_le_of_nextItem {first : Bool} {cs rest : List Char}
    (h : nextItem first cs = .ok (.part rest)) : rest.length ≤ cs.length := by
  unfold nextItem at h
  split at h
  · cases h
  · rename_i c left hspace
    have h1 := length_lt_of_skipSpace hspace
    split at h
    · cases h
    · split at h
      · cases h
        exact h1
      · split at h
        · split at h
          · cases h
          · rename_i hspace'
            have h2 := length_lt_of_skipSpace hspace'
            split at h
            · cases h
            · cases h
              simp only [List.length_cons]
              omega
        · cases h

theorem length_lt_of_nextMember {first : Bool} {cs rest : List Char}
    (h : nextMember first cs = .ok (.part rest)) : rest.length < cs.length := by
  unfold nextMember at h
  split at h
  · cases h
  · rename_i c left hspace
    have h1 := length_lt_of_skipSpace hspace
    split at h
    · cases h
    · split at h
      · split at h
        · cases h
          exact h1
        · cases h
      · split at h
        · split at h
          · cases h
          · rename_i hspace'
            have h2 := length_lt_of_skipSpace hspace'
            split at h
            · cases h
              omega
            · cases h
        · cases h

/-! ## Values of settings -/

/-- A string. -/
def readText (cs : List Char) : Except Fault (String × List Char) :=
  match skipSpace cs with
  | [] => .error (.text .unfinished)
  | c :: rest =>
    if c = '"' then (readString rest).mapError .text
    else .error (mismatchAt .string (c :: rest))

theorem length_lt_of_readText {cs rest : List Char} {s : String}
    (h : readText cs = .ok (s, rest)) : rest.length < cs.length := by
  unfold readText at h
  split at h
  · cases h
  · rename_i c left hspace
    have h1 := length_lt_of_skipSpace hspace
    split at h
    · cases hread : readString left with
      | error e =>
        rw [hread] at h
        cases h
      | ok p =>
        rw [hread] at h
        cases h
        have h2 := length_lt_of_readString hread
        omega
    · cases h

/-- The strings of a list, after its opening bracket; `done` holds those before, last one first. -/
def readTextsFrom (first : Bool) (done : List String) (cs : List Char) :
    Except Fault (List String × List Char) :=
  match _h : nextItem first cs with
  | .error e => .error (.text e)
  | .ok (.finished rest) => .ok (done.reverse, rest)
  | .ok (.part rest) =>
    match _ht : readText rest with
    | .error e => .error e
    | .ok (s, rest) => readTextsFrom false (s :: done) rest
termination_by cs.length
decreasing_by exact Nat.lt_of_lt_of_le (length_lt_of_readText _ht) (length_le_of_nextItem _h)

/-- A list of strings. -/
def readTexts (cs : List Char) : Except Fault (List String × List Char) :=
  match skipSpace cs with
  | [] => .error (.text .unfinished)
  | c :: rest =>
    if c = '[' then readTextsFrom true [] rest
    else .error (mismatchAt .list (c :: rest))

/-- A boolean. -/
def readSwitch (cs : List Char) : Except Fault (Bool × List Char) :=
  match skipSpace cs with
  | [] => .error (.text .unfinished)
  | c :: rest =>
    if c = 't' then
      ((expect ['r', 'u', 'e'] rest).map fun left => (true, left)).mapError .text
    else if c = 'f' then
      ((expect ['a', 'l', 's', 'e'] rest).map fun left => (false, left)).mapError .text
    else .error (mismatchAt .boolean (c :: rest))

/-- The value of a setting. -/
def readSetting (key : Key) (cs : List Char) : Except Fault (Setting × List Char) :=
  match key with
  | .head => (readTexts cs).map fun p => (.head p.1, p.2)
  | .foot => (readTexts cs).map fun p => (.foot p.1, p.2)
  | .output => (readText cs).map fun p => (.output p.1, p.2)
  | .sourceRoot => (readText cs).map fun p => (.sourceRoot p.1, p.2)
  | .includes => (readTexts cs).map fun p => (.includes p.1, p.2)
  | .ignores => (readTexts cs).map fun p => (.ignores p.1, p.2)
  | .extensions => (readTexts cs).map fun p => (.extensions p.1, p.2)
  | .ignoreNodeModules => (readSwitch cs).map fun p => (.ignoreNodeModules p.1, p.2)

theorem length_le_of_readTextsFrom {first : Bool} {done : List String} {cs rest : List Char}
    {ss : List String} (h : readTextsFrom first done cs = .ok (ss, rest)) :
    rest.length ≤ cs.length := by
  fun_induction readTextsFrom first done cs with
  | case1 => cases h
  | case2 first done cs left hitem =>
    cases h
    exact length_le_of_finished hitem
  | case3 => cases h
  | case4 first done cs left hitem s left' htext ih =>
    have h1 := length_le_of_nextItem hitem
    have h2 := length_lt_of_readText htext
    have h3 := ih h
    omega

theorem length_le_of_readTexts {cs rest : List Char} {ss : List String}
    (h : readTexts cs = .ok (ss, rest)) : rest.length ≤ cs.length := by
  unfold readTexts at h
  split at h
  · cases h
  · rename_i hspace
    have h1 := length_lt_of_skipSpace hspace
    split at h
    · have h2 := length_le_of_readTextsFrom h
      omega
    · cases h

theorem length_le_of_readSwitch {cs rest : List Char} {b : Bool}
    (h : readSwitch cs = .ok (b, rest)) : rest.length ≤ cs.length := by
  unfold readSwitch at h
  split at h
  · cases h
  · rename_i hspace
    have h1 := length_lt_of_skipSpace hspace
    split at h
    · obtain ⟨left, hword, hleft⟩ := ok_of_mapped h
      cases hleft
      have h2 := length_le_of_expect hword
      omega
    · split at h
      · obtain ⟨left, hword, hleft⟩ := ok_of_mapped h
        cases hleft
        have h2 := length_le_of_expect hword
        omega
      · cases h

theorem length_le_of_readSetting {key : Key} {cs rest : List Char} {s : Setting}
    (h : readSetting key cs = .ok (s, rest)) : rest.length ≤ cs.length := by
  cases key <;> simp only [readSetting] at h <;> obtain ⟨p, hread, hp⟩ := ok_of_map h <;> cases hp
  · exact length_le_of_readTexts hread
  · exact length_le_of_readTexts hread
  · exact Nat.le_of_lt (length_lt_of_readText hread)
  · exact Nat.le_of_lt (length_lt_of_readText hread)
  · exact length_le_of_readTexts hread
  · exact length_le_of_readTexts hread
  · exact length_le_of_readTexts hread
  · exact length_le_of_readSwitch hread

/-! ## The whole file -/

/-- The member whose name was just read: its setting, or nothing for a name that is passed over, and
what follows it. -/
def readMember (known : List Setting) (name : String) (cs : List Char) :
    Except Fault (Option Setting × List Char) :=
  match Key.ofText? name with
  | some key =>
    if known.any (·.key = key) then .error (.repeated key)
    else
      match skipColon cs with
      | .error e => .error (.text e)
      | .ok rest => (readSetting key rest).map fun p => (some p.1, p.2)
  | none =>
    match skipColon cs with
    | .error e => .error (.text e)
    | .ok rest => ((skipValue rest).map fun left => (none, left)).mapError .text

theorem length_le_of_readMember {known : List Setting} {name : String} {cs rest : List Char}
    {s : Option Setting} (h : readMember known name cs = .ok (s, rest)) :
    rest.length ≤ cs.length := by
  unfold readMember at h
  split at h
  · split at h
    · cases h
    · split at h
      · cases h
      · rename_i hcolon
        have h1 := length_lt_of_skipColon hcolon
        obtain ⟨p, hread, hp⟩ := ok_of_map h
        cases hp
        have h2 := length_le_of_readSetting hread
        omega
  · split at h
    · cases h
    · rename_i hcolon
      have h1 := length_lt_of_skipColon hcolon
      obtain ⟨left, hskip, hleft⟩ := ok_of_mapped h
      cases hleft
      have h2 := length_le_of_skipValue hskip
      omega

/-- The settings of an object, after its opening bracket; `known` are those before. -/
def readMembers (first : Bool) (known : List Setting) (cs : List Char) :
    Except Fault (List Setting × List Char) :=
  match _h : nextMember first cs with
  | .error e => .error (.text e)
  | .ok (.finished rest) => .ok (known, rest)
  | .ok (.part rest) =>
    match _hs : readString rest with
    | .error e => .error (.text e)
    | .ok (name, rest) =>
      match _hm : readMember known name rest with
      | .error e => .error e
      | .ok (s, rest) => readMembers false (known ++ s.toList) rest
termination_by cs.length
decreasing_by
  have h1 := length_lt_of_nextMember _h
  have h2 := length_lt_of_readString _hs
  have h3 := length_le_of_readMember _hm
  omega

/-- The end of a list that gave all settings. -/
def readEnd (cs : List Char) : Except Fault (List Char) :=
  match skipSpace cs with
  | [] => .error (.text .unfinished)
  | c :: rest => if c = ']' then .ok rest else .error (.text .malformed)

/-- The settings of a list, after its opening bracket: those named by `keys` in their order, as far
as the list goes. -/
def readItems (first : Bool) (known : List Setting) (keys : List Key) (cs : List Char) :
    Except Fault (List Setting × List Char) :=
  match keys with
  | [] => (readEnd cs).map fun rest => (known, rest)
  | key :: keys =>
    match nextItem first cs with
    | .error e => .error (.text e)
    | .ok (.finished rest) => .ok (known, rest)
    | .ok (.part rest) =>
      match readSetting key rest with
      | .error e => .error e
      | .ok (s, rest) => readItems false (known ++ [s]) keys rest

/-- The settings that a config file gives. -/
def readSettings (cs : List Char) : Except Fault (List Setting) :=
  match skipSpace cs with
  | [] => .error (.text .unfinished)
  | c :: rest =>
    let read :=
      if c = '{' then readMembers true [] rest
      else if c = '[' then readItems true [] Key.all rest
      else .error (mismatchAt .settings (c :: rest))
    match read with
    | .error e => .error e
    | .ok (ss, rest) => if skipSpace rest = [] then .ok ss else .error (.text .malformed)

/-- The settings of a run whose config file has this text. -/
def parse (text : String) : Except Fault Config := (readSettings text.toList).map ofSettings

end CmsVariables.Config
