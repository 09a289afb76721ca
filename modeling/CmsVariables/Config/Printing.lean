import CmsVariables.Config.Basic

/-!
# Writing a config file

A config file is written as an object with its settings in their order, two spaces further in for
each level, so that it reads back to the same settings.
-/

namespace CmsVariables.Config

/-- One character of a string. Control characters without a short escape get four hexadecimal
digits. -/
def escapeChar (c : Char) : List Char :=
  match c with
  | '"' => ['\\', '"']
  | '\\' => ['\\', '\\']
  | '\x08' => ['\\', 'b']
  | '\x0c' => ['\\', 'f']
  | '\n' => ['\\', 'n']
  | '\r' => ['\\', 'r']
  | '\t' => ['\\', 't']
  | c =>
    if c.toNat < 0x20 then
      ['\\', 'u', '0', '0', Nat.digitChar (c.toNat / 16), Nat.digitChar (c.toNat % 16)]
    else [c]

/-- A string in quotes. -/
def stringText (s : String) : String :=
  String.ofList ('"' :: s.toList.flatMap escapeChar ++ ['"'])

/-- A list of strings as the value of a setting, one to a line. -/
def listText (ss : List String) : String :=
  if ss = [] then "[]"
  else "[\n" ++ ",\n".intercalate (ss.map fun s => "    " ++ stringText s) ++ "\n  ]"

/-- The value of a setting. -/
def Setting.valueText : Setting → String
  | head lines => listText lines
  | foot lines => listText lines
  | output path => stringText path
  | sourceRoot path => stringText path
  | includes patterns => listText patterns
  | ignores patterns => listText patterns
  | extensions names => listText names
  | ignoreNodeModules on => if on then "true" else "false"

/-- The settings one by one, in their order. -/
def settings (c : Config) : List Setting :=
  [.head c.head, .foot c.foot, .output c.output, .sourceRoot c.sourceRoot, .includes c.includes,
    .ignores c.ignores, .extensions c.extensions, .ignoreNodeModules c.ignoreNodeModules]

/-- The line of one setting. -/
def Setting.line (s : Setting) : String := "  " ++ stringText s.key.text ++ ": " ++ s.valueText

/-- The text of a config file with these settings. -/
def render (c : Config) : String :=
  "\x7b\n" ++ ",\n".intercalate (c.settings.map Setting.line) ++ "\n\x7d"

end CmsVariables.Config
