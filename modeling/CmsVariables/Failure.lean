import CmsVariables.Config.Reading
import CmsVariables.Config.Validation
import CmsVariables.FileTree.SystemError

/-!
# Why a run fails

The causes for which a run ends without success, with their messages. A message gives the
circumstances first and then the cause.
-/

namespace CmsVariables

open Text

/-- Why a run fails. -/
inductive Failure where
  /-- A source file cannot be read. -/
  | unreadable (path : Path) (cause : SystemError)
  /-- A file cannot be written. -/
  | unwritable (path : Path) (cause : SystemError)
  | configUnreadable (path : Path) (cause : SystemError)
  /-- The bytes of the config file are no text. -/
  | configNotText (path : Path)
  | configMalformed (path : Path) (fault : Config.Fault)
  | configInvalid (problem : Config.Problem)
  | noSourceRoot (path : Path) (cause : SystemError)
  /-- A file has no place in a copy of the source tree. -/
  | outsideRoot (file root : Path)
  /-- A new config file cannot be written. -/
  | configUnwritable (cause : SystemError)
deriving DecidableEq, Repr

/-- The name of the config file. -/
def configFileName : String := ".reddotrc.json"

namespace Failure

/-- What failed, without the chain of causes that led to it. -/
def summary : Failure → String
  | unreadable p e => "failed to read " ++ p.text ++ ": " ++ e.message
  | unwritable p e => "failed to write " ++ p.text ++ ": " ++ e.message
  | configUnreadable p _ => "Failed to read config file: " ++ quoted p.text
  | configNotText p => "Failed to read config file: " ++ quoted p.text
  | configMalformed p _ => "Failed to parse config file: " ++ quoted p.text
  | configInvalid problem => problem.message
  | noSourceRoot p _ => "Source root does not exist: " ++ p.text
  | outsideRoot file root => file.text ++ " is outside the source root " ++ root.text
  | configUnwritable _ => "Failed to write " ++ configFileName

/-- The cause behind a failure. -/
def cause? : Failure → Option String
  | unreadable _ e => some e.message
  | unwritable _ e => some e.message
  | configUnreadable _ e => some e.message
  | configNotText _ => some "stream did not contain valid UTF-8"
  | configMalformed _ fault => fault.detail?
  | configInvalid _ => none
  | noSourceRoot _ e => some e.message
  | outsideRoot _ _ => some "prefix not found"
  | configUnwritable e => some e.message

/-- What failed, and the cause behind it. -/
def message (f : Failure) : String :=
  match f.cause? with
  | some cause => f.summary ++ ": " ++ cause
  | none => f.summary

end Failure

end CmsVariables
