/-!
# Why a file operation fails

The causes for which the system refuses an operation on files, with the wording of its messages.
-/

namespace CmsVariables

/-- Why the system refuses an operation. -/
inductive SystemError where
  | notFound
  | occupied
  | notDirectory
  | isDirectory
  | nameTooLong
  | tooManyLinks
  /-- The path holds a NUL character. -/
  | nulInPath
deriving DecidableEq, Repr

/-- The wording of the system. -/
def SystemError.message : SystemError → String
  | notFound => "No such file or directory (os error 2)"
  | occupied => "File exists (os error 17)"
  | notDirectory => "Not a directory (os error 20)"
  | isDirectory => "Is a directory (os error 21)"
  | nameTooLong => "File name too long (os error 36)"
  | tooManyLinks => "Too many levels of symbolic links (os error 40)"
  | nulInPath => "file name contained an unexpected NUL byte"

end CmsVariables
