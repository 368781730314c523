/-!
# Faults of file operations
-/

namespace RelayKeeper

inductive Fault where
  | notFound
  | permissionDenied
  | alreadyExists
  | notDirectory
  | isDirectory
  | nameTooLong
  /-- The content is no text. -/
  | invalidText
  /-- A path that holds a NUL character. -/
  | nulInName
  /-- A program or an argument that holds a NUL character. -/
  | nulInCommand
  /-- A fault known by its text alone. -/
  | reported (text : String)
  deriving DecidableEq, Repr

def Fault.message : Fault → String
  | .notFound => "No such file or directory (os error 2)"
  | .permissionDenied => "Permission denied (os error 13)"
  | .alreadyExists => "File exists (os error 17)"
  | .notDirectory => "Not a directory (os error 20)"
  | .isDirectory => "Is a directory (os error 21)"
  | .nameTooLong => "File name too long (os error 36)"
  | .invalidText => "stream did not contain valid UTF-8"
  | .nulInName => "file name contained an unexpected NUL byte"
  | .nulInCommand => "nul byte found in provided data"
  | .reported text => text

end RelayKeeper
