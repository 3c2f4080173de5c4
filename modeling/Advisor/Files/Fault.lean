/-!
# Faults of the file system
-/

namespace Advisor.Files

/-- Why an operation on a path is refused. -/
inductive Fault where
  | missing
  | present
  | notDirectory
  | directory
  | nameTooLong
  /-- The path holds a NUL, which ends a name for the system. -/
  | nulInName
  /-- The bytes of the file are no text. -/
  | notText
  /-- A reason outside the tree of files, in the words of the system. -/
  | other (reason : String)
deriving DecidableEq, Repr

def Fault.message : Fault → String
  | missing => "No such file or directory (os error 2)"
  | present => "File exists (os error 17)"
  | notDirectory => "Not a directory (os error 20)"
  | directory => "Is a directory (os error 21)"
  | nameTooLong => "File name too long (os error 36)"
  | nulInName => "file name contained an unexpected NUL byte"
  | notText => "stream did not contain valid UTF-8"
  | other reason => reason

end Advisor.Files
