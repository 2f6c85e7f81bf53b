import ImportTidy.Text.Utf8

/-!
# What can go wrong with a file

A file is looked up, opened, read and written.  `IoError` names the ways in which
one of these fails, and `IoError.message` is the text that a report of the
failure ends in.  A failure of the system is told with its number.
-/

namespace ImportTidy

/-- Why a file could not be read or written. -/
inductive IoError where
  /-- The path names nothing. -/
  | notFound
  /-- The path goes through something that is not a directory. -/
  | notDirectory
  /-- The path names a directory where a file is wanted. -/
  | isDirectory
  /-- The path goes through more symbolic links than a lookup follows. -/
  | tooManyLinks
  /-- A component of the path is longer than a file name may be. -/
  | nameTooLong
  /-- The path holds a zero byte, which no file name has. -/
  | nulInName
  /-- The bytes of the file, read as a whole, are not a text. -/
  | notText
  /-- The bytes of a line are not a text. -/
  | illFormed (fault : Utf8.Fault)
deriving DecidableEq, Repr

/-- The text of a failure. -/
def IoError.message : IoError → String
  | .notFound => "No such file or directory (os error 2)"
  | .notDirectory => "Not a directory (os error 20)"
  | .isDirectory => "Is a directory (os error 21)"
  | .tooManyLinks => "Too many levels of symbolic links (os error 40)"
  | .nameTooLong => "File name too long (os error 36)"
  | .nulInName => "file name contained an unexpected NUL byte"
  | .notText => "stream did not contain valid UTF-8"
  | .illFormed fault => fault.message

end ImportTidy
