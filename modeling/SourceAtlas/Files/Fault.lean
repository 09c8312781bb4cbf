/-! The reasons for which a disk turns a request down, in the words of the operating system. -/

namespace SourceAtlas

inductive Fault where
  /-- A step of the path leads nowhere. -/
  | notFound
  /-- A step is taken from something that is no directory. -/
  | notDirectory
  /-- A directory stands where a file is wanted. -/
  | isDirectory
  /-- The name of a step is too long. -/
  | nameTooLong
  /-- Too many links have to be followed. -/
  | tooManyLinks
  /-- The path holds the character that ends a path. -/
  | nulInPath
  /-- The file may not be touched. -/
  | denied
  /-- Any other reason, in its own words. -/
  | other (reason : String)
  deriving DecidableEq, Repr

def Fault.message : Fault → String
  | .notFound => "No such file or directory (os error 2)"
  | .notDirectory => "Not a directory (os error 20)"
  | .isDirectory => "Is a directory (os error 21)"
  | .nameTooLong => "File name too long (os error 36)"
  | .tooManyLinks => "Too many levels of symbolic links (os error 40)"
  | .nulInPath => "file name contained an unexpected NUL byte"
  | .denied => "Permission denied (os error 13)"
  | .other reason => reason

end SourceAtlas
