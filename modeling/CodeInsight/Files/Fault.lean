/-!
# What can go wrong with files

* a `FileFault` is a cause, told apart from the others by what was found instead of a file; its
  message is the one the operating system gives where it has a number for the cause;
* a store of files that is no file system reports its causes as texts.
-/

namespace CodeInsight

/-- Why a file could not be used. -/
inductive FileFault where
  | missing
  | isDirectory
  | notDirectory
  | nameTooLong
  | linkLoop
  | alreadyThere
  | notEmpty
  | nulInName
  | notText
  | notRegular (path : String)
  | tooLarge (path : String) (size limit : Nat)
  | reported (text : String)
  deriving DecidableEq, Repr

/-- The text of a cause. -/
def FileFault.message : FileFault → String
  | .missing => "No such file or directory (os error 2)"
  | .isDirectory => "Is a directory (os error 21)"
  | .notDirectory => "Not a directory (os error 20)"
  | .nameTooLong => "File name too long (os error 36)"
  | .linkLoop => "Too many levels of symbolic links (os error 40)"
  | .alreadyThere => "File exists (os error 17)"
  | .notEmpty => "Directory not empty (os error 39)"
  | .nulInName => "file name contained an unexpected NUL byte"
  | .notText => "stream did not contain valid UTF-8"
  | .notRegular path => s!"{path} is not a regular file"
  | .tooLarge path size limit => s!"{path} is {size} bytes, over the {limit} byte limit"
  | .reported text => text

end CodeInsight
