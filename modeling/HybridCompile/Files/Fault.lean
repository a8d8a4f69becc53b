/-!
# HybridCompile — faults of files

Why a file could not be read or written, and the text by which the operating system says so.
-/

namespace HybridCompile

/-- Why a file could not be read or written. -/
inductive FileFault where
  /-- Nothing is there. -/
  | missing
  /-- Something is there already. -/
  | taken
  /-- A part of the path before the last is no directory. -/
  | notDirectory
  /-- The path is a directory where a file is asked for. -/
  | isDirectory
  /-- A name on the path, or the path as a whole, has too many bytes. -/
  | nameTooLong
  /-- The content is no UTF-8. -/
  | notText
  deriving DecidableEq, Repr

def FileFault.message : FileFault → String
  | missing => "No such file or directory (os error 2)"
  | taken => "File exists (os error 17)"
  | notDirectory => "Not a directory (os error 20)"
  | isDirectory => "Is a directory (os error 21)"
  | nameTooLong => "File name too long (os error 36)"
  | notText => "stream did not contain valid UTF-8"

end HybridCompile
