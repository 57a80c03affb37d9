import Octasm.Text.Ascii

/-!
# What a run needs from its surroundings

A run reads one file, writes up to two, and prints. It does so through a `Host`, so the same run
works on the files of a real system and on a `Workspace`, which is a plain value.

Opening and reading are separate, and so are creating and writing, because each may fail with a
report of its own. A directory can be opened for reading, for instance, but not read.
-/

namespace Octasm

/-- Why a host refuses to do something with a file. -/
inductive Cause
  | noSuchFile
  | notADirectory
  | isADirectory
  | nameTooLong
  | noSpaceLeft
  | notUtf8
  /-- Any other cause, in the host's own words. -/
  | other (message : String)
  deriving DecidableEq, Repr

/-- The wording of a cause, with the system's number for it. -/
def Cause.message : Cause → String
  | noSuchFile => "No such file or directory (os error 2)"
  | notADirectory => "Not a directory (os error 20)"
  | isADirectory => "Is a directory (os error 21)"
  | noSpaceLeft => "No space left on device (os error 28)"
  | nameTooLong => "File name too long (os error 36)"
  | notUtf8 => "stream did not contain valid UTF-8"
  | other message => message

/-- The operations that a run uses. `Handle` is what stands for an open file. -/
structure Host (m : Type → Type) (Handle : Type) where
  /-- Open a file for reading. -/
  openFile : Text → m (Except Cause Handle)
  /-- All bytes of a file that was opened for reading. -/
  readAll : Handle → m (Except Cause (List UInt8))
  /-- Create a file, or empty the one that is there. -/
  createFile : Text → m (Except Cause Handle)
  /-- Write the content of a file that was just created. -/
  writeAll : Handle → List UInt8 → m (Except Cause Unit)
  /-- Print a row. -/
  print : Text → m Unit

end Octasm
