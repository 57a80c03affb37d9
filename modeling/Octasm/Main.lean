import Octasm.Session

/-!
# The program

The session on the files and the standard output of the system.
-/

namespace Octasm

namespace Main

/-- The cause of a system error with this number and wording. -/
def cause (code : UInt32) (details : String) : Cause :=
  match code with
  | 2 => .noSuchFile
  | 20 => .notADirectory
  | 21 => .isADirectory
  | 28 => .noSpaceLeft
  | 36 => .nameTooLong
  | _ => .other (details ++ " (os error " ++ toString code ++ ")")

/-- The cause behind an error. -/
def causeOf : IO.Error → Cause
  | .alreadyExists _ code details | .invalidArgument _ code details
  | .permissionDenied _ code details | .resourceExhausted _ code details
  | .inappropriateType _ code details | .noSuchThing _ code details
  | .interrupted _ code details | .noFileOrDirectory _ code details
  | .otherError code details | .resourceBusy code details | .resourceVanished code details
  | .unsupportedOperation code details | .hardwareFault code details
  | .unsatisfiedConstraints code details | .illegalOperation code details
  | .protocolError code details | .timeExpired code details => cause code details
  | .unexpectedEof => .other "unexpected end of file"
  | .userError message => .other message

/-- An action whose error is a value. -/
def caught (act : IO α) : IO (Except Cause α) := do
  match ← act.toBaseIO with
  | .ok a => return .ok a
  | .error e => return .error (causeOf e)

/-- The system as a host. -/
def host : Host IO IO.FS.Handle where
  openFile path := caught (IO.FS.Handle.mk (String.ofList path) .read)
  readAll handle := caught do return (← handle.readBinToEnd).toList
  createFile path := caught (IO.FS.Handle.mk (String.ofList path) .write)
  writeAll handle bytes := caught do
    handle.write bytes.toByteArray
    handle.flush
  print row := do (← IO.getStdout).putStrLn (String.ofList row)

end Main

end Octasm

/-- Run the assembler on the system's arguments. If they are refused, say how they are written. -/
def main (args : List String) : IO UInt32 := do
  let code ← Octasm.Session.execute Octasm.Main.host (args.map String.toList)
  if code == 2 then IO.eprintln (String.ofList Octasm.Session.usage)
  return code
