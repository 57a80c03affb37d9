import Octasm.CommandLine
import Octasm.Diagnostic
import Octasm.Host
import Octasm.Listing
import Octasm.Symbols

/-!
# Runs of the assembler

A run reads the source, assembles it, writes the image, then the symbols if they are asked for, and
last prints the listing if that is asked for. The first failure ends it with a report. The source
has been read to its end before anything is written, so the output may take its place, and what was
written before a failure stays.

## Main definitions

* `Failure`: why a run ends early, and its report
* `Session.run`: one assembling run
* `Session.execute`: from arguments to an exit code
-/

namespace Octasm

/-! ### Failures -/

/-- What a run was doing with a file. -/
inductive Action
  | opening | reading | creating | writing
  deriving DecidableEq, Repr

/-- The report of a failed action. -/
def Action.message : Action → String
  | opening => "Failed to open file: "
  | reading => "Failed to read file: "
  | creating => "Failed to create file: "
  | writing => "Failed to write file: "

/-- Why a run ends early. -/
inductive Failure
  | file (action : Action) (path : Text) (cause : Cause)
  | assembly (path source : Text) (fault : AssemblyFault)
  deriving DecidableEq, Repr

/-- The rows that report a failure. -/
def Failure.rows : Failure → List Text
  | file action path cause =>
    [Diagnostic.errorRow (action.message ++ String.ofList path),
      ' ' :: ' ' :: Terminal.paint Terminal.blue "caused by".toList
        ++ ':' :: ' ' :: cause.message.toList]
  | assembly path source fault => Diagnostic.rows path source fault

namespace Session

variable {m : Type → Type} {Handle : Type} [Monad m]

/-! ### Steps of a run -/

/-- Print a row. -/
def print (host : Host m Handle) (row : Text) : ExceptT Failure m Unit :=
  ExceptT.lift (host.print row)

/-- Do something with a file and fail with the report of the action. -/
def attempt {α : Type} (action : Action) (path : Text) (act : m (Except Cause α)) :
    ExceptT Failure m α :=
  ExceptT.mk do
    match ← act with
    | .ok a => return .ok a
    | .error cause => return .error (.file action path cause)

/-- Read a source text. -/
def readSource (host : Host m Handle) (path : Text) : ExceptT Failure m Text := do
  let handle ← attempt .opening path (host.openFile path)
  let bytes ← attempt .reading path (host.readAll handle)
  match Text.ofUtf8? bytes with
  | some source => return source
  | none => throw (.file .reading path .notUtf8)

/-- Write a whole file. -/
def writeFile (host : Host m Handle) (path : Text) (bytes : List UInt8) :
    ExceptT Failure m Unit := do
  let handle ← attempt .creating path (host.createFile path)
  attempt .writing path (host.writeAll handle bytes)

/-- The row that sums a program up. -/
def summary (p : Program) : Text :=
  ' ' :: ' ' :: Text.decimal p.code.length ++ " bytes, ".toList
    ++ Text.decimal p.sourceMap.entries.length ++ " instructions, ".toList
    ++ Text.decimal p.labels.length ++ " labels".toList

/-! ### Whole runs -/

/-- One assembling run. -/
def run (host : Host m Handle) (o : Options) : ExceptT Failure m Unit := do
  print host "S8 Assembler".toList
  print host "1. Read Source".toList
  print host ("  < ".toList ++ o.input)
  let source ← readSource host o.input
  print host "2. Assemble".toList
  match assemble source with
  | .error fault => throw (.assembly o.input source fault)
  | .ok p =>
    print host (summary p)
    print host "3. Write Output".toList
    print host ("  > ".toList ++ o.output)
    writeFile host o.output (Image.fileBytes o.format p.code)
    if let some path := o.symbols then
      print host ("  > ".toList ++ path)
      writeFile host path (Symbols.render p).toUtf8
    if o.dump then
      (Listing.rows o.input source p).forM (print host)

/-- How the arguments are to be written. -/
def usage : Text :=
  "Usage: s8asm [-o OUTPUT] [-f bin|hex] [-s SYMBOLS] [-d] [INPUT]".toList

/-- The exit code of the program with these arguments. Arguments that are refused do nothing. -/
def execute (host : Host m Handle) (args : List Text) : m UInt32 :=
  match Request.ofArguments args with
  | .refuse => return 2
  | .version => do
    host.print "s8asm 0.1.0".toList
    return 0
  | .help => do
    host.print usage
    return 0
  | .assemble options => do
    match ← (run host options).run with
    | .ok () => return 0
    | .error failure =>
      failure.rows.forM host.print
      return 1

end Session

end Octasm
