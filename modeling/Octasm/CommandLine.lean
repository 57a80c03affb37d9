import Octasm.Image

/-!
# The command line

```
s8asm [-o OUTPUT] [-f bin|hex] [-s SYMBOLS] [-d] [INPUT]
```

Arguments are read from left to right, and the first thing that settles the outcome wins: a request
for the version or for help is answered even if nonsense follows, and nonsense in front of it is
refused.

A value may be attached to its option, `-ox`, `-o=x` or `--output=x`, or be the next argument. As
the next argument it must not start with a dash, except for a dash alone, which is a file name like
any other. Short options may be written together, a value option last. Two dashes end the options.
Nothing may be given twice.

## Main definitions

* `Options`: what to do, with defaults filled in
* `Request`: the outcome of reading the arguments
* `Request.ofArguments`: the reader
-/

namespace Octasm

/-- What an assembling run is asked to do. -/
structure Options where
  input : Text
  output : Text
  format : Image.Format
  symbols : Option Text
  dump : Bool
  deriving DecidableEq, Repr

/-- What the arguments ask for. -/
inductive Request
  | assemble (options : Options)
  | version
  | help
  /-- The arguments make no sense. -/
  | refuse
  deriving DecidableEq, Repr

namespace CommandLine

/-! ### Options by name -/

/-- Options that take a value. -/
inductive Valued
  | output | format | symbols
  deriving DecidableEq, Repr

/-- Options and flags. -/
inductive Switch
  | valued (option : Valued)
  | dump
  | version
  | help
  deriving DecidableEq, Repr

/-- The switch of a letter. -/
def Switch.ofLetter? : Char → Option Switch
  | 'o' => some (.valued .output)
  | 'f' => some (.valued .format)
  | 's' => some (.valued .symbols)
  | 'd' => some .dump
  | 'V' => some .version
  | 'h' => some .help
  | _ => none

/-- The switch of a long name, which has to be spelled out. -/
def Switch.ofName? (name : Text) : Option Switch :=
  match String.ofList name with
  | "output" => some (.valued .output)
  | "format" => some (.valued .format)
  | "symbols" => some (.valued .symbols)
  | "dump" => some .dump
  | "version" => some .version
  | "help" => some .help
  | _ => none

/-! ### What has been given -/

/-- The arguments read so far. -/
structure Given where
  input : Option Text
  output : Option Text
  format : Option Image.Format
  symbols : Option Text
  dump : Bool
  deriving DecidableEq, Repr

namespace Given

/-- No arguments. -/
def nothing : Given := ⟨none, none, none, none, false⟩

/-- The options, with a default for what is missing. -/
def options (g : Given) : Options where
  input := g.input.getD "main.asm".toList
  output := g.output.getD "main.bin".toList
  format := g.format.getD .bin
  symbols := g.symbols
  dump := g.dump

/-- Give an option its value, unless it has one already or the value is not among its values. -/
def set? (g : Given) (option : Valued) (value : Text) : Option Given :=
  match option with
  | .output => if g.output.isSome then none else some { g with output := some value }
  | .symbols => if g.symbols.isSome then none else some { g with symbols := some value }
  | .format =>
    if g.format.isSome then none
    else (Image.Format.ofText? value).map fun format => { g with format := some format }

/-- Give the input path, unless it is there already. -/
def setInput? (g : Given) (path : Text) : Option Given :=
  if g.input.isSome then none else some { g with input := some path }

/-- Ask for a listing, unless that was done already. -/
def setDump? (g : Given) : Option Given := if g.dump then none else some { g with dump := true }

end Given

/-! ### One argument -/

/-- Where an argument leaves the reader. -/
inductive Step
  /-- Go on. -/
  | more (given : Given)
  /-- Go on; the next argument is the value of an option. -/
  | await (option : Valued) (given : Given)
  /-- Go on; only paths follow. -/
  | paths (given : Given)
  /-- The outcome is settled. -/
  | settled (request : Request)

/-- Go on if a setting was accepted. -/
def Step.ofGiven? : Option Given → Step
  | some g => .more g
  | none => .settled .refuse

/-- A value written right behind its letter, where an equals sign may separate the two. -/
def attached : Text → Text
  | '=' :: value => value
  | value => value

/-- Letters that are written together behind one dash. -/
def letters (g : Given) : Text → Step
  | [] => .more g
  | c :: rest =>
    match Switch.ofLetter? c with
    | none => .settled .refuse
    | some .version => .settled .version
    | some .help => .settled .help
    | some .dump =>
      match g.setDump? with
      | some g => letters g rest
      | none => .settled .refuse
    | some (.valued option) =>
      if rest.isEmpty then .await option g else .ofGiven? (g.set? option (attached rest))

/-- A long option, without its dashes. -/
def long (g : Given) (t : Text) : Step :=
  let name := t.takeWhile (· != '=')
  match Switch.ofName? name, t.dropWhile (· != '=') with
  | some (.valued option), [] => .await option g
  | some (.valued option), _ :: value => .ofGiven? (g.set? option value)
  | some .dump, [] => .ofGiven? g.setDump?
  | some .version, [] => .settled .version
  | some .help, [] => .settled .help
  | _, _ => .settled .refuse

/-- An argument that is not the value of an option. -/
def argument (g : Given) : Text → Step
  | ['-', '-'] => .paths g
  | '-' :: '-' :: t => long g t
  | '-' :: c :: t => letters g (c :: t)
  | path => .ofGiven? (g.setInput? path)

/-- Does an argument look like an option, so that it is no value? -/
def looksLikeOption : Text → Bool
  | '-' :: _ :: _ => true
  | _ => false

/-! ### All arguments -/

/-- The request of paths alone. -/
def readPaths (g : Given) : List Text → Request
  | [] => .assemble g.options
  | path :: rest =>
    match g.setInput? path with
    | some g => readPaths g rest
    | none => .refuse

/-- The request of the arguments that are left; `awaited` is an option that lacks its value. -/
def read (g : Given) (awaited : Option Valued) : List Text → Request
  | [] => if awaited.isSome then .refuse else .assemble g.options
  | arg :: rest =>
    match awaited with
    | some option =>
      if looksLikeOption arg then .refuse
      else
        match g.set? option arg with
        | some g => read g none rest
        | none => .refuse
    | none =>
      match argument g arg with
      | .more g => read g none rest
      | .await option g => read g (some option) rest
      | .paths g => readPaths g rest
      | .settled request => request

end CommandLine

/-- What the arguments ask for. -/
def Request.ofArguments (args : List Text) : Request :=
  CommandLine.read .nothing none args

end Octasm
