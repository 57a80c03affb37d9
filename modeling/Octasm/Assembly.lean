import Octasm.Instruction
import Octasm.Labels
import Octasm.Program
import Octasm.Statement
import Octasm.Text.Lines

/-!
# Assembly

Lines are added one at a time to an `Assembly`, which grows the code, the label table, the source
map and the spans. Label references stay open while lines are added; `link` resolves them all at the
end, so a label may be used above or below its declaration.

A refused line leaves the code alone. It may still have declared its label, because the label is
bound before the mnemonic is looked at.

## Main definitions

* `Emission`, `Statement.emission`: what a statement adds to the image
* `Assembly.addLine`: add one line, with the fault if it is refused
* `Assembly.link`: resolve the references
* `assemble`: a whole source text
-/

namespace Octasm

/-! ### What one statement adds -/

/-- The bytes of a statement, and whether they are an instruction to stop at. -/
structure Emission where
  slots : List Slot
  isInstruction : Bool
  deriving DecidableEq, Repr

/-- The emission of a statement without a mnemonic. -/
def Emission.nothing : Emission := ⟨[], false⟩

/-- The emission of a statement. -/
def Statement.emission (s : Statement) : Except Fault Emission :=
  match s.mnemonic with
  | none => .ok .nothing
  | some spelling =>
    match Mnemonic.ofText? spelling with
    | none => .error (.unknownMnemonic spelling)
    | some m => do
      let slots ← Instruction.encode m spelling s.first s.second
      .ok ⟨slots, !m.isDirective⟩

/-! ### Adding lines -/

/-- The state of a program under assembly. -/
structure Assembly where
  code : List Slot
  sourceMap : SourceMap
  labels : Labels
  spans : List Span
  deriving DecidableEq, Repr

namespace Assembly

/-- Nothing assembled yet. -/
def empty : Assembly := ⟨[], .empty, .empty, []⟩

/-- The address at which the next byte will stand. -/
def position (a : Assembly) : Nat := a.code.length

/-- Bind a label, if there is one, to the current position. -/
def declare (a : Assembly) (label : Option Text) : Except Fault Assembly :=
  match label with
  | none => .ok a
  | some name => do
    let labels ← a.labels.declare name a.position
    .ok { a with labels }

/-- Append the emission of a line. -/
def emit (a : Assembly) (line : Nat) (e : Emission) : Assembly :=
  { a with
    code := a.code ++ e.slots
    sourceMap := if e.isInstruction then a.sourceMap.insert a.position line else a.sourceMap
    spans := Span.record a.spans line ⟨a.position, a.position + e.slots.length⟩ }

/-- Add a line with a given index. The fault is there if the line is refused. -/
def addLine (a : Assembly) (line : Nat) (t : Text) : Assembly × Option Fault :=
  match Statement.ofText t with
  | .error fault => (a, some fault)
  | .ok statement =>
    match a.declare statement.label with
    | .error fault => (a, some fault)
    | .ok a =>
      match statement.emission with
      | .error fault => (a, some fault)
      | .ok e => (a.emit line e, none)

/-! ### Linking -/

/-- The byte of a slot. -/
def resolve (labels : Labels) : Slot → Except Fault UInt8
  | .byte b => .ok b
  | .label name =>
    match labels.address? name with
    | none => .error (.undefinedLabel name)
    | some address =>
      if address ≤ 255 then .ok (UInt8.ofNat address) else .error (.labelOutOfRange name address)

/-- Resolve every reference, in the order of the code. -/
def link (a : Assembly) : Except Fault Program := do
  let code ← a.code.mapM (resolve a.labels)
  .ok { code, sourceMap := a.sourceMap, labels := a.labels.toMap, spans := a.spans }

end Assembly

/-! ### Whole texts -/

/-- Why a source text was not assembled. -/
inductive AssemblyFault
  /-- A line was refused; indices start at zero. -/
  | line (index : Nat) (fault : Fault)
  /-- All lines were accepted and a reference could not be resolved. -/
  | link (fault : Fault)
  deriving DecidableEq, Repr

namespace AssemblyFault

/-- The cause. -/
def fault : AssemblyFault → Fault
  | line _ f => f
  | link f => f

/-- The index of the refused line. -/
def index? : AssemblyFault → Option Nat
  | line i _ => some i
  | link _ => none

/-- The report, in which lines are counted from one. -/
def message : AssemblyFault → String
  | line i f => "line " ++ String.ofList (Text.decimal (i + 1)) ++ ": " ++ f.message
  | link f => f.message

end AssemblyFault

/-- Add lines with consecutive indices, up to the first that is refused. -/
def Assembly.addLines (a : Assembly) (index : Nat) : List Text → Except AssemblyFault Assembly
  | [] => .ok a
  | t :: ts =>
    match a.addLine index t with
    | (a, none) => a.addLines (index + 1) ts
    | (_, some fault) => .error (.line index fault)

/-- Assemble a source text. -/
def assemble (source : Text) : Except AssemblyFault Program :=
  match Assembly.empty.addLines 0 source.lines with
  | .error fault => .error fault
  | .ok a => a.link.mapError AssemblyFault.link

end Octasm
