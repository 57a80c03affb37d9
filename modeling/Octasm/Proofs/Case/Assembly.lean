import Octasm.Proofs.Assembly.FirstPass
import Octasm.Proofs.Case.Statement

/-!
# Whole texts in another case

Two texts whose lines differ in the case of names at most are assembled side by side. After every
line the two assemblies are alike: the images are equal but for the spelling of open references, the
tables hold the same names at the same addresses, and source maps and spans, which hold no names,
are equal. A line is refused in both or in none, and for the same reason.

Linking removes the only difference between the images. A reference is looked up without regard to
case, so every spelling of it becomes the same byte.

## Main definitions

* `Line.Alike`: two lines that are both malformed or hold statements that are alike
* `Labels.Alike`, `Assembly.Alike`, `Program.Alike`: equal but for the spelling of names
* `AssemblyFault.Alike`: the same cause in the same place

## Main results

* `Assembly.Alike.added`, `Assembly.Alike.addLines`: the assemblies stay alike
* `Assembly.Alike.link`: and their programs are alike
* `assemble_alike`: the case of names does not matter
-/

namespace Octasm

open Fallible

/-! ### Labels -/

/-- Tables with the same names, in the same order and at the same addresses. -/
def Labels.Alike (ls ls' : Labels) : Prop :=
  List.Forall₂ (fun x y => Text.SameName x.1 y.1 ∧ x.2 = y.2) ls.entries ls'.entries

namespace Labels.Alike

variable {ls ls' : Labels} {name name' : Text}

/-- A name has the same address in both tables, however it is spelled. -/
theorem address? (h : ls.Alike ls') (hname : Text.SameName name name') :
    ls.address? name = ls'.address? name' := by
  rw [Labels.address?_congr hname, Labels.address?, Labels.address?]
  rw [Labels.Alike] at h
  generalize ls.entries = xs at h
  generalize ls'.entries = ys at h
  induction h with
  | nil => rfl
  | @cons x y xs ys hxy _ ih =>
    rw [List.find?_cons, List.find?_cons, show x.1.upper = y.1.upper from hxy.1]
    split
    · exact congrArg some hxy.2
    · exact ih

/-- Names that are distinct in one table are distinct in the other. -/
theorem distinct (h : ls.Alike ls') (hdistinct : ls.Distinct) : ls'.Distinct := by
  have hupper : (ls'.entries.map fun x => x.1.upper) = ls.entries.map fun x => x.1.upper := by
    rw [← List.forall₂_eq_eq_eq, List.forall₂_map_left_iff, List.forall₂_map_right_iff]
    exact h.flip.imp fun _ _ hname => hname.1.symm
  rw [Labels.distinct_iff, hupper]
  exact Labels.distinct_iff.mp hdistinct

/-- A name is declared in both tables, or refused for the same reason. -/
theorem declare (h : ls.Alike ls') (hname : Text.SameName name name') (address : Nat) :
    Related Fault.Alike Labels.Alike (ls.declare name address) (ls'.declare name' address) := by
  rw [Labels.declare, Labels.declare, h.address? hname, Register.ofText?_congr hname]
  split
  · exact .error (congrArg Fault.duplicateLabel hname)
  · split
    · exact .error (congrArg (fun t => Fault.reservedLabel (Text.upper t)) hname)
    · exact .ok (List.rel_append h (.cons ⟨hname, rfl⟩ .nil))

end Labels.Alike

/-! ### Assemblies -/

/-- Assemblies that differ in the spelling of names at most. -/
structure Assembly.Alike (a b : Assembly) : Prop where
  code : a.code.map Slot.raised = b.code.map Slot.raised
  sourceMap : a.sourceMap = b.sourceMap
  labels : a.labels.Alike b.labels
  spans : a.spans = b.spans

/-- Two lines that are both malformed or hold statements that are alike. -/
def Line.Alike (t u : Text) : Prop :=
  Related (fun _ _ => True) Statement.Alike (Statement.ofText t) (Statement.ofText u)

/-- Programs that differ in the spelling of their labels at most. -/
structure Program.Alike (p q : Program) : Prop where
  code : p.code = q.code
  sourceMap : p.sourceMap = q.sourceMap
  labels : List.Forall₂ (fun x y => Text.SameName x.1 y.1 ∧ x.2 = y.2) p.labels q.labels
  spans : p.spans = q.spans

/-- The same line is refused, or linking fails in both, for causes that are alike. -/
structure AssemblyFault.Alike (e f : AssemblyFault) : Prop where
  index : e.index? = f.index?
  fault : e.fault.Alike f.fault

namespace Assembly.Alike

variable {a b : Assembly}

theorem position (h : a.Alike b) : a.position = b.position := by
  have hlength := congrArg List.length h.code
  rwa [List.length_map, List.length_map] at hlength

theorem declare (h : a.Alike b) {label label' : Option Text}
    (hlabel : Option.Rel Text.SameName label label') :
    Related Fault.Alike Assembly.Alike (a.declare label) (b.declare label') := by
  cases hlabel with
  | none => exact .ok h
  | some hname =>
    rw [Assembly.declare, Assembly.declare, h.position]
    exact (h.labels.declare hname _).bind fun _ _ hlabels =>
      .ok ⟨h.code, h.sourceMap, hlabels, h.spans⟩

theorem emit (h : a.Alike b) (line : Nat) {e e' : Emission} (he : e.Alike e') :
    (a.emit line e).Alike (b.emit line e') := by
  have hlength : e.slots.length = e'.slots.length := by
    have hlength := congrArg List.length he.slots
    rwa [List.length_map, List.length_map] at hlength
  refine ⟨?_, ?_, h.labels, ?_⟩
  · rw [Assembly.emit, Assembly.emit, List.map_append, List.map_append, h.code, he.slots]
  · simp only [Assembly.emit, he.isInstruction, h.position, h.sourceMap]
  · simp only [Assembly.emit, h.spans, h.position, hlength]

/-- **One line** has one outcome in both: the assemblies stay alike, and it is accepted in both or
refused in both for the same reason. -/
theorem added (h : a.Alike b) {line : Nat} {t u : Text} (htu : Line.Alike t u) {a' : Assembly}
    {fault : Option Fault} (ha : Added a line t a' fault) :
    ∃ b' fault', Added b line u b' fault' ∧ a'.Alike b' ∧ Option.Rel Fault.Alike fault fault' := by
  cases ha with
  | malformed hs =>
    obtain ⟨g, hs', -⟩ := htu.exists_error hs
    refine ⟨b, some g, .malformed hs', h, ?_⟩
    rw [Statement.eq_malformedLine_of_ofText hs, Statement.eq_malformedLine_of_ofText hs']
    exact .some (.refl _)
  | undeclared hs hd =>
    obtain ⟨s', hs', hss⟩ := htu.exists_ok hs
    obtain ⟨g, hd', hfg⟩ := (h.declare hss.label).exists_error hd
    exact ⟨b, some g, .undeclared hs' hd', h, .some hfg⟩
  | unencoded hs hd he =>
    obtain ⟨s', hs', hss⟩ := htu.exists_ok hs
    obtain ⟨b', hd', hb'⟩ := (h.declare hss.label).exists_ok hd
    have hemission := Statement.emission_alike (Statement.scanned_of_ofText hs) hss
    obtain ⟨g, he', hfg⟩ := hemission.exists_error he
    exact ⟨b', some g, .unencoded hs' hd' he', hb', .some hfg⟩
  | accepted hs hd he =>
    obtain ⟨s', hs', hss⟩ := htu.exists_ok hs
    obtain ⟨b', hd', hb'⟩ := (h.declare hss.label).exists_ok hd
    have hemission := Statement.emission_alike (Statement.scanned_of_ofText hs) hss
    obtain ⟨e', he', hee⟩ := hemission.exists_ok he
    exact ⟨b'.emit line e', none, .accepted hs' hd' he', hb'.emit line hee, .none⟩

/-- **All lines**, up to the first that is refused. -/
theorem addLines {ts us : List Text} (h : a.Alike b) (index : Nat)
    (hlines : List.Forall₂ Line.Alike ts us) :
    Related AssemblyFault.Alike Assembly.Alike (a.addLines index ts) (b.addLines index us) := by
  induction hlines generalizing a b index with
  | nil => exact .ok h
  | @cons t u ts us htu _ ih =>
    rw [Assembly.addLines, Assembly.addLines]
    obtain ⟨b', fault', hb, hstate, hfault⟩ := h.added htu (added_addLine a index t)
    rw [hb.addLine_eq]
    generalize a.addLine index t = x at hstate hfault
    obtain ⟨a', fault⟩ := x
    cases hfault with
    | none => exact ih hstate (index + 1)
    | some hf => exact .error ⟨rfl, hf⟩

/-- A reference becomes the same byte, or is refused for the same reason. -/
theorem resolve {ls ls' : Labels} (h : ls.Alike ls') {s s' : Slot} (hs : s.raised = s'.raised) :
    Related Fault.Alike Eq (Assembly.resolve ls s) (Assembly.resolve ls' s') := by
  cases s with
  | byte c =>
    cases s' with
    | byte d => exact .ok (Slot.byte.inj hs)
    | label name => cases hs
  | label name =>
    cases s' with
    | byte d => cases hs
    | label name' =>
      have hname : Text.SameName name name' := Slot.label.inj hs
      rw [Assembly.resolve, Assembly.resolve, h.address? hname]
      cases ls'.address? name' with
      | none => exact .error (congrArg Fault.undefinedLabel hname)
      | some address =>
        dsimp only
        split
        · exact .ok rfl
        · exact .error (congrArg (fun t => Fault.labelOutOfRange t address) hname)

/-- **Linking** gives programs that are alike, or fails at the same reference. -/
theorem link (h : a.Alike b) (hdistinct : a.labels.Distinct) :
    Related Fault.Alike Program.Alike a.link b.link := by
  have hcode : List.Forall₂ (fun s s' => Slot.raised s = Slot.raised s') a.code b.code := by
    have hraised : List.Forall₂ Eq (a.code.map Slot.raised) (b.code.map Slot.raised) := by
      rw [h.code]
      exact List.forall₂_refl _
    rwa [List.forall₂_map_left_iff, List.forall₂_map_right_iff] at hraised
  have hlinked := Related.mapM (fun s s' hs => resolve h.labels hs) hcode
  refine hlinked.bind fun bytes bytes' hbytes => ?_
  rw [List.forall₂_eq_eq_eq] at hbytes
  refine .ok ⟨hbytes, h.sourceMap, ?_, h.spans⟩
  rw [hdistinct.toMap_eq_entries, (h.labels.distinct hdistinct).toMap_eq_entries]
  exact h.labels

end Assembly.Alike

/-- **The case of names does not matter.** Texts whose lines are alike are both assembled, to
programs that are alike, or both refused, in the same line and for causes that are alike. -/
theorem assemble_alike {source source' : Text}
    (h : List.Forall₂ Line.Alike source.lines source'.lines) :
    Related AssemblyFault.Alike Program.Alike (assemble source) (assemble source') := by
  have hempty : Assembly.empty.Alike Assembly.empty := ⟨rfl, rfl, .nil, rfl⟩
  have hlines := hempty.addLines 0 h
  have hfirst := Assembly.firstPass source.lines
  rw [assemble, assemble]
  generalize Assembly.empty.addLines 0 source.lines = x at hlines hfirst
  generalize Assembly.empty.addLines 0 source'.lines = y at hlines
  cases hlines with
  | error hf => exact .error hf
  | @ok a b hab =>
    obtain ⟨hreads⟩ := hfirst
    have hlink := hab.link hreads.tracks.labels_distinct
    dsimp only
    generalize a.link = x at hlink
    generalize b.link = y at hlink
    cases hlink with
    | error hf => exact .error ⟨rfl, hf⟩
    | ok hp => exact .ok hp

/-- A label, a mnemonic, a reference and the register of an offset in capitals. -/
theorem alike_jump_and_move :
    List.Forall₂ Line.Alike (Text.lines "loop: jmp Loop\n mov [sp+2], 0x1b".toList)
        (Text.lines "LOOP: JMP lOOP\n MOV [SP+2], 0x1b".toList) ∧
      ∃ p q, assemble "loop: jmp Loop\n mov [sp+2], 0x1b".toList = .ok p ∧
        assemble "LOOP: JMP lOOP\n MOV [SP+2], 0x1b".toList = .ok q ∧ Program.Alike p q := by
  have hjump : Line.Alike "loop: jmp Loop".toList "LOOP: JMP lOOP".toList := by
    have hlow : Statement.ofText "loop: jmp Loop".toList
        = .ok ⟨some "loop".toList, some "jmp".toList, some "Loop".toList, none⟩ := by decide
    have hhigh : Statement.ofText "LOOP: JMP lOOP".toList
        = .ok ⟨some "LOOP".toList, some "JMP".toList, some "lOOP".toList, none⟩ := by decide
    rw [Line.Alike, hlow, hhigh]
    exact .ok ⟨.some (by decide), .some (by decide), .some (Or.inr (by decide)), .none⟩
  have hmove : Line.Alike " mov [sp+2], 0x1b".toList " MOV [SP+2], 0x1b".toList := by
    have hlow : Statement.ofText " mov [sp+2], 0x1b".toList
        = .ok ⟨none, some "mov".toList, some "[sp+2]".toList, some "0x1b".toList⟩ := by decide
    have hhigh : Statement.ofText " MOV [SP+2], 0x1b".toList
        = .ok ⟨none, some "MOV".toList, some "[SP+2]".toList, some "0x1b".toList⟩ := by decide
    rw [Line.Alike, hlow, hhigh]
    exact .ok ⟨.none, .some (by decide), .some (Or.inr (by decide)), .some (Or.inl rfl)⟩
  have hlines : List.Forall₂ Line.Alike (Text.lines "loop: jmp Loop\n mov [sp+2], 0x1b".toList)
      (Text.lines "LOOP: JMP lOOP\n MOV [SP+2], 0x1b".toList) := .cons hjump (.cons hmove .nil)
  have hp : assemble "loop: jmp Loop\n mov [sp+2], 0x1b".toList
      = .ok ⟨[103, 0, 32, 20, 27], ⟨[(0, 0), (2, 1)]⟩, [("loop".toList, 0)],
        [⟨0, 2⟩, ⟨2, 5⟩]⟩ := by decide +kernel
  have hq : assemble "LOOP: JMP lOOP\n MOV [SP+2], 0x1b".toList
      = .ok ⟨[103, 0, 32, 20, 27], ⟨[(0, 0), (2, 1)]⟩, [("LOOP".toList, 0)],
        [⟨0, 2⟩, ⟨2, 5⟩]⟩ := by decide +kernel
  have halike := assemble_alike hlines
  rw [hp, hq] at halike
  cases halike with
  | ok h => exact ⟨hlines, _, _, hp, hq, h⟩

end Octasm
