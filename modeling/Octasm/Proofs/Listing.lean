import Octasm.Listing
import Octasm.Proofs.Assembly.Coherence
import Octasm.Proofs.Assembly.Decoding
import Octasm.Proofs.Instruction.OpcodeNames
import Octasm.Proofs.Statement.Opening
import Octasm.Proofs.Statement.Trailing
import Octasm.Proofs.Text.Numeral

/-!
# What a listing shows

A listing is made of a program and its source text alone. It reads each line again, without the
blanks at its end; it finds the label by looking for the same text; it takes a line for an
instruction if the source map knows the address where its bytes start; and it names the instruction
after the first of these bytes. Of an arbitrary program and an arbitrary text none of this would be
right. Of an assembled program all of it is:

* blanks at the end of a line do not change its statement
* only separators stand in front of a label, so the first place with its text is the declaration
* lines do not overlap, so data never starts where an instruction does
* no opcode belongs to two mnemonics, and its name starts with its own

## Main definitions

* `Listing.Columns`: the columns of a row
* `Listing.Dumps`, `Listing.Marked`, `Listing.Named`: the columns for the bytes, for the source and
  for the name of the opcode
* `Listing.Columns.Shows`: the columns show a line of a program
* `Listing.Framed`: rows between a header and a rule

## Main results

* `Listing.marked_sourceColumn`: the label is marked where it is declared
* `Assembly.Reads.line?_eq_none`: no entry for data
* `Listing.rows_show`: the listing of an assembled program
-/

namespace Octasm

namespace Listing

open Terminal

/-! ### The source -/

variable {lead name : Text}

/-- A line with its label in green where it is declared; a line without a label is as it is. -/
inductive Marked : Option Text → Text → Text → Prop
  | plain (t : Text) : Marked none t t
  | label {lead name : Text} (hlead : ∀ c ∈ lead, Text.isSeparator c = true) (rest : Text) :
      Marked (some name) (lead ++ (name ++ ':' :: rest))
        (lead ++ ("\x1b[32m".toList ++ name ++ "\x1b[39m".toList ++ ':' :: rest))

/-- Behind separators, the first place with the text of a name is where the name stands. -/
theorem replaceFirst_name (hlead : ∀ c ∈ lead, Text.isSeparator c = true)
    (hname : name.isName = true) (replacement rest : Text) :
    replaceFirst name replacement (lead ++ (name ++ rest)) = lead ++ (replacement ++ rest) := by
  obtain ⟨c, u, rfl, hc, -⟩ := Text.isName_iff.mp hname
  -- the search passes over the separators one by one, since the name starts with none
  induction lead with
  | nil =>
    have hprefix : (c :: u).isPrefixOf (c :: (u ++ rest)) = true :=
      List.isPrefixOf_iff_prefix.mpr (List.prefix_append (c :: u) rest)
    rw [List.nil_append, List.cons_append, replaceFirst, if_pos hprefix, ← List.cons_append,
      List.drop_left, List.nil_append]
  | cons d lead ih =>
    have hne : c ≠ d := by
      rintro rfl
      have hsep := hlead c (List.mem_cons_self ..)
      rw [Text.isSeparator_eq_false hc] at hsep
      cases hsep
    have hprefix : ¬ (c :: u).isPrefixOf (d :: (lead ++ (c :: u ++ rest))) = true := by
      simp [hne]
    rw [List.cons_append, replaceFirst, if_neg hprefix,
      ih fun d' hd' => hlead d' (List.mem_cons_of_mem d hd'), List.cons_append]

/-- **The label is marked where it is declared**, and nothing else is changed. -/
theorem marked_sourceColumn (t : Text) : Marked (Line.label? t) t (sourceColumn t) := by
  rw [Line.label?, sourceColumn]
  cases hs : Statement.ofText t with
  | error f => exact .plain t
  | ok s =>
    obtain ⟨label, mnemonic, first, second⟩ := s
    cases label with
    | none => exact .plain t
    | some name =>
      obtain ⟨front, hfront, ht⟩ := Statement.exists_opening t
      rw [← Statement.eq_scan_of_ofText hs] at hfront
      cases hfront with
      | @labelled lead _ gap hlead hname hgap =>
        rw [List.append_assoc, List.append_assoc, List.cons_append] at ht
        dsimp only
        rw [ht, replaceFirst_name hlead hname, paint_green]
        exact .label hlead _

end Listing

/-! ### What a line adds -/

namespace Line

theorem label?_trimEnd (t : Text) : label? t.trimEnd = label? t := by
  rw [label?, label?, Statement.ofText_trails t.trails_trimEnd]

/-- A line that is accepted adds an instruction, data, or nothing. -/
inductive Adds (t : Text) : Prop
  | instruction {m : Mnemonic} {code : UInt8} {operands : List Slot}
      (hi : isInstruction t = true) (hm : mnemonic? t = some m) (hdb : m ≠ .db)
      (hslots : slots t = .byte code :: operands) (hlength : operands.length ≤ 2)
      (hnames : ∀ name, (name, code) ∈ Opcode.named → m.Names name) : Adds t
  | data (hi : isInstruction t = false) (hm : mnemonic? t = some .db) : Adds t
  | nothing (hi : isInstruction t = false) (hm : mnemonic? t = none) (hslots : slots t = []) :
      Adds t

theorem adds {t : Text} (h : Accepted t) : Adds t := by
  obtain ⟨s, e, hs, he⟩ := h
  have hemission := emission_of_ofText hs he
  have hmnemonic := mnemonic?_of_ofText hs
  rcases Statement.emission_eq_ok_iff.mp he with
    ⟨hm, rfl⟩ | ⟨i, slots, ⟨spelling, hspelling, hm, -⟩, hslots, rfl⟩
  · rw [hm] at hmnemonic
    exact .nothing (congrArg Emission.isInstruction hemission) hmnemonic
      (congrArg Emission.slots hemission)
  · rw [hspelling, Option.bind_some, hm] at hmnemonic
    by_cases hdb : i.mnemonic = .db
    · refine .data ?_ (hmnemonic.trans (congrArg some hdb))
      rw [isInstruction, hemission, hdb]
      rfl
    · obtain ⟨code, operands, hcode, hlength, hnames⟩ := Instruction.exists_opcode hdb hslots
      refine .instruction ?_ hmnemonic hdb ((congrArg Emission.slots hemission).trans hcode) hlength
        hnames
      rw [isInstruction, hemission]
      simpa [Mnemonic.isDirective] using hdb

end Line

/-! ### Looking addresses up -/

namespace Assembly

open Source

variable {ls : List Text} {a : Assembly} {e : Placed}

/-- The address of an instruction is in the source map. -/
theorem Reads.exists_line? (h : Reads ls a) (he : e ∈ place 0 (calls ls))
    (hi : Line.isInstruction e.text = true) : ∃ line, a.sourceMap.line? e.address = some line := by
  have hmem : (e.address, e.index) ∈ a.sourceMap.entries := by
    rw [h.tracks.sourceMap]
    exact List.mem_filterMap.mpr ⟨e, he, Placed.instruction?_eq_some_iff.mpr ⟨hi, rfl⟩⟩
  cases hline : a.sourceMap.line? e.address with
  | some line => exact ⟨line, rfl⟩
  | none =>
    have hne := List.lookup_eq_none_iff.mp hline _ hmem
    rw [bne_self_eq_false] at hne
    cases hne

/-- **Data has no entry.** An instruction that started at the address of a line of data would
overlap with it. -/
theorem Reads.line?_eq_none (h : Reads ls a) (he : e ∈ place 0 (calls ls))
    (hi : Line.isInstruction e.text = false) (hslots : Line.slots e.text ≠ []) :
    a.sourceMap.line? e.address = none := by
  refine List.lookup_eq_none_iff.mpr fun x hx => bne_iff_ne.mpr fun haddress => ?_
  rw [h.tracks.sourceMap] at hx
  obtain ⟨f, hf, hx⟩ := List.mem_filterMap.mp hx
  obtain ⟨hfi, rfl⟩ := Placed.instruction?_eq_some_iff.mp hx
  have hne : e ≠ f := by
    rintro rfl
    rw [hi] at hfi
    cases hfi
  have he' : e.address < e.stop := Nat.lt_add_of_pos_right (List.length_pos_iff.mpr hslots)
  have hf' := Placed.address_lt_stop hfi
  rcases place_disjoint he hf hne with hstop | hstop <;> omega

end Assembly

/-! ### The columns -/

namespace Listing

open Terminal

/-- The columns of a row, from left to right. -/
structure Columns where
  address : Text
  bytes : Text
  number : Text
  source : Text
  name : Text

/-- The row with these columns. The bytes are filled up with spaces behind them, and the number with
spaces in front. -/
def Columns.row (c : Columns) : Text :=
  c.address ++ (c.bytes ++ List.replicate (14 - c.bytes.length) ' ') ++ ['|', ' ']
    ++ (List.replicate (4 - c.number.length) ' ' ++ c.number) ++ [':', ' '] ++ c.source ++ c.name

/-- A line with an instruction has the name of its first byte behind it in red, if the byte is in
the table of names; any other line has nothing behind it. -/
inductive Named (mnemonic? : Option Mnemonic) (bytes : List UInt8) : Text → Prop
  | name {m : Mnemonic} {code : UInt8} {name : String} (hm : mnemonic? = some m) (hdb : m ≠ .db)
      (hcode : bytes.head? = some code) (hname : (name, code) ∈ Opcode.named)
      (hnames : m.Names name) :
      Named mnemonic? bytes (" \x1b[31m; ".toList ++ name.toList ++ "\x1b[39m".toList)
  | none (h : ∀ m code name, mnemonic? = some m → m ≠ .db → bytes.head? = some code →
      (name, code) ∉ Opcode.named) : Named mnemonic? bytes []

/-- A line without the blanks at its end. -/
structure Trimmed (line t : Text) : Prop where
  trails : Text.Trails t line
  ends : ∀ c ∈ t.getLast?, Text.isBlank c = false

/-- Bytes in hexadecimal with blanks between them. -/
def Dumps (bytes : List UInt8) (t : Text) : Prop :=
  ∃ words, List.Forall₂ (fun w b => Number.Printed 16 2 w b.toNat) words bytes ∧
    t = [' '].intercalate words

/-- The columns show line `i` of a program, whose bytes are in the span `s`. -/
structure Columns.Shows (ls : List Text) (p : Program) (i : Nat) (line : Text) (s : Span)
    (c : Columns) : Prop where
  span : p.spans[i]? = some s
  /-- The bytes of the span are those of the line, with its references resolved. -/
  resolves : List.Forall₂ (Source.Resolves ls) (Line.slots line) (s.bytes p.code)
  address : Line.slots line ≠ [] →
    ∃ digits, Number.Printed 16 2 digits s.start ∧
      c.address = "\x1b[32m".toList ++ digits ++ "\x1b[39m: ".toList
  blank : Line.slots line = [] → c.address = List.replicate 4 ' '
  /-- Up to four bytes are all there. -/
  bytes : (s.bytes p.code).length ≤ 4 → Dumps (s.bytes p.code) c.bytes
  /-- Only data is cut. -/
  elided : 4 < (s.bytes p.code).length →
    (∃ t, Dumps ((s.bytes p.code).take 4) t ∧ c.bytes = t ++ ['.', '.']) ∧
      Line.mnemonic? line = some .db
  number : Number.Printed 10 1 c.number (i + 1)
  source : ∃ t, Trimmed line t ∧ Marked (Line.label? line) t c.source
  name : Named (Line.mnemonic? line) (s.bytes p.code) c.name

/-! ### Rows -/

variable {ls : List Text} {a : Assembly} {p : Program} {e : Placed}

open Assembly (Reads)
open Source (calls)

/-- Nothing is named that is no instruction. -/
theorem nameColumn_eq_nil (h : Reads ls a) (he : e ∈ place 0 (calls ls))
    (hi : Line.isInstruction e.text = false) (bytes : List UInt8) :
    nameColumn a.sourceMap e.span bytes = [] := by
  by_cases hslots : Line.slots e.text = []
  · cases hline : a.sourceMap.line? e.span.start with
    | none => simp only [nameColumn, hline]
    | some line => simp only [nameColumn, hline, Placed.isEmpty_span_iff.mpr hslots]
  · have hline : a.sourceMap.line? e.span.start = none := h.line?_eq_none he hi hslots
    simp only [nameColumn, hline]

/-- The name stands behind instructions, and is theirs. -/
theorem named_nameColumn (h : Reads ls a) (hp : a.link = .ok p) (he : e ∈ place 0 (calls ls))
    (haccepted : Line.Accepted e.text) :
    Named (Line.mnemonic? e.text) (e.span.bytes p.code)
      (nameColumn p.sourceMap e.span (e.span.bytes p.code)) := by
  rw [(Assembly.link_eq_ok_iff.mp hp).2.1]
  rcases Line.adds haccepted with
    @⟨m, code, operands, hi, hm, hdb, hslots, -, hnames⟩ | ⟨hi, hm⟩ | ⟨hi, hm, -⟩
  · obtain ⟨line, hline⟩ := h.exists_line? he hi
    have hbytes := h.forall₂_bytes hp he
    rw [hslots] at hbytes
    obtain ⟨b, rest, hb, -, hcode⟩ := List.forall₂_cons_left_iff.mp hbytes
    obtain rfl := Except.ok.inj hb
    have hempty : e.span.isEmpty = false := by
      rw [Bool.eq_false_iff, Ne, Placed.isEmpty_span_iff, hslots]
      exact List.cons_ne_nil _ _
    rw [hcode]
    cases hname : Opcode.name? code with
    | some name =>
      have hmem := Opcode.name?_eq_some_iff.mp hname
      simp only [nameColumn, show e.span.start = e.address from rfl, hline, hempty, hname,
        paint_red]
      exact .name hm hdb rfl hmem (hnames name hmem)
    | none =>
      simp only [nameColumn, show e.span.start = e.address from rfl, hline, hempty, hname]
      refine .none fun m' code' name' _ _ hcode' hmem => ?_
      rw [← Option.some.inj hcode', ← Opcode.name?_eq_some_iff, hname] at hmem
      cases hmem
  · rw [nameColumn_eq_nil h he hi]
    refine .none fun m' code' name' hm' hdb' _ _ => hdb' ?_
    exact (Option.some.inj (hm.symm.trans hm')).symm
  · rw [nameColumn_eq_nil h he hi]
    refine .none fun m' code' name' hm' _ _ _ => ?_
    rw [hm] at hm'
    cases hm'

/-- The columns of a line that the listing shows. -/
def columns (p : Program) (s : Span) (i : Nat) (line : Text) : Columns :=
  ⟨addressColumn s, byteColumn (s.bytes p.code), Text.decimal (i + 1), sourceColumn line.trimEnd,
    nameColumn p.sourceMap s (s.bytes p.code)⟩

theorem dumps_hexByte (bytes : List UInt8) :
    Dumps bytes ([' '].intercalate (bytes.map Text.hexByte)) := by
  refine ⟨_, List.forall₂_map_left_iff.mpr ?_, rfl⟩
  exact List.forall₂_same.mpr fun b _ => Number.printed_hexByte b

theorem dumps_byteColumn {bytes : List UInt8} (h : bytes.length ≤ 4) :
    Dumps bytes (byteColumn bytes) := by
  rw [byteColumn, if_pos h, List.take_of_length_le h, List.append_nil]
  exact dumps_hexByte bytes

theorem exists_dumps_byteColumn {bytes : List UInt8} (h : 4 < bytes.length) :
    ∃ t, Dumps (bytes.take 4) t ∧ byteColumn bytes = t ++ ['.', '.'] := by
  rw [byteColumn, if_neg (Nat.not_le.mpr h)]
  exact ⟨_, dumps_hexByte _, rfl⟩

/-- **One row.** -/
theorem shows_columns (h : Reads ls a) (hp : a.link = .ok p) (he : e ∈ place 0 (calls ls)) :
    (columns p e.span e.index e.text).Shows ls p e.index e.text e.span := by
  obtain ⟨htext, hspan⟩ := h.lookup hp he
  have haccepted := h.lines (List.mem_of_getElem? htext)
  have hbytes := h.forall₂_bytes hp he
  refine ⟨hspan, hbytes.imp fun _ _ hs => h.resolves hs, fun hslots => ?_, fun hslots => ?_,
    dumps_byteColumn, fun hlength => ⟨exists_dumps_byteColumn hlength, ?_⟩,
    Number.printed_decimal _, ?_, named_nameColumn h hp he haccepted⟩
  · refine ⟨_, Number.printed_leftpad (by decide) (by decide) (by decide) e.span.start, ?_⟩
    have haddress : addressColumn e.span = paint green _ ++ [':', ' '] :=
      if_neg (mt Placed.isEmpty_span_iff.mp hslots)
    rw [columns, haddress, paint_green, List.append_assoc]
    rfl
  · exact if_pos (Placed.isEmpty_span_iff.mpr hslots)
  · rw [← hbytes.length_eq] at hlength
    rcases Line.adds haccepted with ⟨-, -, -, hslots, hoperands, -⟩ | ⟨-, hm⟩ | ⟨-, -, hslots⟩
    · rw [hslots, List.length_cons] at hlength
      omega
    · exact hm
    · rw [hslots] at hlength
      cases hlength
  · refine ⟨_, ⟨Text.trails_trimEnd _, Text.getLast?_trimEnd _⟩, ?_⟩
    rw [← Line.label?_trimEnd]
    exact marked_sourceColumn _

/-! ### Listings -/

/-- Rows between a header and a rule. The path in the header counts by its bytes, and dashes fill
the header up to the width of the rule. -/
def Framed (path : Text) (body listing : List Text) : Prop :=
  listing = (List.replicate 14 '-' ++ "+------[".toList ++ path ++ [']']
      ++ List.replicate (51 - path.toUtf8.length) '-')
    :: body ++ [List.replicate 14 '-' ++ '+' :: List.replicate 58 '-']

theorem framed_rows (path source : Text) (p : Program) :
    Framed path (source.lines.mapIdx (row p)) (rows path source p) := by
  rw [Framed, rows, header, Text.utf8Length_eq]
  rfl

/-- **The listing of an assembled program** is truthful. Between header and rule it has a row for
each line of the source, in order, whose columns show the line. -/
theorem rows_show (path : Text) {source : Text} {p : Program} (h : assemble source = .ok p) :
    ∃ body, Framed path body (rows path source p) ∧ body.length = source.lines.length ∧
      ∀ i line, source.lines[i]? = some line →
        ∃ s c, body[i]? = some (Columns.row c) ∧ c.Shows source.lines p i line s := by
  refine ⟨_, framed_rows path source p, List.length_mapIdx, fun i line hline => ?_⟩
  have hend := Assembly.assembled source
  rw [h] at hend
  cases hend with
  | linked hreads hp =>
    have hshows := shows_columns hreads hp (Source.mem_place_of_getElem? hline)
    refine ⟨_, _, ?_, hshows⟩
    rw [List.getElem?_mapIdx, hline, Option.map_some, row, hshows.span]
    rfl

/-- A label whose text is in the data as well, and more bytes than a row has place for. -/
theorem rows_show_message :
    ∃ p body, assemble "msg: DB \"msg: x\" \n HLT".toList = .ok p ∧
      Framed "m".toList body (rows "m".toList "msg: DB \"msg: x\" \n HLT".toList p) ∧
      body.length = 2 ∧ ∃ s c, body[0]? = some (Columns.row c) ∧
        c.Shows ["msg: DB \"msg: x\" ".toList, " HLT".toList] p 0
          "msg: DB \"msg: x\" ".toList s := by
  have h : assemble "msg: DB \"msg: x\" \n HLT".toList
      = .ok ⟨[109, 115, 103, 58, 32, 120, 0], ⟨[(6, 1)]⟩, [("msg".toList, 0)],
        [⟨0, 6⟩, ⟨6, 7⟩]⟩ := by decide +kernel
  obtain ⟨body, hrows, hlength, hbody⟩ := rows_show "m".toList h
  exact ⟨_, body, h, hrows, hlength, hbody 0 _ rfl⟩

end Listing

end Octasm
