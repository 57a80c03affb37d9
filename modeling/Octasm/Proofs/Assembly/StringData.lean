import Octasm.Proofs.Assembly.Reference
import Octasm.Proofs.Assembly.Refusal
import Octasm.Proofs.Case.Statement
import Octasm.Proofs.Instruction.Answer
import Octasm.Proofs.Statement.Matching
import Octasm.Proofs.Statement.Opening

/-!
# Strings as data

`DB "text"` puts the characters of a text into the image, one byte each. Everything that means
something elsewhere on a line may stand between the quotes: semicolons, commas, brackets, and even a
double quote, if it is the first character. Only a line feed and any later quote may not, because
the token ends there. So a string is not looked at on its way into the image, except that each
character has to be a byte.

A byte in the code is no reference. Whatever is added later, linking leaves it as it is and where
it is.

## Main definitions

* `Statement.StringData`: the lines with a string
* `Operand.Codes`: the bytes of a string
* `Assembly.AddsBytes`: what such a line adds, and what is linked of it

## Main results

* `Statement.StringData.exists_ofText`: the parts of the line
* `Assembly.prefix_code_run`: code that is there stays
* `Assembly.addLine_string`: strings reach the image as they are written
-/

namespace Octasm

/-! ### Lines with a string -/

namespace Statement

variable {label : Option Text} {s t name db : Text} {c : Char}

/-- A line with the string `s`: a front, `DB` in any case, separators, the string between double
quotes, and behind it nothing or a comment. -/
inductive StringData (label : Option Text) (s : Text) : Text → Prop
  | intro {front db gap rest : Text} (hfront : Opening label front)
      (hdb : Text.SameName Mnemonic.db.name db)
      (hgap : gap ≠ []) (hseparators : ∀ c ∈ gap, Text.isSeparator c = true)
      (hs : s ≠ []) (hbreak : '\n' ∉ s) (hquote : '"' ∉ s.tail)
      (hrest : ∀ c ∈ rest.head?, c = ';') :
      StringData label s (front ++ (db ++ (gap ++ ('"' :: s ++ '"' :: rest))))

/-- A name with a separator behind it is no label. -/
theorem scanLabel_separator (hname : name.isName = true) (hc : Text.isSeparator c = true)
    (u : Text) : (scanLabel (name ++ c :: u)).1 = none := by
  obtain ⟨d, v, rfl, hd, hv⟩ := Text.isName_iff.mp hname
  have hword : Text.isWord c = false := by
    rcases isSeparator_iff.mp hc with rfl | rfl <;> decide
  rw [List.cons_append, scanLabel, if_pos hd, Text.dropWhile_isWord_append hv hword]
  split
  · rename_i hcolon
    cases hcolon
    cases hc
  · rfl

/-- `DB` is read in any case. -/
theorem scanMnemonic_db (hdb : Text.SameName Mnemonic.db.name db) (hc : Text.isSeparator c = true)
    (u : Text) : scanMnemonic (db ++ c :: u) = some (db, c :: u) := by
  have hlength : db.length = 2 := by
    rw [← Text.length_upper, ← show Text.upper _ = _ from hdb]
    rfl
  have hletters : ∀ d ∈ db, d.isAlpha = true :=
    List.all_eq_true.mp ((Text.all_congr Text.isAlpha_congr hdb).symm.trans (by decide))
  have hstop : ∀ d ∈ (c :: u).head?, d.isAlpha = false := by
    intro d hd
    obtain rfl := Option.some.inj hd
    rw [Bool.eq_false_iff]
    intro halpha
    rw [Text.isSeparator_eq_false_of_isAlpha halpha] at hc
    cases hc
  rw [scanMnemonic_word hletters hstop (by omega), List.take_of_length_le (by omega),
    List.drop_of_length_le (by omega), List.nil_append]

/-- A string is read up to the quote at its end, and nothing is read of a comment behind it. -/
theorem scanOperands_string {gap rest : Text} (hgap : gap ≠ [])
    (hseparators : ∀ c ∈ gap, Text.isSeparator c = true) (hs : s ≠ []) (hbreak : '\n' ∉ s)
    (hquote : '"' ∉ s.tail) (hrest : ∀ c ∈ rest.head?, c = ';') :
    scanOperands (gap ++ ('"' :: s ++ '"' :: rest)) = (some ('"' :: s ++ ['"']), none) := by
  have htoken : Token.ofText? ('"' :: s ++ '"' :: rest) = some ('"' :: s ++ ['"'], rest) := by
    obtain ⟨c, u, rfl⟩ := List.exists_cons_of_ne_nil hs
    exact Token.quoted?_eq_some_iff.mpr ⟨c, u, rfl, rfl, hquote, hbreak⟩
  have hfirst : scanFirst (gap ++ ('"' :: s ++ '"' :: rest)) = some ('"' :: s ++ ['"'], rest) := by
    obtain ⟨c, gap, rfl⟩ := List.exists_cons_of_ne_nil hgap
    rw [scanFirst, List.cons_append, List.head?_cons, Option.any_some,
      hseparators c (List.mem_cons_self ..), if_pos rfl, ← List.cons_append,
      Text.skipSeparators_append hseparators, List.cons_append,
      Text.skipSeparators_cons (by decide), ← List.cons_append, htoken]
  have hsecond : scanSecond rest = none := by
    cases rest with
    | nil => rfl
    | cons c rest =>
      obtain rfl := hrest c rfl
      rfl
  rw [scanOperands, hfirst]
  simp only [hsecond, Option.map_none]

/-- **The parts of a line with a string.** -/
theorem StringData.exists_ofText (h : StringData label s t) :
    ∃ db, Text.SameName Mnemonic.db.name db ∧
      ofText t = .ok ⟨label, some db, some ('"' :: s ++ ['"']), none⟩ := by
  obtain @⟨front, db, gap, rest, hfront, hdb, hgap, hseparators, hs, hbreak, hquote, hrest⟩ := h
  refine ⟨db, hdb, ?_⟩
  have hoperands := scanOperands_string hgap hseparators hs hbreak hquote hrest
  obtain ⟨c, gap, rfl⟩ := List.exists_cons_of_ne_nil hgap
  have hc := hseparators c (List.mem_cons_self ..)
  have hname : db.isName = true := (Text.isName_congr hdb).symm.trans (by decide)
  have hhead : ∀ d ∈ (db ++ c :: (gap ++ ('"' :: s ++ '"' :: rest))).head?,
      Text.isSeparator d = false := by
    obtain ⟨d, v, rfl, hd, -⟩ := Text.isName_iff.mp hname
    simpa using Text.isSeparator_eq_false hd
  obtain ⟨hlabel, hbody⟩ := hfront.body_eq hhead fun _ => scanLabel_separator hname hc _
  rw [List.cons_append] at hoperands ⊢
  have hscan : scan (front ++ (db ++ c :: (gap ++ ('"' :: s ++ '"' :: rest))))
      = ⟨label, some db, some ('"' :: s ++ ['"']), none⟩ := by
    rw [scan_eq, hlabel, hbody, scanMnemonic_db hdb hc]
    simp only [hoperands]
  rw [ofText_of_isEmpty_eq_false, hscan]
  rw [hscan, isEmpty, Option.isNone_some, Bool.and_false]

end Statement

/-! ### The bytes of a string -/

namespace Operand

variable {s : Text} {bytes : List UInt8}

/-- The code points of a string, one byte each. -/
def Codes (s : Text) (bytes : List UInt8) : Prop :=
  List.Forall₂ (fun c b => c.toNat = b.toNat) s bytes

theorem exists_codes (h : ∀ c ∈ s, c.toNat ≤ 255) : ∃ bytes, Codes s bytes := by
  induction s with
  | nil => exact ⟨[], .nil⟩
  | cons c s ih =>
    obtain ⟨bytes, hbytes⟩ := ih fun d hd => h d (List.mem_cons_of_mem c hd)
    refine ⟨UInt8.ofNat c.toNat :: bytes, .cons ?_ hbytes⟩
    have hc := h c (List.mem_cons_self ..)
    rw [UInt8.toNat_ofNat']
    omega

/-- A character that is no byte is refused, and no other fault is possible. -/
theorem characters_eq_error (h : ∃ c ∈ s, 255 < c.toNat) :
    characters s = .error (.notAByte .character) := by
  obtain ⟨c, hc, hlarge⟩ := h
  cases hs : characters s with
  | ok bytes =>
    obtain ⟨b, hb⟩ := Fallible.exists_ok_of_mem (Fallible.mapM_eq_ok_iff.mp hs) hc
    have hcode := Int.ofNat.inj (byte_eq_ok_iff.mp hb)
    have hbound := b.toNat_lt
    omega
  | error f =>
    obtain ⟨-, d, -, -, hd, -⟩ := Fallible.mapM_eq_error_iff.mp hs
    rw [character, byte] at hd
    split at hd
    · cases hd
    · rw [← Except.error.inj hd]

/-- Characters between double quotes are taken one by one. -/
theorem ofText_string (s : Text) :
    ofText ('"' :: s ++ ['"']) = characters s >>= fun bytes => .ok (.string bytes) := by
  have hquotes : between? '"' '"' ('"' :: s ++ ['"']) = some s := between?_eq_some_iff.mpr rfl
  rw [ofText, hquotes, List.cons_append, between?_eq_none (by decide)]

end Operand

namespace Statement

open Operand (Codes characters_eq_error ofText_eq_ok_iff ofText_string)

variable {label : Option Text} {s db : Text} {bytes : List UInt8}

theorem ofText?_db (hdb : Text.SameName Mnemonic.db.name db) :
    Mnemonic.ofText? db = some .db := by
  rw [← Mnemonic.ofText?_congr hdb]
  rfl

/-- A string of bytes adds these bytes, and no instruction. -/
theorem emission_string (hdb : Text.SameName Mnemonic.db.name db) (h : Codes s bytes) :
    emission ⟨label, some db, some ('"' :: s ++ ['"']), none⟩
      = .ok ⟨bytes.map Slot.byte, false⟩ := by
  have htoken : Operand.ofText ('"' :: s ++ ['"']) = .ok (.string bytes) :=
    ofText_eq_ok_iff.mpr (.string h)
  have hslots : Instruction.slots? ⟨.db, [.string bytes]⟩ = some (bytes.map Slot.byte) :=
    congrArg some (List.append_nil _)
  refine emission_eq_ok_iff.mpr (Or.inr ⟨⟨.db, [.string bytes]⟩, _, ?_, hslots, rfl⟩)
  exact ⟨db, rfl, ofText?_db hdb, Instruction.classify_one _ htoken⟩

/-- A string with a character that is no byte is refused. -/
theorem emission_string_eq_error (hdb : Text.SameName Mnemonic.db.name db)
    (h : ∃ c ∈ s, 255 < c.toNat) :
    emission ⟨label, some db, some ('"' :: s ++ ['"']), none⟩
      = .error (.notAByte .character) := by
  have htoken : Operand.ofText ('"' :: s ++ ['"']) = .error (.notAByte .character) := by
    rw [ofText_string, characters_eq_error h]
    rfl
  refine emission_eq_error_iff.mpr ⟨db, rfl, Or.inr ⟨.db, ofText?_db hdb, ?_⟩⟩
  exact Instruction.encode_of_classify_error
    (Instruction.classify_first_error (Or.inl (by decide)) htoken)

end Statement

/-! ### Adding the line -/

namespace Assembly

open Operand Statement

variable {a b d : Assembly} {line : Nat} {label : Option Text} {s t : Text} {bytes : List UInt8}
  {fault : Option Fault} {p : Program}

/-- Adding a line leaves the code in front of it as it is. -/
theorem Added.prefix_code (h : Added a line t b fault) : a.code <+: b.code := by
  cases h with
  | malformed => exact List.prefix_rfl
  | undeclared => exact List.prefix_rfl
  | unencoded _ hd =>
    obtain ⟨-, rfl⟩ := declare_eq_ok_iff.mp hd
    exact List.prefix_rfl
  | accepted _ hd =>
    obtain ⟨-, rfl⟩ := declare_eq_ok_iff.mp hd
    exact List.prefix_append ..

/-- **Code that is there stays**, whatever is added. -/
theorem prefix_code_run (a : Assembly) (calls : List Call) : a.code <+: (a.run calls).code := by
  induction calls generalizing a with
  | nil => exact List.prefix_rfl
  | cons c calls ih => exact (added_addLine a c.index c.text).prefix_code.trans (ih _)

/-- Linking leaves bytes as they are. -/
theorem take_drop_of_link {front back : List Slot}
    (hcode : a.code = front ++ (bytes.map Slot.byte ++ back)) (h : a.link = .ok p) :
    (p.code.drop front.length).take bytes.length = bytes := by
  have hbytes := List.forall₂_take bytes.length
    (List.forall₂_drop front.length (link_eq_ok_iff.mp h).1)
  rw [hcode, List.drop_left, List.take_left' (List.length_map _), List.forall₂_map_left_iff]
    at hbytes
  have heq := hbytes.imp fun _ _ hb => Except.ok.inj hb
  rw [List.forall₂_eq_eq_eq] at heq
  exact heq.symm

/-- The line is accepted and adds these bytes, in a state that becomes `b` when the label is bound.
The bytes are part of every program that is linked from there on. -/
structure AddsBytes (a b : Assembly) (line : Nat) (t : Text) (bytes : List UInt8)
    (d : Assembly) : Prop where
  addLine : a.addLine line t = (d, none)
  code : d.code = a.code ++ bytes.map Slot.byte
  sourceMap : d.sourceMap = a.sourceMap
  labels : d.labels = b.labels
  /-- Where the state could be linked, it still can be. -/
  link : ∀ p, b.link = .ok p → ∃ q, d.link = .ok q ∧ q.code = p.code ++ bytes
  /-- The bytes stand where they were added, whatever has been added behind them. -/
  linked : ∀ calls p, (d.run calls).link = .ok p →
    (p.code.drop a.position).take bytes.length = bytes

/-- A string of bytes adds them. -/
theorem addsBytes_string (h : StringData label s t) (hd : a.declare label = .ok b)
    (hbytes : Codes s bytes) (line : Nat) :
    AddsBytes a b line t bytes (b.emit line ⟨bytes.map Slot.byte, false⟩) := by
  obtain ⟨db, hdb, hs⟩ := h.exists_ofText
  have hadd : Added a line t _ none := .accepted hs hd (emission_string hdb hbytes)
  have hcode : (b.emit line ⟨bytes.map Slot.byte, false⟩).code = a.code ++ bytes.map Slot.byte := by
    obtain ⟨-, rfl⟩ := declare_eq_ok_iff.mp hd
    rfl
  refine ⟨hadd.addLine_eq, hcode, ?_, rfl, fun p hp => ?_, fun calls p hp => ?_⟩
  · obtain ⟨-, rfl⟩ := declare_eq_ok_iff.mp hd
    rfl
  · refine link_emit hp (List.forall₂_map_left_iff.mpr ?_)
    exact List.forall₂_same.mpr fun _ _ => rfl
  · obtain ⟨back, hback⟩ := prefix_code_run (b.emit line ⟨bytes.map Slot.byte, false⟩) calls
    rw [hcode, List.append_assoc] at hback
    exact take_drop_of_link hback.symm hp

/-- **Strings reach the image as they are written.** In every state and under every index, a line
with a string, behind a label that is accepted, adds the code points of its characters in order, if
all of them are bytes; linking leaves them unchanged. Otherwise the line is refused, and at most its
label is added. -/
theorem addLine_string (a : Assembly) (line : Nat) (h : StringData label s t)
    (hd : a.declare label = .ok b) :
    ((∀ c ∈ s, c.toNat ≤ 255) → ∃ bytes d, Codes s bytes ∧ AddsBytes a b line t bytes d) ∧
      ((∃ c ∈ s, 255 < c.toNat) →
        a.addLine line t = (b, some (.notAByte .character)) ∧ Retains a b) := by
  refine ⟨fun hs => ?_, fun hs => ?_⟩
  · obtain ⟨bytes, hbytes⟩ := exists_codes hs
    exact ⟨bytes, _, hbytes, addsBytes_string h hd hbytes line⟩
  · obtain ⟨db, hdb, hof⟩ := h.exists_ofText
    have hadd : Added a line t b _ := .unencoded hof hd (emission_string_eq_error hdb hs)
    exact ⟨hadd.addLine_eq, hadd.retains⟩

/-- A string of delimiters, with a quote in front, is data behind a label; a character behind the
last byte is refused. -/
theorem addLine_string_delimiters :
    StringData (some "msg".toList) "\";,['\\\tÿ".toList
        "msg:\tdB \"\";,['\\\tÿ\";HLT".toList ∧
      (∃ bytes d, Codes "\";,['\\\tÿ".toList bytes ∧
        AddsBytes empty { empty with labels := ⟨[("msg".toList, 0)]⟩ } 0
          "msg:\tdB \"\";,['\\\tÿ\";HLT".toList bytes d) ∧
      StringData none "aĀ".toList "DB \"aĀ\"".toList ∧
      empty.addLine 0 "DB \"aĀ\"".toList = (empty, some (.notAByte .character)) := by
  have hdata : StringData (some "msg".toList) "\";,['\\\tÿ".toList
      ("msg:\t".toList ++ ("dB".toList ++ ([' '] ++ ('"' :: "\";,['\\\tÿ".toList
        ++ '"' :: ";HLT".toList)))) := by
    have hfront : Opening (some "msg".toList) ([] ++ ("msg".toList ++ ':' :: ['\t'])) :=
      .labelled (by simp) (by decide) (by simp [Text.isSeparator])
    exact .intro hfront (by decide) (by decide) (by simp [Text.isSeparator]) (by decide)
      (by decide) (by decide) (by simp)
  have hplain : StringData none "aĀ".toList
      ([] ++ ("DB".toList ++ ([' '] ++ ('"' :: "aĀ".toList ++ '"' :: [])))) :=
    .intro (.plain (by simp)) (by decide) (by decide) (by simp [Text.isSeparator]) (by decide)
      (by decide) (by decide) (by simp)
  refine ⟨hdata, ?_, hplain, ?_⟩
  · exact (addLine_string empty 0 hdata rfl).1 (by simp)
  · exact ((addLine_string empty 0 hplain rfl).2 ⟨'Ā', by decide, by decide⟩).1

end Assembly

end Octasm
