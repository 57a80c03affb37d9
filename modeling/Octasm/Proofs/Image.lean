import Octasm.Image
import Octasm.Proofs.Text.Numeral

/-!
# Hexadecimal images

A hexadecimal image has a fixed layout: two digits in capitals for a byte, a space between
neighbours, sixteen bytes to a row, a line feed behind every row. `Hex.Written` says this of a text
without saying how the text is made. The layout leaves no choice. The pair of digits of a byte is
determined by the byte, and the place where a row ends by the number of bytes, since only the last
row may be short. So an image has one text, and the text has one image, because the pairs can be
read off it one by one.

What an image file holds is therefore as good as the image itself, in either format, and files of
two programs are equal just if their images are.

## Main definitions

* `Hex.Pair`, `Hex.Row`: the text of a byte and of a row
* `Hex.Cut`, `Hex.Written`: the rows of an image, and its text
* `Hex.read?`: the bytes of a text
* `Image.Holds`: what is in the file of an image

## Main results

* `Hex.pair_iff`, `Hex.row_iff`, `Hex.cut_iff`, `Hex.written_iff`: there is one text of a byte, of a
  row and of an image, and one way to cut the image into rows
* `Hex.read?_render`: the text of an image is read back
* `Image.fileBytes_lossless`: a hexadecimal image loses nothing
-/

namespace Octasm

namespace Hex

open Number (Writes)

variable {b : UInt8} {bytes code row : List UInt8} {parts : List (List UInt8)} {c : Char} {t : Text}
  {texts : List Text}

/-! ### Bytes -/

/-- Two hexadecimal digits in capitals that are a numeral for the byte. -/
structure Pair (b : UInt8) (t : Text) : Prop where
  numeral : Number.Numeral 16 t b.toNat
  capitals : t.upper = t
  width : t.length = 2

/-- A digit in capitals is the one that is printed. -/
theorem eq_hexDigit {d : Nat} (h : Writes 16 c d) (hcapital : c.toUpper = c) :
    c = Text.hexDigit d := by
  rcases h.2.2 with rfl | rfl
  · exact hcapital.symm
  · rfl

/-- A byte has one pair of digits. -/
theorem pair_iff : Pair b t ↔ t = Text.hexByte b := by
  constructor
  · rintro ⟨⟨digits, -, hdigits, hvalue⟩, hcapitals, hwidth⟩
    obtain ⟨c, d, rfl⟩ := List.length_eq_two.mp hwidth
    obtain ⟨hc, hd⟩ : c.toUpper = c ∧ d.toUpper = d := by simpa using hcapitals
    obtain ⟨x, xs, hx, hxs, rfl⟩ := List.forall₂_cons_left_iff.mp hdigits
    obtain ⟨y, ys, hy, hys, rfl⟩ := List.forall₂_cons_left_iff.mp hxs
    cases hys
    have hlt : y < 16 := hy.1
    have hbyte : y + 16 * x = b.toNat := by simpa [Nat.ofDigits_cons] using hvalue
    have hhigh : b.toNat / 16 = x := by omega
    have hlow : b.toNat % 16 = y := by omega
    rw [Text.hexByte, hhigh, hlow, ← eq_hexDigit hx hc, ← eq_hexDigit hy hd]
  · rintro rfl
    exact ⟨(Number.printed_hexByte b).numeral, (Number.printed_hexByte b).capitals, rfl⟩

theorem Pair.isWord (h : Pair b t) (hc : c ∈ t) : Text.isWord c = true := by
  obtain ⟨digits, -, hdigits, -⟩ := h.numeral
  have hwords := hdigits.imp fun c d hd => (⟨hd.isWord, hd⟩ : Text.isWord c = true ∧ _)
  exact ((List.forall₂_and_left _ _).mp hwords).1 c hc

/-- The value of an upper-case hexadecimal digit. -/
def digit? (c : Char) : Option Nat :=
  if c.isDigit then some (c.toNat - '0'.toNat)
  else if 'A' ≤ c ∧ c ≤ 'F' then some (c.toNat - 'A'.toNat + 10)
  else none

theorem digit?_hexDigit : ∀ d < 16, digit? (Text.hexDigit d) = some d := by decide

/-- The bytes of a text that is made of digit pairs, each followed by a space or a line feed. -/
def read? : Text → Option (List UInt8)
  | [] => some []
  | h :: l :: separator :: t =>
    if separator = ' ' ∨ separator = '\n' then do
      let high ← digit? h
      let low ← digit? l
      let bytes ← read? t
      some (UInt8.ofNat (16 * high + low) :: bytes)
    else none
  | _ => none

/-- A byte in front of a space or a line feed is read. -/
theorem read?_hexByte (hc : c = ' ' ∨ c = '\n') (b : UInt8) (t : Text) :
    read? (Text.hexByte b ++ c :: t) = (read? t).map (b :: ·) := by
  have hb := b.toNat_lt
  have hvalue : UInt8.ofNat (16 * (b.toNat / 16) + b.toNat % 16) = b := by
    rw [Nat.div_add_mod, UInt8.ofNat_toNat]
  rw [Text.hexByte, List.cons_append, List.cons_append, List.nil_append, read?, if_pos hc,
    digit?_hexDigit _ (by omega), digit?_hexDigit _ (by omega)]
  cases read? t with
  | none => rfl
  | some bytes => exact congrArg (fun b => some (b :: bytes)) hvalue

/-! ### Rows -/

/-- The text of a row: a pair of digits for each byte and one space between neighbours. -/
inductive Row : List UInt8 → Text → Prop
  | last {b : UInt8} {t : Text} (h : Pair b t) : Row [b] t
  | cons {b : UInt8} {bytes : List UInt8} {t u : Text} (h : Pair b t) (hrow : Row bytes u) :
      Row (b :: bytes) (t ++ ' ' :: u)

theorem renderRow_singleton (b : UInt8) : renderRow [b] = Text.hexByte b := by
  rw [renderRow, List.map_singleton, List.intercalate_singleton]

theorem renderRow_cons (b : UInt8) (h : bytes ≠ []) :
    renderRow (b :: bytes) = Text.hexByte b ++ ' ' :: renderRow bytes := by
  cases bytes with
  | nil => exact absurd rfl h
  | cons d bytes => simp [renderRow, List.intercalate]

/-- A row has one text, if there is a byte in it. -/
theorem row_iff : Row bytes t ↔ bytes ≠ [] ∧ t = renderRow bytes := by
  constructor
  · intro h
    induction h with
    | @last b t h =>
      rw [renderRow_singleton, pair_iff.mp h]
      exact ⟨List.cons_ne_nil _ _, rfl⟩
    | @cons b bytes t u h _ ih =>
      rw [renderRow_cons b ih.1, pair_iff.mp h, ih.2]
      exact ⟨List.cons_ne_nil _ _, rfl⟩
  · rintro ⟨hne, rfl⟩
    induction bytes with
    | nil => exact absurd rfl hne
    | cons b bytes ih =>
      by_cases hbytes : bytes = []
      · rw [hbytes, renderRow_singleton]
        exact .last (pair_iff.mpr rfl)
      · rw [renderRow_cons b hbytes]
        exact .cons (pair_iff.mpr rfl) (ih hbytes)

/-- A row does not go on in the next line. -/
theorem Row.newline_notMem (h : Row bytes t) : '\n' ∉ t := by
  have hpair : ∀ {b t}, Pair b t → '\n' ∉ t := by
    intro b t hb hmem
    cases hb.isWord hmem
  induction h with
  | last hb => exact hpair hb
  | cons hb _ ih => simp [hpair hb, ih]

/-- A row is not blank. -/
theorem Row.exists_isBlank_eq_false (h : Row bytes t) : ∃ c ∈ t, Text.isBlank c = false := by
  have hpair : ∀ {b t}, Pair b t → ∃ c ∈ t, Text.isBlank c = false := by
    intro b t hb
    obtain ⟨c, d, rfl⟩ := List.length_eq_two.mp hb.width
    exact ⟨c, List.mem_cons_self .., Text.isBlank_eq_false (hb.isWord (List.mem_cons_self ..))⟩
  cases h with
  | last hb => exact hpair hb
  | cons hb _ =>
    obtain ⟨c, hc, hblank⟩ := hpair hb
    exact ⟨c, List.mem_append_left _ hc, hblank⟩

theorem read?_renderRow (h : bytes ≠ []) (t : Text) :
    read? (renderRow bytes ++ '\n' :: t) = (read? t).map (bytes ++ ·) := by
  induction bytes with
  | nil => exact absurd rfl h
  | cons b bytes ih =>
    by_cases hbytes : bytes = []
    · rw [hbytes, renderRow_singleton, read?_hexByte (Or.inr rfl)]
      rfl
    · rw [renderRow_cons b hbytes, List.append_assoc, List.cons_append,
        read?_hexByte (Or.inl rfl), ih hbytes, Option.map_map]
      rfl

/-! ### Cutting into rows -/

/-- The bytes of an image in rows of sixteen. The last row may be shorter, and none is empty. -/
structure Cut (code : List UInt8) (parts : List (List UInt8)) : Prop where
  bytes : parts.flatten = code
  full : ∀ row ∈ parts.dropLast, row.length = 16
  last : ∀ row ∈ parts.getLast?, 1 ≤ row.length ∧ row.length ≤ 16

theorem rows_eq_nil_iff : rows code = [] ↔ code = [] := by
  cases code with
  | nil => exact iff_of_true (by rw [rows]) rfl
  | cons b bytes =>
    rw [rows]
    exact iff_of_false (List.cons_ne_nil _ _) (List.cons_ne_nil _ _)

theorem rows_of_length_le (h : row ≠ []) (hle : row.length ≤ 16) : rows row = [row] := by
  cases row with
  | nil => exact absurd rfl h
  | cons b bytes =>
    rw [List.length_cons] at hle
    rw [rows, List.take_of_length_le (by omega), List.drop_of_length_le (by omega), rows]

theorem rows_append (h : row.length = 16) (bytes : List UInt8) :
    rows (row ++ bytes) = row :: rows bytes := by
  cases row with
  | nil => cases h
  | cons b row =>
    have hrow : row.length = 15 := by simpa using h
    rw [List.cons_append, rows, List.take_left' hrow, List.drop_left' hrow]

theorem length_of_mem_rows (code : List UInt8) :
    ∀ row ∈ rows code, 1 ≤ row.length ∧ row.length ≤ 16 := by
  fun_induction rows code with
  | case1 => simp
  | case2 b bytes ih =>
    intro row hrow
    rcases List.mem_cons.mp hrow with rfl | hrow
    · rw [List.length_cons, List.length_take]
      omega
    · exact ih row hrow

/-- A row that is not the last has bytes behind it, so it is full. -/
theorem length_of_mem_dropLast_rows (code : List UInt8) :
    ∀ row ∈ (rows code).dropLast, row.length = 16 := by
  fun_induction rows code with
  | case1 => simp
  | case2 b bytes ih =>
    intro row hrow
    by_cases hrest : rows (bytes.drop 15) = []
    · rw [hrest] at hrow
      cases hrow
    · rw [List.dropLast_cons_of_ne_nil hrest] at hrow
      rcases List.mem_cons.mp hrow with rfl | hrow
      · rw [rows_eq_nil_iff, List.drop_eq_nil_iff, Nat.not_le] at hrest
        rw [List.length_cons, List.length_take]
        omega
      · exact ih row hrow

/-- There is one way to cut an image into rows. -/
theorem cut_iff : Cut code parts ↔ parts = rows code := by
  constructor
  · intro h
    induction parts generalizing code with
    | nil =>
      obtain rfl := h.bytes
      exact (rows_eq_nil_iff.mpr rfl).symm
    | cons row rest ih =>
      obtain rfl := h.bytes
      cases rest with
      | nil =>
        obtain ⟨hpos, hle⟩ := h.last row rfl
        rw [List.flatten_cons, List.flatten_nil, List.append_nil,
          rows_of_length_le (List.length_pos_iff.mp hpos) hle]
      | cons next rest =>
        have hfull : row.length = 16 := h.full row (List.mem_cons_self ..)
        have hrest : Cut (next :: rest).flatten (next :: rest) :=
          ⟨rfl, fun r hr => h.full r (List.mem_cons_of_mem row hr), h.last⟩
        rw [List.flatten_cons, rows_append hfull, ← ih hrest]
  · rintro rfl
    exact ⟨flatten_rows code, length_of_mem_dropLast_rows code, fun row hrow =>
      length_of_mem_rows code row (List.mem_of_getLast? hrow)⟩

/-! ### Images -/

/-- The layout of an image as a text: its bytes are cut into rows, and behind each row stands a line
feed. -/
structure Written (code : List UInt8) (parts : List (List UInt8)) (texts : List Text) (t : Text) :
    Prop where
  cut : Cut code parts
  rows : List.Forall₂ Row parts texts
  text : t = Text.unlines texts

theorem row_of_mem_rows (h : row ∈ rows code) : Row row (renderRow row) :=
  row_iff.mpr ⟨List.length_pos_iff.mp (length_of_mem_rows code row h).1, rfl⟩

/-- **An image has one text.** -/
theorem written_iff :
    Written code parts texts t ↔
      parts = rows code ∧ texts = parts.map renderRow ∧ t = render code := by
  constructor
  · rintro ⟨hcut, hrows, rfl⟩
    obtain rfl := cut_iff.mp hcut
    have htexts : texts = (rows code).map renderRow := by
      rw [← List.forall₂_eq_eq_eq, List.forall₂_map_right_iff]
      exact hrows.flip.imp fun _ _ h => (row_iff.mp h).2
    exact ⟨rfl, htexts, by rw [htexts, render]⟩
  · rintro ⟨rfl, rfl, rfl⟩
    refine ⟨cut_iff.mpr rfl, ?_, rfl⟩
    rw [List.forall₂_map_right_iff, List.forall₂_same]
    exact fun row hrow => row_of_mem_rows hrow

/-- **The text of an image** is read back. -/
theorem read?_render (code : List UInt8) : read? (render code) = some code := by
  have hread : ∀ parts : List (List UInt8), (∀ row ∈ parts, row ≠ []) →
      read? (Text.unlines (parts.map renderRow)) = some parts.flatten := by
    intro parts hne
    induction parts with
    | nil => rfl
    | cons row rest ih =>
      rw [List.map_cons, Text.unlines_cons, read?_renderRow (hne row (List.mem_cons_self ..)),
        ih fun r hr => hne r (List.mem_cons_of_mem row hr)]
      rfl
  rw [render, hread, flatten_rows]
  exact fun row hrow => (row_iff.mp (row_of_mem_rows hrow)).1

end Hex

/-! ### Files -/

namespace Image

/-- What is in the file of an image: the bytes as they are, or a text with their layout. -/
inductive Holds (code : List UInt8) : Format → List UInt8 → Prop
  | bin : Holds code .bin code
  | hex {parts : List (List UInt8)} {texts : List Text} {t : Text}
      (h : Hex.Written code parts texts t) : Holds code .hex t.toUtf8

/-- An image has one file in each format. -/
theorem holds_iff {code bytes : List UInt8} {format : Format} :
    Holds code format bytes ↔ bytes = fileBytes format code := by
  constructor
  · intro h
    cases h with
    | bin => rfl
    | hex h => rw [(Hex.written_iff.mp h).2.2, fileBytes]
  · rintro rfl
    cases format with
    | bin => exact .bin
    | hex => exact .hex (Hex.written_iff.mpr ⟨rfl, rfl, rfl⟩)

/-- The image is read from its file. -/
theorem read?_fileBytes (code : List UInt8) :
    (Text.ofUtf8? (fileBytes .hex code)).bind Hex.read? = some code := by
  rw [fileBytes, Text.ofUtf8?_toUtf8, Option.bind_some, Hex.read?_render]

/-- Different images have different files, in either format. -/
theorem fileBytes_inj {format : Format} {code code' : List UInt8} :
    fileBytes format code = fileBytes format code' ↔ code = code' := by
  refine ⟨fun h => ?_, congrArg _⟩
  cases format with
  | bin => exact h
  | hex =>
    have hread := read?_fileBytes code
    rw [h, read?_fileBytes] at hread
    exact (Option.some.inj hread).symm

/-- **A hexadecimal image loses nothing.** The file of an image is a text with the layout of a
hexadecimal image, whose lines are the rows, none of them blank and all of them ended; no other text
has this layout, and reading it gives the image back. Only the empty image has an empty file. So it
is the same for two files to be equal in one format as in the other. -/
theorem fileBytes_lossless (code : List UInt8) :
    (∃ t parts texts, Text.ofUtf8? (fileBytes .hex code) = some t ∧ Hex.read? t = some code ∧
      Hex.Written code parts texts t ∧
      (∀ parts' texts' t', Hex.Written code parts' texts' t' → t' = t) ∧
      t.lines = texts ++ [[]] ∧ ∀ row ∈ texts, ∃ c ∈ row, Text.isBlank c = false) ∧
    (fileBytes .hex code = [] ↔ code = []) ∧
    ∀ format code', fileBytes format code = fileBytes format code' ↔ code = code' := by
  have hwritten : Hex.Written code _ _ _ := Hex.written_iff.mpr ⟨rfl, rfl, rfl⟩
  have hrow : ∀ text ∈ (Hex.rows code).map Hex.renderRow, ∃ row, Hex.Row row text := by
    intro text htext
    obtain ⟨row, hrow, rfl⟩ := List.mem_map.mp htext
    exact ⟨row, Hex.row_of_mem_rows hrow⟩
  have hnil : fileBytes .hex [] = [] := by
    rw [fileBytes, Hex.render, Hex.rows_eq_nil_iff.mpr rfl]
    rfl
  refine ⟨⟨Hex.render code, _, _, Text.ofUtf8?_toUtf8 _, Hex.read?_render code, hwritten,
    fun _ _ _ h => (Hex.written_iff.mp h).2.2, ?_, fun text htext => ?_⟩, ?_,
    fun _ _ => fileBytes_inj⟩
  · rw [hwritten.text]
    refine Text.lines_unlines fun text htext => ?_
    obtain ⟨row, hrow⟩ := hrow text htext
    exact hrow.newline_notMem
  · obtain ⟨row, hrow⟩ := hrow text htext
    exact hrow.exists_isBlank_eq_false
  · nth_rewrite 1 [← hnil]
    exact fileBytes_inj

end Image

end Octasm
