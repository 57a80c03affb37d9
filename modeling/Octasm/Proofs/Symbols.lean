import Octasm.Proofs.Assembly.FirstPass
import Octasm.Proofs.Assembly.Link
import Octasm.Proofs.Statement.Name
import Octasm.Symbols.Read
import Octasm.Text.Utf8

/-!
# What a symbol file tells

A symbol file is made for a debugger, which has to find in it the labels and the source map of the
program and nothing else. Names of labels are chosen by the user, though. They may be words that are
no strings in YAML, they may be `labels` or `mapping`, and they may be too long to stand in front of
a colon, so rows of three shapes are mixed in one map.

None of this does harm, and there are two reasons for it. A name is a dot or a letter with word
characters behind it: it holds no colon, so a row ends its key where the first colon stands; it
holds no quote, so what is in quotes is the name itself; and it does not start with a question mark.
And an entry is indented, whatever its key is, so a row at the margin is the name of a map. A
program whose labels are such names is read back from its file. The names have to be distinct as
well, or the rows would not make a map; in an assembled program they are.

## Main definitions

* `Program.WellKeyed`: labels with distinct names, and a source map in ascending order
* `Symbols.IsMap`: the rows of a map
* `Symbols.Describes`: a text tells the labels and the source map of a program

## Main results

* `Scalar.read?_render`: a name is read back from its scalar
* `Symbols.readMap?_mapRows`, `Symbols.read?_render`: so is a map from its rows, and a symbol file
* `Symbols.IsMap.append_inj`: rows fall into two maps in one way
* `Symbols.describes_render`: a symbol file describes its program
* `Symbols.render_eq_iff`: programs with one symbol file have the same labels and source map
-/

namespace Octasm

variable {name key : Text} {c : Char} {n : Nat}

/-! ### Scalars -/

namespace Scalar

/-- A name is read back, in quotes or without. -/
theorem read?_render (h : name.isName = true) : read? (render name) = some name := by
  obtain ⟨d, u, rfl, hd, -⟩ := Text.isName_iff.mp h
  rw [render]
  split
  · rw [read?, Operand.between?_eq_some_iff.mpr rfl]
  · rename_i hquotes
    have hquote : d ≠ '\'' := by
      rintro rfl
      cases hd
    rw [read?, Operand.between?_eq_none hquote]
    exact if_neg hquotes

/-- Scalars in quotes and scalars without stand for different names. -/
theorem render_inj {other : Text} (h : name.isName = true) (hother : other.isName = true) :
    render name = render other ↔ name = other := by
  refine ⟨fun heq => ?_, congrArg render⟩
  have hread := read?_render h
  rw [heq, read?_render hother] at hread
  exact (Option.some.inj hread).symm

/-- Nothing but quotes and the characters of names is in a scalar. -/
theorem notMem_render (h : name.isName = true)
    (hc : c ≠ '\'' ∧ Text.isNameHead c = false ∧ Text.isWord c = false) : c ∉ render name := by
  obtain ⟨hquote, hhead, hword⟩ := hc
  have hname : c ∉ name := by
    obtain ⟨d, u, rfl, hd, hu⟩ := Text.isName_iff.mp h
    intro hmem
    rcases List.mem_cons.mp hmem with rfl | hmem
    · cases hhead.symm.trans hd
    · cases hword.symm.trans (hu c hmem)
  rw [render]
  split
  · simp [hquote, hname]
  · exact hname

end Scalar

theorem Text.notMem_decimal (hc : c.isDigit = false) : c ∉ decimal n := by
  intro hmem
  cases hc.symm.trans (isDigit_of_mem_decimal hmem)

namespace Symbols

variable {κ : Type} {readKey? : Text → Option κ} {k : κ} {entries : List (κ × Nat)}
  {rows rest : List Text} {p : Program}

/-! ### Entries -/

theorem readNumber?_decimal (n : Nat) : readNumber? (Text.decimal n) = some n := by
  have hne : Text.decimal n ≠ [] := Nat.toDigits_ne_nil
  have hdigits : (Text.decimal n).all Char.isDigit = true :=
    List.all_eq_true.mpr fun c hc => Text.isDigit_of_mem_decimal hc
  have hvalue : Nat.ofDigitChars 10 (Text.decimal n) 0 = n := Nat.ofDigitChars_ten_toDigits
  rw [readNumber?, List.isEmpty_eq_false_iff.mpr hne, hdigits, hvalue]
  rfl

/-- An entry in one row. The key ends at the first colon and is not taken for an explicit one. -/
theorem readEntries?_plain (hcolon : ':' ∉ key) (hmark : '?' ∉ key)
    (hkey : readKey? key = some k) (hrows : readEntries? readKey? rows = some entries) :
    readEntries? readKey? ((' ' :: ' ' :: key ++ ':' :: ' ' :: Text.decimal n) :: rows)
      = some ((k, n) :: entries) := by
  have hpos : ∀ c ∈ key, (c != ':') = true := by
    intro c hc
    exact bne_iff_ne.mpr fun h => hcolon (h ▸ hc)
  rw [List.cons_append, List.cons_append, readEntries?]
  · rw [List.dropWhile_append_of_pos hpos, List.takeWhile_append_of_pos hpos,
      List.dropWhile_cons_of_neg (by simp), List.takeWhile_cons_of_neg (by simp), List.append_nil]
    simp only [hkey, readNumber?_decimal, hrows]
    rfl
  · intro explicit _ _ _ hrow
    cases key with
    | nil => exact absurd (List.cons.inj hrow).1 (by decide)
    | cons c key => exact hmark ((List.cons.inj hrow).1 ▸ List.mem_cons_self ..)

/-- An entry in two rows. -/
theorem readEntries?_explicit (hkey : readKey? key = some k)
    (hrows : readEntries? readKey? rows = some entries) :
    readEntries? readKey? ((' ' :: ' ' :: '?' :: ' ' :: key)
      :: (' ' :: ' ' :: ':' :: ' ' :: Text.decimal n) :: rows) = some ((k, n) :: entries) := by
  rw [readEntries?, hkey, readNumber?_decimal, hrows]
  rfl

/-- A label is read back, in one row or in two. -/
theorem readEntries?_labelRows {entries : List (Text × Nat)} (h : name.isName = true)
    (hrows : readEntries? Scalar.read? rows = some entries) :
    readEntries? Scalar.read? (labelRows name n ++ rows) = some ((name, n) :: entries) := by
  rw [labelRows]
  split
  · exact readEntries?_plain (Scalar.notMem_render h (by decide))
      (Scalar.notMem_render h (by decide)) (Scalar.read?_render h) hrows
  · exact readEntries?_explicit (Scalar.read?_render h) hrows

theorem readEntries?_labels {labels : List (Text × Nat)} (h : ∀ x ∈ labels, x.1.isName = true) :
    readEntries? Scalar.read? (labels.flatMap fun x => labelRows x.1 x.2) = some labels := by
  induction labels with
  | nil => rfl
  | cons x labels ih =>
    rw [List.flatMap_cons]
    exact readEntries?_labelRows (h x (List.mem_cons_self ..))
      (ih fun y hy => h y (List.mem_cons_of_mem x hy))

theorem readEntries?_sourceMap (entries : List (Nat × Nat)) :
    readEntries? readNumber? (entries.map fun x => lineRow x.1 x.2) = some entries := by
  induction entries with
  | nil => rfl
  | cons x entries ih =>
    exact readEntries?_plain (Text.notMem_decimal (by decide)) (Text.notMem_decimal (by decide))
      (readNumber?_decimal x.1) ih

/-! ### Maps -/

/-- The rows of a map with this name: the name at the margin, and the entries indented below. -/
inductive IsMap (name : Text) : List Text → Prop
  | empty : IsMap name [name ++ [':', ' ', '\x7b', '\x7d']]
  | entries {rows : List Text} (hne : rows ≠ []) (hrows : ∀ row ∈ rows, isIndented row = true) :
      IsMap name ((name ++ [':']) :: rows)

theorem isMap_mapRows (hrows : ∀ row ∈ rows, isIndented row = true) :
    IsMap name (mapRows name rows) := by
  cases rows with
  | nil => exact .empty
  | cons row rows => exact .entries (List.cons_ne_nil _ _) hrows

theorem IsMap.exists_cons (h : IsMap name rows) :
    ∃ t below, rows = (name ++ t) :: below ∧ ∀ row ∈ below, isIndented row = true := by
  cases h with
  | empty => exact ⟨_, [], rfl, by simp⟩
  | @entries below _ hbelow => exact ⟨_, below, rfl, hbelow⟩

/-- A map starts at the margin. -/
theorem IsMap.head?_append (hname : ∀ t, isIndented (name ++ t) = false) (h : IsMap name rows)
    (rest : List Text) : ∀ row ∈ (rows ++ rest).head?, isIndented row = false := by
  intro row hrow
  obtain ⟨t, below, rfl, -⟩ := h.exists_cons
  obtain rfl : name ++ t = row := Option.some.inj hrow
  exact hname t

/-- The entries of a map end at the next row at the margin. -/
theorem span_indented (hrows : ∀ row ∈ rows, isIndented row = true)
    (hrest : ∀ row ∈ rest.head?, isIndented row = false) :
    (rows ++ rest).takeWhile isIndented = rows ∧ (rows ++ rest).dropWhile isIndented = rest := by
  rw [List.takeWhile_append_of_pos hrows, List.dropWhile_append_of_pos hrows]
  cases rest with
  | nil => exact ⟨List.append_nil rows, rfl⟩
  | cons row rest =>
    have hrow : ¬ isIndented row = true := by simp [hrest row rfl]
    rw [List.takeWhile_cons_of_neg hrow, List.dropWhile_cons_of_neg hrow]
    exact ⟨List.append_nil rows, rfl⟩

/-- **A map** is read back from its rows. -/
theorem readMap?_mapRows (hentries : readEntries? readKey? rows = some entries)
    (hrows : ∀ row ∈ rows, isIndented row = true)
    (hrest : ∀ row ∈ rest.head?, isIndented row = false) :
    readMap? name readKey? (mapRows name rows ++ rest) = some (entries, rest) := by
  cases rows with
  | nil =>
    obtain rfl : [] = entries := Option.some.inj hentries
    exact if_pos rfl
  | cons row rows =>
    have hhead : name ++ [':'] ≠ name ++ [':', ' ', '\x7b', '\x7d'] := by simp
    have hmap : mapRows name (row :: rows) = (name ++ [':']) :: row :: rows := rfl
    obtain ⟨htake, hdrop⟩ := span_indented hrows hrest
    rw [hmap, List.cons_append, readMap?, if_neg hhead, if_pos rfl, htake, hdrop, hentries]
    rfl

/-- **Rows fall into two maps in one way.** -/
theorem IsMap.append_inj {other : Text} {above below above' below' rest : List Text}
    (hother : ∀ t, isIndented (other ++ t) = false) (ha : IsMap name above)
    (hb : IsMap other below) (ha' : IsMap name above') (hb' : IsMap other below')
    (h : above ++ (below ++ rest) = above' ++ (below' ++ rest)) :
    above = above' ∧ below = below' := by
  have hmargin := hb.head?_append hother rest
  have hmargin' := hb'.head?_append hother rest
  obtain ⟨t, rows, rfl, hrows⟩ := ha.exists_cons
  obtain ⟨t', rows', rfl, hrows'⟩ := ha'.exists_cons
  obtain ⟨hhead, htail⟩ := List.cons.inj h
  obtain ⟨htake, hdrop⟩ := span_indented hrows hmargin
  obtain ⟨htake', hdrop'⟩ := span_indented hrows' hmargin'
  have htail : rows ++ (below ++ rest) = rows' ++ (below' ++ rest) := htail
  rw [htail, htake'] at htake
  rw [htail, hdrop'] at hdrop
  exact ⟨by rw [hhead, htake], (List.append_cancel_right hdrop).symm⟩

/-! ### Files -/

/-- The rows of the labels. -/
def labelMap (p : Program) : List Text :=
  mapRows "labels".toList (p.labels.flatMap fun x => labelRows x.1 x.2)

/-- The rows of the source map. -/
def lineMap (p : Program) : List Text :=
  mapRows "mapping".toList (p.sourceMap.entries.map fun x => lineRow x.1 x.2)

theorem isIndented_labelRows : ∀ row ∈ labelRows name n, isIndented row = true := by
  intro row hrow
  rw [labelRows] at hrow
  split at hrow
  · rw [List.mem_singleton.mp hrow]
    rfl
  · rcases List.mem_pair.mp hrow with rfl | rfl
    · rfl
    · rfl

theorem isIndented_labels {labels : List (Text × Nat)} :
    ∀ row ∈ labels.flatMap fun x => labelRows x.1 x.2, isIndented row = true := by
  intro row hrow
  obtain ⟨x, -, hrow⟩ := List.mem_flatMap.mp hrow
  exact isIndented_labelRows row hrow

theorem isIndented_sourceMap {entries : List (Nat × Nat)} :
    ∀ row ∈ entries.map fun x => lineRow x.1 x.2, isIndented row = true := by
  intro row hrow
  obtain ⟨x, -, rfl⟩ := List.mem_map.mp hrow
  rfl

theorem isMap_labelMap (p : Program) : IsMap "labels".toList (labelMap p) :=
  isMap_mapRows isIndented_labels

theorem isMap_lineMap (p : Program) : IsMap "mapping".toList (lineMap p) :=
  isMap_mapRows isIndented_sourceMap

theorem isIndented_mapping (t : Text) : isIndented ("mapping".toList ++ t) = false := rfl

theorem newline_notMem_labelRows (h : name.isName = true) :
    ∀ row ∈ labelRows name n, '\n' ∉ row := by
  have hscalar : '\n' ∉ Scalar.render name := Scalar.notMem_render h (by decide)
  have hnumber : '\n' ∉ Text.decimal n := Text.notMem_decimal (by decide)
  intro row hrow
  rw [labelRows] at hrow
  split at hrow
  · rw [List.mem_singleton.mp hrow]
    simp [hscalar, hnumber]
  · rcases List.mem_pair.mp hrow with rfl | rfl
    · simp [hscalar]
    · simp [hnumber]

theorem newline_notMem_lineRow (address line : Nat) : '\n' ∉ lineRow address line := by
  have hnumber : ∀ n, '\n' ∉ Text.decimal n := fun n => Text.notMem_decimal (by decide)
  simp [lineRow, hnumber]

theorem newline_notMem_mapRows (hname : '\n' ∉ name) (hrows : ∀ row ∈ rows, '\n' ∉ row) :
    ∀ row ∈ mapRows name rows, '\n' ∉ row := by
  intro row hrow
  cases rows with
  | nil =>
    rw [List.mem_singleton.mp hrow]
    simp [hname]
  | cons first rows =>
    rcases List.mem_cons.mp hrow with rfl | hrow
    · simp [hname]
    · exact hrows row hrow

/-- The lines of a symbol file are the rows of its two maps. -/
theorem lines_render (h : ∀ x ∈ p.labels, x.1.isName = true) :
    (render p).lines = labelMap p ++ (lineMap p ++ [[]]) := by
  have hrows : ∀ row ∈ Symbols.rows p, '\n' ∉ row := by
    intro row hrow
    rcases List.mem_append.mp hrow with hrow | hrow
    · refine newline_notMem_mapRows (by decide) (fun row hrow => ?_) row hrow
      obtain ⟨x, hx, hrow⟩ := List.mem_flatMap.mp hrow
      exact newline_notMem_labelRows (h x hx) row hrow
    · refine newline_notMem_mapRows (by decide) (fun row hrow => ?_) row hrow
      obtain ⟨x, -, rfl⟩ := List.mem_map.mp hrow
      exact newline_notMem_lineRow x.1 x.2
  rw [render, Text.lines_unlines hrows, Symbols.rows, List.append_assoc]
  rfl

/-- **A symbol file** is read back. -/
theorem read?_render (h : ∀ x ∈ p.labels, x.1.isName = true) :
    read? (render p) = some (p.labels, p.sourceMap.entries) := by
  have hmargin := (isMap_lineMap p).head?_append isIndented_mapping [[]]
  have hlabels : readMap? "labels".toList Scalar.read? (render p).lines
      = some (p.labels, lineMap p ++ [[]]) := by
    rw [lines_render h]
    exact readMap?_mapRows (readEntries?_labels h) isIndented_labels hmargin
  have hlines : readMap? "mapping".toList readNumber? (lineMap p ++ [[]])
      = some (p.sourceMap.entries, [[]]) := by
    refine readMap?_mapRows (readEntries?_sourceMap _) isIndented_sourceMap fun row hrow => ?_
    obtain rfl : [] = row := Option.some.inj hrow
    rfl
  rw [read?, hlabels]
  simp only [Option.bind_eq_bind, Option.bind_some, hlines, if_true]

end Symbols

/-! ### Assembled programs -/

/-- The labels are names, no two of them the same, and the addresses in the source map ascend. -/
structure Program.WellKeyed (p : Program) : Prop where
  isName : ∀ x ∈ p.labels, x.1.isName = true
  distinct : p.labels.Pairwise fun x y => ¬ Text.SameName x.1 y.1
  ascending : p.sourceMap.entries.Pairwise fun x y => x.1 < y.1

theorem Line.isName_of_label? {t : Text} (h : label? t = some name) : name.isName = true := by
  rw [label?] at h
  split at h
  · rename_i s hs
    exact Statement.isName_of_label hs h
  · cases h

theorem wellKeyed_of_assemble {source : Text} {p : Program} (h : assemble source = .ok p) :
    p.WellKeyed := by
  have hend := Assembly.assembled source
  rw [h] at hend
  cases hend with
  | @linked a _ hreads hp =>
    obtain ⟨-, hmap, -⟩ := Assembly.link_eq_ok_iff.mp hp
    have hlabels := hreads.tracks.labels_link hp
    refine ⟨fun x hx => ?_, hlabels ▸ hreads.tracks.labels_distinct, ?_⟩
    · obtain ⟨i, t, -, hlabel, -⟩ := hreads.mem_entries_iff.mp (hlabels ▸ hx)
      exact Line.isName_of_label? hlabel
    · rw [hmap, hreads.tracks.sourceMap]
      exact entries_pairwise _

namespace Symbols

variable {p q : Program}

/-- The text tells the labels and the source map of a program, and is not ambiguous. -/
structure Describes (t : Text) (p : Program) : Prop where
  read : read? t = some (p.labels, p.sourceMap.entries)
  /-- No two rows of the labels have one key, in quotes or without. -/
  labels_nodup : (p.labels.map fun x => Scalar.render x.1).Nodup
  /-- No two rows of the source map have one key. -/
  sourceMap_nodup : (p.sourceMap.entries.map fun x => Text.decimal x.1).Nodup
  /-- The lines fall into two maps in one way, whatever the names of the labels are. -/
  maps : ∀ above below, IsMap "labels".toList above ∧ IsMap "mapping".toList below ∧
    t.lines = above ++ (below ++ [[]]) ↔ above = labelMap p ∧ below = lineMap p

/-- The symbol file of a program describes it. -/
theorem describes_render (h : p.WellKeyed) : Describes (render p) p where
  read := read?_render h.isName
  labels_nodup := by
    refine List.pairwise_map.mpr (h.distinct.imp_of_mem fun {x y} hx hy hdistinct hkey => ?_)
    have hname : x.1 = y.1 := (Scalar.render_inj (h.isName x hx) (h.isName y hy)).mp hkey
    exact hdistinct (hname ▸ Text.SameName.refl _)
  sourceMap_nodup := by
    refine List.pairwise_map.mpr (h.ascending.imp fun {x y} hlt hkey => ?_)
    exact Nat.ne_of_lt hlt (Text.decimal_injective hkey)
  maps above below := by
    have hlines := lines_render h.isName
    constructor
    · rintro ⟨habove, hbelow, htext⟩
      exact habove.append_inj isIndented_mapping hbelow (isMap_labelMap p) (isMap_lineMap p)
        (htext.symm.trans hlines)
    · rintro ⟨rfl, rfl⟩
      exact ⟨isMap_labelMap p, isMap_lineMap p, hlines⟩

/-- Nothing but the labels and the source map is told, and each of them is. -/
theorem render_inj (hp : p.WellKeyed) (hq : q.WellKeyed) :
    render p = render q ↔ p.labels = q.labels ∧ p.sourceMap = q.sourceMap := by
  constructor
  · intro htext
    have hread := read?_render hp.isName
    rw [htext, read?_render hq.isName] at hread
    obtain ⟨hlabels, hentries⟩ := Prod.mk.inj (Option.some.inj hread)
    exact ⟨hlabels.symm, congrArg SourceMap.mk hentries.symm⟩
  · rintro ⟨hlabels, hmap⟩
    rw [render, render, rows, rows, hlabels, hmap]

/-- **Symbol files.** Two assembled programs have one symbol file exactly if they have the same
labels, as written and in the same order, and the same source map. Each file describes its program,
and a name in quotes is never taken for one without. -/
theorem render_eq_iff {s t : Text} (hp : assemble s = .ok p) (hq : assemble t = .ok q) :
    ((render p).toUtf8 = (render q).toUtf8 ↔ p.labels = q.labels ∧ p.sourceMap = q.sourceMap) ∧
      Describes (render p) p ∧
      ∀ x ∈ p.labels, ∀ y ∈ q.labels, Scalar.render x.1 = Scalar.render y.1 ↔ x.1 = y.1 := by
  have hpkeys := wellKeyed_of_assemble hp
  have hqkeys := wellKeyed_of_assemble hq
  have hbytes : (render p).toUtf8 = (render q).toUtf8 ↔ render p = render q :=
    ⟨Text.toUtf8_injective, congrArg Text.toUtf8⟩
  refine ⟨hbytes.trans (render_inj hpkeys hqkeys), describes_render hpkeys, ?_⟩
  intro x hx y hy
  exact Scalar.render_inj (hpkeys.isName x hx) (hqkeys.isName y hy)

/-- A word with a meaning, the name of a map, and a name that is too long for one row. The programs
differ in their data only. -/
theorem render_eq_null :
    ∃ p q, assemble ("null: HLT\nmapping: DB 1\n".toList ++ List.replicate 129 'x' ++ [':'])
        = .ok p ∧
      assemble ("null: HLT\nmapping: DB 2\n".toList ++ List.replicate 129 'x' ++ [':'])
        = .ok q ∧
      p.code ≠ q.code ∧ (render p).toUtf8 = (render q).toUtf8 ∧ Describes (render p) p := by
  have hp : assemble ("null: HLT\nmapping: DB 1\n".toList ++ List.replicate 129 'x' ++ [':'])
      = .ok ⟨[0, 1], ⟨[(0, 0)]⟩,
        [("null".toList, 0), ("mapping".toList, 1), (List.replicate 129 'x', 2)],
        [⟨0, 1⟩, ⟨1, 2⟩, ⟨2, 2⟩]⟩ := by decide +kernel
  have hq : assemble ("null: HLT\nmapping: DB 2\n".toList ++ List.replicate 129 'x' ++ [':'])
      = .ok ⟨[0, 2], ⟨[(0, 0)]⟩,
        [("null".toList, 0), ("mapping".toList, 1), (List.replicate 129 'x', 2)],
        [⟨0, 1⟩, ⟨1, 2⟩, ⟨2, 2⟩]⟩ := by decide +kernel
  obtain ⟨hsame, hdescribes, -⟩ := render_eq_iff hp hq
  exact ⟨_, _, hp, hq, by decide, hsame.mpr ⟨rfl, rfl⟩, hdescribes⟩

end Symbols

end Octasm
