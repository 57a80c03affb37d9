import Octasm.Proofs.Assembly.Composition

/-!
# A program behind another

Two texts that are assembled by themselves and share no label can be put one behind the other. The
second program then stands behind the first, and nothing in it changes but its addresses: labels,
spans, source map, and those bytes of the image that a reference put there.

Which bytes these are cannot be seen in the image, where an address looks like any number. It is
the open code of the second text that tells them apart, and `Slot.moved` is therefore a function of
the slot as well as of its byte.

An address that no longer fits in a byte is the one thing that can go wrong. Nothing but a
reference can reach it: a label that is not used may be moved anywhere.

## Main definitions

* `Slot.moved`: the byte of a slot in a program that is moved up
* `Program.Reaches`: a label stays in reach when its program is moved up
* `Program.Follows`: a program that consists of two others

## Main results

* `Assembly.resolve_moved`: what becomes of a reference of the second text
* `assemble_append_newline`: assembling two texts with a line feed between them
-/

namespace Octasm

/-- The value of a byte when its program is moved up: an address moves, and any other byte stays. -/
def Slot.moved (k : Nat) : Slot → UInt8 → Nat
  | .byte _, c => c.toNat
  | .label _, c => c.toNat + k

namespace Program

/-- The address of a label in any case. -/
def address? (p : Program) (name : Text) : Option Nat := Labels.address? ⟨p.labels⟩ name

/-- A label has an address that still fits in a byte when the program is moved up by `k`. -/
def Reaches (p : Program) (k : Nat) (name : Text) : Prop :=
  ∃ a, p.address? name = some a ∧ a + k ≤ 255

/-- A program is the first of two with the second behind it; `lines` is the number of lines of the
first, and `slots` is the open code of the second. -/
structure Follows (lines : Nat) (slots : List Slot) (p q r : Program) : Prop where
  /-- Every byte of the second image has a slot. -/
  length : slots.length = q.code.length
  code : r.code.map UInt8.toNat
    = p.code.map UInt8.toNat ++ List.zipWith (Slot.moved p.code.length) slots q.code
  labels : r.labels = p.labels ++ q.labels.map fun x => (x.1, x.2 + p.code.length)
  sourceMap : r.sourceMap.entries
    = p.sourceMap.entries ++ q.sourceMap.entries.map fun x => (x.1 + p.code.length, x.2 + lines)
  spans : r.spans
    = p.spans ++ q.spans.map fun s => ⟨s.start + p.code.length, s.stop + p.code.length⟩

end Program

namespace Assembly

open Source

variable {xs ys : List Text} {p q r : Program} {s : Slot} {c d : UInt8} {name : Text} {a : Nat}

/-! ### One reference -/

/-- A label of the second text is found there, with its address moved up. -/
theorem address?_behind (hapart : Apart xs ys)
    (h : (state ys).labels.address? name = some a) :
    (state (xs ++ ys)).labels.address? name = some (a + (slots xs).length) := by
  have hback : (Labels.mk (Source.labels ys)).address? name = some a := h
  have hfront : (Labels.mk (Source.labels xs)).address? name = none := by
    refine Labels.address?_eq_none_iff.mpr fun x hx hxname => ?_
    have hsome : (Labels.mk (Source.labels ys)).address? name ≠ none := by simp [hback]
    refine hsome (Labels.address?_eq_none_iff.mpr fun y hy hyname => ?_)
    exact apart_iff.mp hapart x hx y hy (hxname.trans hyname.symm)
  simp only [state, labels_append, Labels.address?_append, Labels.address?_moved, hfront, hback,
    Option.none_or, Option.map_some]

/-- **A reference of the second text** is resolved to its byte moved up if that is a byte, and
else its label is out of range. -/
theorem resolve_moved (hys : Accepted ys) (hapart : Apart xs ys)
    (hq : (state ys).link = .ok q) (hs : s ∈ slots ys) :
    ((∀ name, s = .label name → q.Reaches (slots xs).length name) ∧
        ∃ c d, resolve (state ys).labels s = .ok c ∧
          resolve (state (xs ++ ys)).labels s = .ok d ∧ d.toNat = s.moved (slots xs).length c) ∨
      ∃ name a, s = .label name ∧ q.address? name = some a ∧ 255 < a + (slots xs).length ∧
        resolve (state (xs ++ ys)).labels s
          = .error (.labelOutOfRange name (a + (slots xs).length)) := by
  obtain ⟨c, hc⟩ := Fallible.exists_ok_of_mem (link_eq_ok_iff.mp hq).1 hs
  have hlabels : Labels.mk q.labels = (state ys).labels :=
    congrArg Labels.mk (labels_of_link hys hq)
  rcases resolve_eq_ok_iff.mp hc with rfl | ⟨name, a, rfl, ha, hle, rfl⟩
  · refine Or.inl ⟨fun name hname => ?_, c, c, rfl, rfl, rfl⟩
    cases hname
  · have hmoved := address?_behind hapart ha
    have haddress : q.address? name = some a := by rw [Program.address?, hlabels, ha]
    by_cases hfits : a + (slots xs).length ≤ 255
    · refine Or.inl ⟨fun name' hname => ?_, _, UInt8.ofNat (a + (slots xs).length), hc, ?_, ?_⟩
      · obtain rfl := Slot.label.inj hname
        exact ⟨a, haddress, hfits⟩
      · exact resolve_eq_ok_iff.mpr (Or.inr ⟨name, _, rfl, hmoved, hfits, rfl⟩)
      · rw [Slot.moved, UInt8.toNat_ofNat_of_lt' (Nat.lt_succ_of_le hle),
          UInt8.toNat_ofNat_of_lt' (Nat.lt_succ_of_le hfits)]
    · refine Or.inr ⟨name, a, rfl, haddress, Nat.lt_of_not_le hfits, ?_⟩
      exact resolve_eq_error_iff.mpr
        ⟨name, rfl, Or.inr ⟨_, hmoved, Nat.lt_of_not_le hfits, rfl⟩⟩

/-- A reference of the second text has a byte if its label stays in reach. -/
theorem exists_resolve_iff (hys : Accepted ys) (hapart : Apart xs ys)
    (hq : (state ys).link = .ok q) (hs : s ∈ slots ys) :
    (∃ d, resolve (state (xs ++ ys)).labels s = .ok d) ↔
      ∀ name, s = .label name → q.Reaches (slots xs).length name := by
  rcases resolve_moved hys hapart hq hs with ⟨hreach, -, d, -, hd, -⟩ |
    ⟨name, a, rfl, ha, hfar, hf⟩
  · exact ⟨fun _ => hreach, fun _ => ⟨d, hd⟩⟩
  · constructor
    · rintro ⟨d, hd⟩
      cases hd.symm.trans hf
    · intro hreach
      obtain ⟨b, hb, hle⟩ := hreach name rfl
      obtain rfl := Option.some.inj (ha.symm.trans hb)
      exact absurd hle (Nat.not_le.mpr hfar)

/-- A reference of the second text has no byte if its label is moved out of reach. -/
theorem resolve_moved_eq_error_iff (hys : Accepted ys) (hapart : Apart xs ys)
    (hq : (state ys).link = .ok q) (hs : s ∈ slots ys) {f : Fault} :
    resolve (state (xs ++ ys)).labels s = .error f ↔
      ∃ name a, s = .label name ∧ q.address? name = some a ∧ 255 < a + (slots xs).length ∧
        f = .labelOutOfRange name (a + (slots xs).length) := by
  constructor
  · intro hf
    rcases resolve_moved hys hapart hq hs with
      ⟨-, -, d, -, hd, -⟩ | ⟨name, a, hname, ha, hfar, hf'⟩
    · cases hd.symm.trans hf
    · exact ⟨name, a, hname, ha, hfar, Except.error.inj (hf.symm.trans hf')⟩
  · rintro ⟨name, a, rfl, ha, hfar, rfl⟩
    rcases resolve_moved hys hapart hq hs with ⟨hreach, -⟩ | ⟨m, b, hm, hb, -, hf⟩
    · obtain ⟨b, hb, hle⟩ := hreach name rfl
      obtain rfl := Option.some.inj (ha.symm.trans hb)
      exact absurd hfar (Nat.not_lt.mpr hle)
    · obtain rfl := Slot.label.inj hm
      rwa [Option.some.inj (ha.symm.trans hb)]

/-! ### All of the code -/

/-- Bytes that are moved one by one are moved together. -/
theorem map_toNat_eq_zipWith {R S : Slot → UInt8 → Prop} {k : Nat} {ss : List Slot}
    {cs ds : List UInt8} (hmoved : ∀ s ∈ ss, ∀ c d, R s c → S s d → d.toNat = s.moved k c)
    (hc : List.Forall₂ R ss cs) (hd : List.Forall₂ S ss ds) :
    ds.map UInt8.toNat = List.zipWith (Slot.moved k) ss cs := by
  induction hc generalizing ds with
  | nil =>
    cases hd
    rfl
  | @cons s c ss cs hrc _ ih =>
    cases hd with
    | cons hsd hd =>
      have hrest := ih (fun u hu => hmoved u (List.mem_cons_of_mem s hu)) hd
      rw [List.map_cons, List.zipWith_cons_cons, hrest,
        hmoved s (List.mem_cons_self ..) _ _ hrc hsd]

/-- Linking both texts at once puts the second program behind the first. -/
theorem follows_of_link (h : Accepted (xs ++ ys)) (hp : (state xs).link = .ok p)
    (hq : (state ys).link = .ok q) (hr : (state (xs ++ ys)).link = .ok r) :
    Program.Follows xs.length (slots ys) p q r := by
  obtain ⟨hxs, hys, hapart⟩ := accepted_append_iff.mp h
  obtain ⟨hpcode, hpmap, -, hpspans⟩ := link_eq_ok_iff.mp hp
  obtain ⟨hqcode, hqmap, -, hqspans⟩ := link_eq_ok_iff.mp hq
  obtain ⟨-, hrmap, -, hrspans⟩ := link_eq_ok_iff.mp hr
  have hk : (slots xs).length = p.code.length := hpcode.length_eq
  obtain ⟨back, hcode, hback⟩ := code_eq_append hp hr
  refine ⟨hqcode.length_eq, ?_, ?_, ?_, ?_⟩
  · rw [hcode, List.map_append, ← hk]
    congr 1
    refine map_toNat_eq_zipWith (fun s hs c d hc hd => ?_) hqcode hback
    rcases resolve_moved hys hapart hq hs with
      ⟨-, c', d', hc', hd', hmoved⟩ | ⟨_, _, -, -, -, hfar⟩
    · rw [Except.ok.inj (hc.symm.trans hc'), Except.ok.inj (hd.symm.trans hd'), hmoved]
    · cases hd.symm.trans hfar
  · rw [labels_of_link h hr, labels_of_link hxs hp, labels_of_link hys hq, ← hk]
    exact labels_append xs ys
  · rw [hrmap, hpmap, hqmap, ← hk]
    exact entries_append xs ys
  · rw [hrspans, hpspans, hqspans, ← hk]
    exact spans_append xs ys

/-- Both texts at once are linked if all labels of the second stay in reach. -/
theorem exists_link_append_iff (hys : Accepted ys) (hapart : Apart xs ys)
    (hp : (state xs).link = .ok p) (hq : (state ys).link = .ok q) :
    (∃ r, (state (xs ++ ys)).link = .ok r) ↔
      ∀ name, .label name ∈ slots ys → q.Reaches (slots xs).length name := by
  constructor
  · rintro ⟨r, hr⟩ name hname
    obtain ⟨back, -, hback⟩ := code_eq_append hp hr
    exact (exists_resolve_iff hys hapart hq hname).mp
      (Fallible.exists_ok_of_mem hback hname) name rfl
  · intro hreach
    cases hlink : (state (xs ++ ys)).link with
    | ok r => exact ⟨r, rfl⟩
    | error f =>
      obtain ⟨before, s, after, hsplit, hs, -⟩ := (link_append_eq_error_iff ys hp).mp hlink
      have hmem : s ∈ slots ys := by simp [hsplit]
      obtain ⟨d, hd⟩ := (exists_resolve_iff hys hapart hq hmem).mpr fun name hname =>
        hreach name (hname ▸ hmem)
      cases hs.symm.trans hd

/-- Else linking fails at the first reference of the second text that is out of reach. -/
theorem link_append_eq_outOfRange_iff (hys : Accepted ys) (hapart : Apart xs ys)
    (hp : (state xs).link = .ok p) (hq : (state ys).link = .ok q) {f : Fault} :
    (state (xs ++ ys)).link = .error f ↔
      ∃ before name after a, slots ys = before ++ .label name :: after ∧
        (∀ m, .label m ∈ before → q.Reaches (slots xs).length m) ∧
        q.address? name = some a ∧ 255 < a + (slots xs).length ∧
        f = .labelOutOfRange name (a + (slots xs).length) := by
  rw [link_append_eq_error_iff ys hp]
  constructor
  · rintro ⟨before, s, after, hsplit, hs, hbefore⟩
    have hmem : s ∈ slots ys := by simp [hsplit]
    obtain ⟨name, a, rfl, ha, hfar, rfl⟩ := (resolve_moved_eq_error_iff hys hapart hq hmem).mp hs
    refine ⟨before, name, after, a, hsplit, fun m hm => ?_, ha, hfar, rfl⟩
    have hmem' : Slot.label m ∈ slots ys := by simp [hsplit, hm]
    exact (exists_resolve_iff hys hapart hq hmem').mp (hbefore _ hm) m rfl
  · rintro ⟨before, name, after, a, hsplit, hbefore, ha, hfar, rfl⟩
    have hmem : Slot.label name ∈ slots ys := by simp [hsplit]
    refine ⟨before, .label name, after, hsplit, ?_, fun u hu => ?_⟩
    · exact (resolve_moved_eq_error_iff hys hapart hq hmem).mpr ⟨name, a, rfl, ha, hfar, rfl⟩
    · have hmem' : u ∈ slots ys := by simp [hsplit, hu]
      exact (exists_resolve_iff hys hapart hq hmem').mpr fun m hm => hbefore m (hm ▸ hu)

end Assembly

open Source

/-- **Concatenation relocates.** Of two texts that are assembled by themselves and share no label,
the second can be put behind the first if all labels that it refers to stay in reach. Else the first
of its references that does not is reported, with the address to which its label was moved. -/
theorem assemble_append_newline {t s : Text} {p q : Program} (hp : assemble t = .ok p)
    (hq : assemble s = .ok q)
    (hdisjoint : ∀ x ∈ p.labels, ∀ y ∈ q.labels, ¬ Text.SameName x.1 y.1) :
    ((∃ r, assemble (t ++ '\n' :: s) = .ok r) ↔
      ∀ name, .label name ∈ slots s.lines → q.Reaches p.code.length name) ∧
    (∀ r, assemble (t ++ '\n' :: s) = .ok r →
      Program.Follows t.lines.length (slots s.lines) p q r) ∧
    ∀ e, assemble (t ++ '\n' :: s) = .error e ↔
      ∃ before name after a, slots s.lines = before ++ .label name :: after ∧
        (∀ m, .label m ∈ before → q.Reaches p.code.length m) ∧
        q.address? name = some a ∧ 255 < a + p.code.length ∧
        e = .link (.labelOutOfRange name (a + p.code.length)) := by
  obtain ⟨hxs, hplink⟩ := assemble_eq_ok_iff.mp hp
  obtain ⟨hys, hqlink⟩ := assemble_eq_ok_iff.mp hq
  obtain ⟨hpcode, -⟩ := Assembly.link_eq_ok_iff.mp hplink
  have hlines : (t ++ '\n' :: s).lines = t.lines ++ s.lines := Text.lines_append_newline t s
  have hapart : Apart t.lines s.lines := by
    rw [Assembly.labels_of_link hxs hplink, Assembly.labels_of_link hys hqlink] at hdisjoint
    exact apart_iff.mpr hdisjoint
  have haccepted : Accepted (t ++ '\n' :: s).lines := by
    rw [hlines]
    exact accepted_append_iff.mpr ⟨hxs, hys, hapart⟩
  have hok : ∀ r, assemble (t ++ '\n' :: s) = .ok r ↔
      (state (t.lines ++ s.lines)).link = .ok r := by
    intro r
    rw [assemble_eq_ok_iff, and_iff_right haccepted, hlines]
  rw [← show (slots t.lines).length = p.code.length from hpcode.length_eq]
  refine ⟨?_, fun r hr => ?_, fun e => ?_⟩
  · simp only [hok]
    exact Assembly.exists_link_append_iff hys hapart hplink hqlink
  · rw [hlines] at haccepted
    exact Assembly.follows_of_link haccepted hplink hqlink ((hok r).mp hr)
  · constructor
    · intro he
      obtain ⟨f, rfl, hf⟩ := haccepted.exists_eq_link he
      rw [hlines, Assembly.link_append_eq_outOfRange_iff hys hapart hplink hqlink] at hf
      obtain ⟨before, name, after, a, hsplit, hbefore, ha, hfar, rfl⟩ := hf
      exact ⟨before, name, after, a, hsplit, hbefore, ha, hfar, rfl⟩
    · rintro ⟨before, name, after, a, hsplit, hbefore, ha, hfar, rfl⟩
      refine assemble_eq_link_iff.mpr ⟨haccepted, ?_⟩
      rw [hlines, Assembly.link_append_eq_outOfRange_iff hys hapart hplink hqlink]
      exact ⟨before, name, after, a, hsplit, hbefore, ha, hfar, rfl⟩

/-- Behind two bytes, the reference becomes four, and the two that is data stays. -/
theorem append_newline_jump :
    ∃ p q r, assemble "top: JMP top".toList = .ok p ∧
      assemble " HLT\n HLT\nend: JMP END\n DB 2".toList = .ok q ∧
      assemble "top: JMP top\n HLT\n HLT\nend: JMP END\n DB 2".toList = .ok r ∧
      q.code = [0, 0, 103, 2, 2] ∧ r.code = [103, 0, 0, 0, 103, 4, 2] ∧
      Program.Follows 1 (slots [" HLT".toList, " HLT".toList, "end: JMP END".toList, " DB 2".toList])
        p q r := by
  have hp : assemble "top: JMP top".toList
      = .ok ⟨[103, 0], ⟨[(0, 0)]⟩, [("top".toList, 0)], [⟨0, 2⟩]⟩ := by decide +kernel
  have hq : assemble " HLT\n HLT\nend: JMP END\n DB 2".toList
      = .ok ⟨[0, 0, 103, 2, 2], ⟨[(0, 0), (1, 1), (2, 2)]⟩, [("end".toList, 2)],
        [⟨0, 1⟩, ⟨1, 2⟩, ⟨2, 4⟩, ⟨4, 5⟩]⟩ := by decide +kernel
  have hr : assemble "top: JMP top\n HLT\n HLT\nend: JMP END\n DB 2".toList
      = .ok ⟨[103, 0, 0, 0, 103, 4, 2], ⟨[(0, 0), (2, 1), (3, 2), (4, 3)]⟩,
        [("top".toList, 0), ("end".toList, 4)], [⟨0, 2⟩, ⟨2, 3⟩, ⟨3, 4⟩, ⟨4, 6⟩, ⟨6, 7⟩]⟩ := by
    decide +kernel
  have happend := assemble_append_newline hp hq (by decide)
  exact ⟨_, _, _, hp, hq, hr, rfl, rfl, happend.2.1 _ hr⟩

end Octasm
