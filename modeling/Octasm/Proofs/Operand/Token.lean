import Octasm.Proofs.Operand.Reading

/-!
# What an operand token says

The classifier tries one reading of a token after another and takes the first that succeeds. `Says`
lists the tokens of each kind of operand instead, without an order, and with numbers, offsets and
characters by their exact values: a register's name, a label, a number that is a byte, the same
between brackets, and characters between quotes. The two agree on every token
(`Operand.ofText_eq_ok_iff`), so what is to be shown of all operands that are read can be shown rule
by rule.

## Main definitions

* `Operand.Says`: the tokens of an operand

## Main results

* `Operand.numberByte_eq_ok_iff`, `Operand.characters_eq_ok_iff`: values that are bytes
* `Operand.ofText_eq_ok_iff`: a token is read as an operand if and only if it says so
-/

namespace Octasm

namespace Operand

variable {b : UInt8} {bytes : List UInt8} {n : Nat} {op : Operand}
  {sign v : Int} {t token : Text} {what : Quantity}

/-! ### Bytes -/

theorem byte_eq_ok_iff : byte what v = .ok b ↔ v = b.toNat := by
  rw [byte]
  have hb := b.toNat_lt
  split
  · rename_i hv
    have hsize : v.toNat < UInt8.size := by
      simp only [UInt8.size]
      omega
    rw [Except.ok.injEq, ← UInt8.toNat_inj, UInt8.toNat_ofNat_of_lt' hsize]
    omega
  · simp only [reduceCtorEq, false_iff]
    omega

theorem byte_of_outOfRange (h : ¬ (0 ≤ v ∧ v ≤ 255)) : byte what v = .error (.notAByte what) :=
  if_neg h

/-- A literal is a byte if its exact value is one: the limit is far from the range of bytes. -/
theorem numberByte_eq_ok_iff : numberByte what t = .ok b ↔
    ∃ sign n, Number.Denotes t sign n ∧ sign * (n : Int) = b.toNat := by
  have hb := b.toNat_lt
  have hlimit : -(Number.limit : Int) < b.toNat ∧ (b.toNat : Int) < Number.limit := by
    simp only [Number.limit]
    omega
  rw [numberByte, Fallible.bind_eq_ok_iff]
  simp only [Number.ofText_eq_ok_iff, byte_eq_ok_iff]
  constructor
  · rintro ⟨v, ⟨sign, n, h, rfl⟩, hv⟩
    exact ⟨sign, n, h, (Number.mul_min_limit_eq_iff h.eq_or_eq hlimit).mp hv⟩
  · rintro ⟨sign, n, h, hv⟩
    exact ⟨_, ⟨sign, n, h, rfl⟩, (Number.mul_min_limit_eq_iff h.eq_or_eq hlimit).mpr hv⟩

theorem numberByte_of_outOfRange (h : Number.Denotes t sign n)
    (hrange : ¬ (0 ≤ sign * (n : Int) ∧ sign * (n : Int) ≤ 255)) :
    numberByte what t = .error (.notAByte what) := by
  have hbounded := mt (Number.mul_min_limit_mem_iff h.eq_or_eq (by decide) (by decide)).mp hrange
  rw [numberByte, Number.ofText_eq_ok_iff.mpr ⟨sign, n, h, rfl⟩]
  exact byte_of_outOfRange hbounded

theorem characters_eq_ok_iff :
    characters t = .ok bytes ↔ List.Forall₂ (fun c b => c.toNat = b.toNat) t bytes := by
  rw [characters, Fallible.mapM_eq_ok_iff]
  simp only [character, byte_eq_ok_iff, Nat.cast_inj]

/-! ### Literals -/

/-- A literal starts with no delimiter. -/
theorem ofText_of_denotes (h : Number.Denotes t sign n) : ofText t = plain t := by
  obtain ⟨c, u, rfl, hc⟩ := h.exists_cons
  refine ofText_eq_plain ⟨?_, ?_, ?_⟩ <;> (rintro rfl; revert hc; decide)

/-! ### Tokens -/

/-- What a token says. Registers are named in either case; a label is one that can be declared;
numbers, offsets and characters have exact values. -/
inductive Says : Text → Operand → Prop
  | register {t : Text} {r : Register} (h : t.SameName r.name) : Says t (.register r)
  | label {t : Text} (h : t.Declarable) : Says t (.number (.label t))
  | number {t : Text} {sign : Int} {n : Nat} {b : UInt8} (h : Number.Denotes t sign n)
      (hb : sign * (n : Int) = b.toNat) : Says t (.number (.byte b))
  | character {c : Char} {b : UInt8} (hb : c.toNat = b.toNat) :
      Says ['\'', c, '\''] (.number (.byte b))
  | string {t : Text} {bytes : List UInt8}
      (h : List.Forall₂ (fun (c : Char) (b : UInt8) => c.toNat = b.toNat) t bytes) :
      Says ('"' :: t ++ ['"']) (.string bytes)
  | base {t : Text} {r : Register} (h : t.SameName r.name) :
      Says ('[' :: t ++ [']']) (.indirect r.index)
  | offset {t : Text} {r : Register} {sign : Int} {n : Nat} {b : UInt8}
      (h : Offset.Denotes t r sign n) (hb : Indirect.unpack b = (r.index, sign * (n : Int))) :
      Says ('[' :: t ++ [']']) (.indirect b)
  | location {t : Text} (h : t.Declarable) : Says ('[' :: t ++ [']']) (.address (.label t))
  | address {t : Text} {sign : Int} {n : Nat} {b : UInt8} (h : Number.Denotes t sign n)
      (hb : sign * (n : Int) = b.toNat) : Says ('[' :: t ++ [']']) (.address (.byte b))

theorem says_of_inBrackets (h : inBrackets t = .ok op) : Says ('[' :: t ++ [']']) op := by
  obtain ⟨x, hx, hregister⟩ := inBrackets_eq_ok_iff.mp h
  cases x with
  | register =>
    obtain ⟨r, hr, rfl⟩ := Option.map_eq_some_iff.mp hx
    exact .base (Register.sameName_name_iff.mpr hr)
  | label =>
    have hname : t.isName = true := Reading.fits_of_of? hx
    rw [Reading.of?, if_pos hname] at hx
    cases hx
    exact .location ⟨hname, Option.map_eq_none_iff.mp (hregister rfl)⟩
  | offset =>
    obtain ⟨b, hb, rfl⟩ := Reading.of?_offset_eq_some_iff.mp hx
    obtain @⟨_, _, _, _, hn, -, hbyte⟩ := Offset.ofText_eq_iff.mp hb
    exact .offset hn hbyte
  | number =>
    obtain ⟨b, hb, rfl⟩ := Reading.of?_number_eq_some_iff.mp hx
    obtain ⟨sign, n, hn, hvalue⟩ := numberByte_eq_ok_iff.mp hb
    exact .address hn hvalue

theorem says_of_inQuotes (h : inQuotes token t = .ok op) : Says ('\'' :: t ++ ['\'']) op := by
  rw [inQuotes.eq_def] at h
  split at h
  · cases h
  · obtain ⟨b, hb, h⟩ := Fallible.bind_eq_ok_iff.mp h
    cases h
    exact .character (Int.ofNat.inj (byte_eq_ok_iff.mp hb))
  · cases h

theorem says_of_plain (h : plain t = .ok op) : Says t op := by
  rw [plain] at h
  split at h
  · rename_i r hr
    cases h
    exact .register (Register.sameName_name_iff.mpr hr)
  · rename_i hr
    split at h
    · rename_i hname
      cases h
      exact .label ⟨hname, hr⟩
    · obtain ⟨b, hb, h⟩ := Fallible.bind_eq_ok_iff.mp h
      cases h
      obtain ⟨sign, n, hn, hvalue⟩ := numberByte_eq_ok_iff.mp hb
      exact .number hn hvalue

theorem says_of_ofText (h : ofText token = .ok op) : Says token op := by
  rw [ofText] at h
  split at h
  · rename_i t ht
    rw [between?_eq_some_iff.mp ht]
    exact says_of_inBrackets h
  · split at h
    · rename_i t ht
      obtain ⟨bytes, hbytes, h⟩ := Fallible.bind_eq_ok_iff.mp h
      cases h
      rw [between?_eq_some_iff.mp ht]
      exact .string (characters_eq_ok_iff.mp hbytes)
    · split at h
      · rename_i t ht
        rw [between?_eq_some_iff.mp ht]
        exact says_of_inQuotes h
      · exact says_of_plain h

theorem plain_of_declarable (h : t.Declarable) : plain t = .ok (.number (.label t)) := by
  rw [plain, h.unreserved, if_pos h.isName]

/-- A number is no name. -/
theorem plain_of_denotes (h : Number.Denotes t sign n) :
    plain t = numberByte .number t >>= fun b => .ok (.number (.byte b)) := by
  have hname : ¬ t.isName = true := fun hname => Number.not_denotes_of_isName hname h
  rw [plain, Register.ofText?_eq_none_of_not_isName hname, if_neg hname]

theorem Says.ofText_eq (h : Says token op) : ofText token = .ok op := by
  cases h with
  | register h =>
    have hr := Register.sameName_name_iff.mp h
    rw [ofText_of_isName (Register.isName_of_ofText? hr), plain, hr]
  | label h => rw [ofText_of_isName h.isName, plain_of_declarable h]
  | number h hb =>
    rw [ofText_of_denotes h, plain_of_denotes h, numberByte_eq_ok_iff.mpr ⟨_, _, h, hb⟩]
    rfl
  | @character c b hb =>
    have hquotes : between? '\'' '\'' ['\'', c, '\''] = some [c] := between?_eq_some_iff.mpr rfl
    have hbyte : Operand.character c = .ok b := byte_eq_ok_iff.mpr (congrArg Nat.cast hb)
    rw [ofText, between?_eq_none (by decide), between?_eq_none (by decide), hquotes]
    simp only [inQuotes, hbyte]
    rfl
  | @string t bytes h =>
    have hquotes : between? '"' '"' ('"' :: t ++ ['"']) = some t := between?_eq_some_iff.mpr rfl
    rw [ofText, hquotes, List.cons_append, between?_eq_none (by decide)]
    simp only [characters_eq_ok_iff.mpr h]
    rfl
  | base h =>
    rw [ofText_bracketed]
    refine inBrackets_eq_ok_iff.mpr ⟨.register, ?_, fun h => by cases h⟩
    exact Option.map_eq_some_iff.mpr ⟨_, Register.sameName_name_iff.mp h, rfl⟩
  | @offset t r sign n b h hb =>
    have hrange := Indirect.unpack_bounds b
    rw [hb] at hrange
    rw [ofText_bracketed]
    refine inBrackets_eq_ok_iff.mpr ⟨.offset, ?_, fun h => by cases h⟩
    exact Reading.of?_offset_eq_some_iff.mpr ⟨b, Offset.ofText_eq_iff.mpr (.fits h hrange hb), rfl⟩
  | location h =>
    rw [ofText_bracketed]
    refine inBrackets_eq_ok_iff.mpr ⟨.label, if_pos h.isName, fun _ => ?_⟩
    exact Option.map_eq_none_iff.mpr h.unreserved
  | address h hb =>
    rw [ofText_bracketed, inBrackets_of_denotes h, numberByte_eq_ok_iff.mpr ⟨_, _, h, hb⟩]
    rfl

/-- **Operand tokens.** A token is read as an operand if and only if it says so. -/
theorem ofText_eq_ok_iff : ofText token = .ok op ↔ Says token op :=
  ⟨says_of_ofText, Says.ofText_eq⟩

end Operand

end Octasm
