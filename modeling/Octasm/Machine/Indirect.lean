import Octasm.Machine.Register

/-!
# Register-indirect operand bytes

An operand such as `[SP-3]` is one byte: the upper five bits are the offset in two's complement,
the lower three the index of the base register.

```
  7          3 2        0
 +------------+----------+
 |   offset   |   base   |
 +------------+----------+
```

## Main results

* `unpack_pack`: a packed byte gives back its base and its offset
-/

namespace Octasm

namespace Indirect

/-- The byte for a base register and an offset, if the offset fits in five bits. -/
def pack (base : Register) (offset : Int) : Option UInt8 :=
  if -16 ≤ offset ∧ offset ≤ 15 then
    some (UInt8.ofNat ((offset % 32).toNat * 8) + base.index)
  else none

/-- The base index and the offset in a byte. The index need not be that of a register. -/
def unpack (packed : UInt8) : UInt8 × Int :=
  (packed % 8, Int.bmod (packed.toNat / 8) 32)

theorem pack_isSome_iff (base : Register) (offset : Int) :
    (pack base offset).isSome ↔ -16 ≤ offset ∧ offset ≤ 15 := by
  unfold pack; split <;> simp_all

/-- All thirty-two offsets with one base. -/
private theorem map_unpack_pack (base : Register) (k : Fin 32) :
    (pack base ((k.val : Int) - 16)).map unpack = some (base.index, (k.val : Int) - 16) := by
  revert k
  cases base <;> decide +kernel

theorem unpack_pack {base : Register} {offset : Int} {packed : UInt8}
    (h : pack base offset = some packed) : unpack packed = (base.index, offset) := by
  obtain ⟨low, high⟩ := (pack_isSome_iff base offset).mp (by rw [h]; rfl)
  have key := map_unpack_pack base ⟨(offset + 16).toNat, by omega⟩
  have back : ((offset + 16).toNat : Int) - 16 = offset := by omega
  rw [back, h] at key
  exact Option.some.inj key

end Indirect

end Octasm
