import Hotpatch.X86.EffectiveAddress

/-!
# Operands of Instructions

What stands in the `r/m` place of an instruction: a register, an effective
address, or an operand that a user supplies.

The encoder never looks into a memory operand. It hands the operand the `reg`
field of the instruction and takes the bytes that come back. That is what lets
a user supply operands of their own, and why the bytes of one that fails are
thrown away as a whole.

## Main definitions

* `Emission`: What a user's operand appended, and whether it then failed.
* `Operand`: A memory operand.
* `Place`: A register or a memory operand.
* `Operand.encode`, `Place.encode`: The bytes naming one.

## Theorems

* `Place.encode_register`: A register that has a code is never refused.
-/

namespace Hotpatch

/-- What a user's operand appended, and the fault it ended with, if any. -/
structure Emission where
  bytes : List UInt8
  fault : Option Fault

inductive Operand
  | address (a : EffectiveAddress)
  /-- An operand of the user's own, which is given the `reg` field. -/
  | custom (emit : UInt8 → Emission)

namespace Operand

/-- The bytes that name the operand beside a `reg` field. -/
def encode (reg : BitVec 3) : Operand → Except Fault (List UInt8)
  | address a => a.encode reg
  | custom emit =>
    let emission := emit (UInt8.ofNat reg.toNat)
    match emission.fault with
    | none => .ok emission.bytes
    | some fault => .error fault

end Operand

/-- What an instruction reads or writes through its `r/m` field. -/
inductive Place (w : Width)
  | register (r : Register w)
  | memory (m : Operand)

namespace Place

/-- The bytes that name the place beside a `reg` field. -/
def encode {w : Width} (reg : BitVec 3) : Place w → Except Fault (List UInt8)
  | register r => do return [modRM .direct reg (← r.code)]
  | memory m => m.encode reg

/-- A register that has a code is never refused. -/
theorem encode_register {w : Width} {r : Register w} {code : BitVec 3}
    (h : r.code = .ok code) (reg : BitVec 3) :
    (Place.register r).encode reg = .ok [modRM .direct reg code] := by
  simp only [encode, h]
  rfl

end Place

end Hotpatch
