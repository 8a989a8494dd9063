import Hotpatch.X86.Instruction

/-!
# Encoding

From an instruction to its bytes. Every operand is checked before a byte is
produced, so encoding either gives the whole instruction or a fault and
nothing. The bytes depend on the instruction alone, except for relative
branches, which depend on where they stand.

In a sizing pass the final position is not known. A branch that would not
reach its target from the place it happens to stand at gets a displacement of
zero there, so that it has its length.

## Main definitions

* `Width.opcode`: An opcode in the form for a width.
* `Width.requireFits`: The test that an immediate fits a width.
* `Branch.encode`: The bytes of a relative branch.
* `Instruction.encode`: The bytes of an instruction.

## Theorems

* `Branch.encode_sizing`: A branch of a sizing pass always encodes.
-/

namespace Hotpatch

/-- The byte that selects 16-bit operands. -/
def operandSizeByte : UInt8 := 0x66

namespace Width

/-- An opcode in the form for a width. The byte form has the lowest bit clear,
    the wider forms set it, and the word form also selects 16-bit operands. -/
def opcode (byteForm : UInt8) : Width → List UInt8
  | byte => [byteForm]
  | word => [operandSizeByte, byteForm ||| 1]
  | dword => [byteForm ||| 1]

/-- The opcode in the form for a width whose opcode has no bit for it. -/
def selector : Width → List UInt8
  | word => [operandSizeByte]
  | _ => []

/-- An immediate in the bytes of a width. -/
def immediate (w : Width) (value : Int) : List UInt8 :=
  littleEndian w.bytes value

/-- Whether an immediate is a number of the width, signed or unsigned. -/
def Fits (w : Width) (value : Int) : Prop :=
  -(w.modulus / 2) ≤ value ∧ value < w.modulus

instance (w : Width) (value : Int) : Decidable (w.Fits value) :=
  inferInstanceAs (Decidable (_ ∧ _))

/-- Refuses an immediate that is not a number of the width. -/
def requireFits (w : Width) (value : Int) : Except Fault Unit :=
  if w.Fits value then .ok () else .error (.immediateTooWide value w.bits)

end Width

namespace Branch

/-- The bytes of a relative branch that stands at `position`. -/
def encode (kind : Branch) (target position : Address) (sizing : Bool) :
    Except Fault (List UInt8) :=
  match displacement32 (position + UInt64.ofNat size) target with
  | some displacement => .ok (kind.opcode :: littleEndian 4 displacement.toInt)
  | none =>
    if sizing then .ok (kind.opcode :: littleEndian 4 0)
    else .error (.targetOutOfReach position target)

/-- A branch of a sizing pass always encodes, and takes its five bytes. -/
theorem encode_sizing (kind : Branch) (target position : Address) :
    ∃ bytes, kind.encode target position true = .ok bytes ∧ bytes.length = size := by
  unfold encode
  split
  · exact ⟨_, rfl, rfl⟩
  · exact ⟨_, rfl, rfl⟩

end Branch

namespace Alu

/-- An operation beside an immediate. One that is a signed byte has a short form
    for the wider operands. -/
def encodeImmediate (w : Width) (operand : List UInt8) (value : Int) : List UInt8 :=
  if w = .byte then 0x80 :: operand ++ w.immediate value
  else if -128 ≤ value ∧ value ≤ 127 then
    w.selector ++ 0x83 :: operand ++ Width.byte.immediate value
  else w.selector ++ 0x81 :: operand ++ w.immediate value

end Alu

namespace Instruction

/-- The bytes of an instruction that stands at `position`. Where two operands
    are wrong, the fault is that of the one checked first: registers go before
    immediates, except in `test`, and both before memory. -/
def encode (position : Address) (sizing : Bool) :
    Instruction → Except Fault (List UInt8)
  | @unary w op target => do
    return w.opcode op.opcode ++ (← target.encode op.field)
  | @alu w op target source => do
    let reg ← source.code
    return w.opcode op.opcode ++ (← target.encode reg)
  | @aluLoad w op target source => do
    let reg ← target.code
    return w.opcode (op.opcode ||| 2) ++ (← source.encode reg)
  | @aluImmediate w op (.register r) value => do
    let operand ← (Place.register r).encode op.field
    w.requireFits value
    return Alu.encodeImmediate w operand value
  -- For memory the immediate is checked before the operand.
  | @aluImmediate w op (.memory m) value => do
    w.requireFits value
    let operand ← m.encode op.field
    return Alu.encodeImmediate w operand value
  | @test w left right => do
    let reg ← right.code
    return w.opcode 0x84 ++ (← (Place.register left).encode reg)
  | @testImmediate w left value => do
    w.requireFits value
    return w.opcode 0xF6 ++ (← (Place.register left).encode 0#3) ++ w.immediate value
  | @mov w target source => do
    let reg ← source.code
    return w.opcode 0x88 ++ (← target.encode reg)
  | @load w target source => do
    let reg ← target.code
    return w.opcode 0x8A ++ (← source.encode reg)
  -- A register is part of the opcode here, so there is no ModR/M byte.
  | @movImmediate w (.register r) value => do
    let code ← r.code
    w.requireFits value
    let base : UInt8 := if w = .byte then 0xB0 else 0xB8
    return w.selector ++ (base + UInt8.ofNat code.toNat) :: w.immediate value
  | @movImmediate w (.memory m) value => do
    w.requireFits value
    return w.opcode 0xC6 ++ (← m.encode 0#3) ++ w.immediate value
  | lea target source => do
    return 0x8D :: (← source.encode target.number)
  | pushDword source => return [0x50 + UInt8.ofNat source.number.toNat]
  | pushWord source => do
    return [operandSizeByte, 0x50 + UInt8.ofNat (← source.code).toNat]
  | pushMemory source => do
    return 0xFF :: (← source.encode 6#3)
  | pushConstant32 value => return 0x68 :: littleEndian 4 value.toNat
  | pushConstant8 value => return 0x6A :: littleEndian 1 value.toInt
  -- The general form is used for `pop`, though there is a shorter one.
  | popDword target => return [0x8F, modRM .direct 0#3 target.number]
  | popWord target => do
    return [operandSizeByte, 0x8F, modRM .direct 0#3 (← target.code)]
  | popMemory target => do
    return 0x8F :: (← target.encode 0#3)
  | branch kind target => kind.encode target position sizing
  | branchIndirect kind target => do
    return 0xFF :: (← target.encode kind.field)
  | retDrop drop => return 0xC2 :: littleEndian 2 drop.toNat
  | plain op => return [op.byte]
  | nopSled count => return Hotpatch.nopSled count
  | data bytes => return bytes

end Instruction

end Hotpatch
