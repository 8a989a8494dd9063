import Hotpatch.X86.Register

/-!
# Effective Addresses

Memory operands of the form `[base + index * scale + displacement]`, every
part of which may be missing, and the ModR/M, SIB and displacement bytes that
name them.

The byte form is not uniform. `esp` in the `rm` field escapes to a SIB byte,
so a base of `esp` always takes one; `ebp` without a displacement means an
absolute address, so a base of `ebp` always takes a displacement; and `esp`
in the index field means that there is no index, so it cannot be one. That
last rule is the only reason for an effective address to be refused.

## Main definitions

* `Scale`: The factor of an index.
* `EffectiveAddress`: A memory operand.
* `Mode`: How an operand is addressed.
* `modRM`, `sib`: The bytes that hold three fields each.
* `EffectiveAddress.encode`: The bytes naming an operand beside a `reg` field.
* `EffectiveAddress.emit`: Those bytes appended to a buffer.
* `EffectiveAddress.text`: The operand as an assembler writes it.
-/

namespace Hotpatch

/-- The factor of an index register. -/
inductive Scale
  | one
  | two
  | four
  | eight
  deriving DecidableEq, Repr

namespace Scale

/-- The two-bit field of a SIB byte that stands for the factor. -/
def field : Scale → BitVec 2
  | one => 0#2
  | two => 1#2
  | four => 2#2
  | eight => 3#2

/-- The factor itself. -/
def factor : Scale → Nat
  | one => 1
  | two => 2
  | four => 4
  | eight => 8

end Scale

structure EffectiveAddress where
  base : Option (Register .dword)
  index : Option (Register .dword × Scale)
  displacement : Int32
  deriving DecidableEq

/-- How an operand is addressed: through registers with no displacement, with
    one of a byte, or with one of four; or as a register itself. -/
inductive Mode
  | plain
  | short
  | long
  | direct
  deriving DecidableEq, Repr

namespace Mode

/-- The two-bit field of a ModR/M byte that stands for the mode. -/
def field : Mode → BitVec 2
  | plain => 0#2
  | short => 1#2
  | long => 2#2
  | direct => 3#2

end Mode

/-- A byte of three fields, the highest first. -/
def packFields (high : BitVec 2) (middle low : BitVec 3) : UInt8 :=
  UInt8.ofNat (high.toNat * 64 + middle.toNat * 8 + low.toNat)

/-- A ModR/M byte: the addressing mode, a register or operation, and the
    operand proper. -/
def modRM (mode : Mode) (reg rm : BitVec 3) : UInt8 :=
  packFields mode.field reg rm

/-- A SIB byte: the scale of the index, the index and the base. -/
def sib (scale : BitVec 2) (index base : BitVec 3) : UInt8 :=
  packFields scale index base

namespace EffectiveAddress

/-- The operand at a fixed 32-bit address. -/
def absolute (address : UInt32) : EffectiveAddress :=
  ⟨none, none, address.toInt32⟩

def atBase (base : Register .dword) : EffectiveAddress :=
  ⟨some base, none, 0⟩

/-- The operand at a distance from where a register points to. -/
def atOffset (base : Register .dword) (displacement : Int32) : EffectiveAddress :=
  ⟨some base, none, displacement⟩

/-- The operand at a base register, a scaled index and a distance. -/
def indexed (base index : Register .dword) (scale : Scale) (displacement : Int32) :
    EffectiveAddress :=
  ⟨some base, some (index, scale), displacement⟩

/-- The operand at a scaled index and a distance. -/
def scaled (index : Register .dword) (scale : Scale) (displacement : Int32) :
    EffectiveAddress :=
  ⟨none, some (index, scale), displacement⟩

/-- The sign and digits of a displacement that follows a register; nothing for
    zero. -/
def displacementText (displacement : Int32) : String :=
  if displacement < 0 then "-" ++ hexadecimal displacement.toInt.natAbs
  else if 0 < displacement then "+" ++ hexadecimal displacement.toInt.natAbs
  else ""

/-- The operand as an assembler writes it. Without registers the displacement
    is an address and is written unsigned. -/
def text (a : EffectiveAddress) : String :=
  "[" ++ (match a.base, a.index with
    | none, none => hexadecimal a.displacement.toUInt32.toNat
    | some base, none => base.name ++ displacementText a.displacement
    | none, some (index, scale) =>
      index.name ++ "*" ++ toString scale.factor ++ displacementText a.displacement
    | some base, some (index, scale) =>
      base.name ++ "+" ++ index.name ++ "*" ++ toString scale.factor
        ++ displacementText a.displacement) ++ "]"

/-- The addressing mode for a displacement beside a base register. A base of
    `ebp` has no form without one. -/
def mode (base : Register .dword) (displacement : Int32) : Mode :=
  if displacement = 0 ∧ base ≠ .ebp then .plain
  else if -128 ≤ displacement ∧ displacement ≤ 127 then .short
  else .long

/-- The displacement bytes that an addressing mode calls for. -/
def displacementBytes (displacement : Int32) : Mode → List UInt8
  | .plain | .direct => []
  | .short => littleEndian 1 displacement.toInt
  | .long => littleEndian 4 displacement.toInt

/-- The bytes that name the operand, beside a `reg` field that the instruction
    chooses. Refused exactly when the index is `esp`. -/
def encode (a : EffectiveAddress) (reg : BitVec 3) : Except Fault (List UInt8) :=
  match a.base, a.index with
  | _, some (.esp, _) =>
    .error (.badOperand a.text "esp cannot be used as an index")
  | none, none =>
    .ok (modRM .plain reg 5#3 :: littleEndian 4 a.displacement.toInt)
  | none, some (index, scale) =>
    .ok (modRM .plain reg 4#3 :: sib scale.field index.number 5#3
      :: littleEndian 4 a.displacement.toInt)
  | some .esp, none =>
    let m := mode .esp a.displacement
    .ok (modRM m reg 4#3 :: sib 0#2 4#3 4#3 :: displacementBytes a.displacement m)
  | some base, none =>
    let m := mode base a.displacement
    .ok (modRM m reg base.number :: displacementBytes a.displacement m)
  | some base, some (index, scale) =>
    let m := mode base a.displacement
    .ok (modRM m reg 4#3 :: sib scale.field index.number base.number
      :: displacementBytes a.displacement m)

/-- The operand's bytes appended to a buffer, beside the low three bits of a
    `reg` field. A refused operand appends nothing. -/
def emit (a : EffectiveAddress) (buffer : List UInt8) (regField : UInt8) :
    List UInt8 × Option Fault :=
  match a.encode (BitVec.ofNat 3 regField.toNat) with
  | .ok bytes => (buffer ++ bytes, none)
  | .error fault => (buffer, some fault)

end EffectiveAddress

end Hotpatch
