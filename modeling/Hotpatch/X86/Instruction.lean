import Hotpatch.X86.Branch
import Hotpatch.X86.Nop
import Hotpatch.X86.Operand

/-!
# Instructions

The instructions that can be encoded, with the tables that give each group its
opcodes and fields. A group of instructions differs only in a field of its
ModR/M byte, or in a few bits of its opcode, so a group is one constructor with
the member as an argument.

## Main definitions

* `Unary`: Instructions with a single operand that is read and written.
* `Alu`: The eight operations with two operands.
* `Plain`: Instructions of one byte, with no operand.
* `Instruction`: One step of the encoder.
-/

namespace Hotpatch

inductive Unary
  | not
  | neg
  | mul
  | imul
  | div
  | idiv
  | inc
  | dec
  deriving DecidableEq, Repr

namespace Unary

def opcode : Unary → UInt8
  | inc | dec => 0xFE
  | _ => 0xF6

/-- The `reg` field that selects the operation. -/
def field : Unary → BitVec 3
  | not => 2#3
  | neg => 3#3
  | mul => 4#3
  | imul => 5#3
  | div => 6#3
  | idiv => 7#3
  | inc => 0#3
  | dec => 1#3

end Unary

/-- An arithmetic or logic operation on two operands. -/
inductive Alu
  | add
  | or
  | adc
  | sbb
  | and
  | sub
  | xor
  | cmp
  deriving DecidableEq, Repr

namespace Alu

/-- The `reg` field that selects the operation beside an immediate. -/
def field : Alu → BitVec 3
  | add => 0#3
  | or => 1#3
  | adc => 2#3
  | sbb => 3#3
  | and => 4#3
  | sub => 5#3
  | xor => 6#3
  | cmp => 7#3

/-- The opcode of the byte form that writes to the `r/m` operand. -/
def opcode (op : Alu) : UInt8 :=
  UInt8.ofNat (op.field.toNat * 8)

end Alu

/-- An instruction of one byte. The last four are bytes put in front of the
    instruction that they change, and count as instructions here. -/
inductive Plain
  | pushad
  | popad
  | pushfd
  | popfd
  | ret
  | nop
  | int3
  | lock
  | rep
  | fs
  | gs
  deriving DecidableEq, Repr

namespace Plain

def byte : Plain → UInt8
  | pushad => 0x60
  | popad => 0x61
  | pushfd => 0x9C
  | popfd => 0x9D
  | ret => 0xC3
  | nop => 0x90
  | int3 => 0xCC
  | lock => 0xF0
  | rep => 0xF3
  | fs => 0x64
  | gs => 0x65

end Plain

/-- One step of the encoder. An instruction whose operands have a width is
    indexed by it through its operands. -/
inductive Instruction
  /-- An operation on one operand. -/
  | unary {w : Width} (op : Unary) (target : Place w)
  /-- An operation on a place and a register, with the result in the place. -/
  | alu {w : Width} (op : Alu) (target : Place w) (source : Register w)
  /-- An operation on a register and memory, with the result in the register. -/
  | aluLoad {w : Width} (op : Alu) (target : Register w) (source : Operand)
  | aluImmediate {w : Width} (op : Alu) (target : Place w) (value : Int)
  /-- The flags of the conjunction of two registers. -/
  | test {w : Width} (left right : Register w)
  /-- The flags of the conjunction of a register and an immediate. -/
  | testImmediate {w : Width} (left : Register w) (value : Int)
  | mov {w : Width} (target : Place w) (source : Register w)
  | load {w : Width} (target : Register w) (source : Operand)
  | movImmediate {w : Width} (target : Place w) (value : Int)
  /-- The address of a memory operand loaded to a register. -/
  | lea (target : Register .dword) (source : Operand)
  | pushDword (source : Register .dword)
  | pushWord (source : Register .word)
  /-- A dword of memory pushed. -/
  | pushMemory (source : Operand)
  /-- A dword immediate pushed. -/
  | pushConstant32 (value : UInt32)
  /-- A byte immediate pushed, extended by its sign. -/
  | pushConstant8 (value : Int8)
  | popDword (target : Register .dword)
  | popWord (target : Register .word)
  /-- A dword of memory popped. -/
  | popMemory (target : Operand)
  | branch (kind : Branch) (target : Address)
  /-- A branch to the address that a place holds. -/
  | branchIndirect (kind : Branch) (target : Place .dword)
  /-- A return that drops bytes of the stack. -/
  | retDrop (drop : UInt16)
  | plain (op : Plain)
  | nopSled (count : Nat)
  | data (bytes : List UInt8)

end Hotpatch
