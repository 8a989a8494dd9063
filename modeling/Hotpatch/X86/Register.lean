import Hotpatch.Fault

/-!
# Registers

The general-purpose registers of 32-bit x86, one family indexed by operand
width. The width of an instruction is the width of its register operands, so
two operands of different widths cannot be written down together.

The byte and word families also hold a value for "no register". It can be
passed around like any other and is refused when it is encoded. The dword
family has none, so a dword register always has a number.

## Main definitions

* `Width`: The width of an operand.
* `Register`: The registers of one width.
* `Register.code`: The three-bit number of a register, or why it has none.
* `Register.number`: The three-bit number of a dword register.
* `Register.all`: The dword registers in the order of their numbers.

## Theorems

* `Register.code_dword`: A dword register always has a code.
* `Register.code_error_unique`: One fault for each width.
-/

namespace Hotpatch

/-- The width of an operand. -/
inductive Width
  | byte
  | word
  | dword
  deriving DecidableEq, Repr

namespace Width

def bytes : Width → Nat
  | byte => 1
  | word => 2
  | dword => 4

def bits (w : Width) : Nat :=
  8 * w.bytes

/-- How many numbers an operand of this width tells apart. -/
def modulus : Width → Int
  | byte => 0x100
  | word => 0x10000
  | dword => 0x100000000

end Width

/-- The registers of one width. `none8` and `none16` stand for no register. -/
inductive Register : Width → Type
  | al : Register .byte
  | cl : Register .byte
  | dl : Register .byte
  | bl : Register .byte
  | ah : Register .byte
  | ch : Register .byte
  | dh : Register .byte
  | bh : Register .byte
  | none8 : Register .byte
  | ax : Register .word
  | cx : Register .word
  | dx : Register .word
  | bx : Register .word
  | sp : Register .word
  | bp : Register .word
  | si : Register .word
  | di : Register .word
  | none16 : Register .word
  | eax : Register .dword
  | ecx : Register .dword
  | edx : Register .dword
  | ebx : Register .dword
  | esp : Register .dword
  | ebp : Register .dword
  | esi : Register .dword
  | edi : Register .dword
  deriving DecidableEq, Repr

namespace Register

/-- The three-bit number by which an instruction names a dword register. -/
def number : Register .dword → BitVec 3
  | eax => 0#3
  | ecx => 1#3
  | edx => 2#3
  | ebx => 3#3
  | esp => 4#3
  | ebp => 5#3
  | esi => 6#3
  | edi => 7#3

/-- The three-bit number by which an instruction names a register, or the
    fault for an operand that stands for no register. -/
def code : {w : Width} → Register w → Except Fault (BitVec 3)
  | _, al => .ok 0#3
  | _, cl => .ok 1#3
  | _, dl => .ok 2#3
  | _, bl => .ok 3#3
  | _, ah => .ok 4#3
  | _, ch => .ok 5#3
  | _, dh => .ok 6#3
  | _, bh => .ok 7#3
  | _, none8 => .error (.noRegister "Register8::None")
  | _, ax => .ok 0#3
  | _, cx => .ok 1#3
  | _, dx => .ok 2#3
  | _, bx => .ok 3#3
  | _, sp => .ok 4#3
  | _, bp => .ok 5#3
  | _, si => .ok 6#3
  | _, di => .ok 7#3
  | _, none16 => .error (.noRegister "Register16::None")
  | _, eax => .ok 0#3
  | _, ecx => .ok 1#3
  | _, edx => .ok 2#3
  | _, ebx => .ok 3#3
  | _, esp => .ok 4#3
  | _, ebp => .ok 5#3
  | _, esi => .ok 6#3
  | _, edi => .ok 7#3

/-- A dword register always has a code, because its family holds no value for
    the absent register. -/
@[simp]
theorem code_dword (r : Register .dword) : r.code = .ok r.number := by
  cases r <;> rfl

/-- There is one value for no register in each width, and so one fault. -/
theorem code_error_unique {w : Width} {r r' : Register w} {fault fault' : Fault}
    (h : r.code = .error fault) (h' : r'.code = .error fault') : fault = fault' := by
  cases r <;> cases h <;> cases r' <;> cases h' <;> rfl

/-- The assembler's name of a dword register. -/
def name : Register .dword → String
  | eax => "eax"
  | ecx => "ecx"
  | edx => "edx"
  | ebx => "ebx"
  | esp => "esp"
  | ebp => "ebp"
  | esi => "esi"
  | edi => "edi"

/-- The dword registers in the order of their numbers. -/
def all : List (Register .dword) :=
  [eax, ecx, edx, ebx, esp, ebp, esi, edi]

end Register

end Hotpatch
