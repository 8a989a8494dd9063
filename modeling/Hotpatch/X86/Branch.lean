import Hotpatch.Address
import Hotpatch.Architecture

/-!
# Relative Branches

`call` and `jmp` with a 32-bit displacement, counted from the address after
the instruction.

On a 64-bit host the displacement reaches two gigabytes either way. The code
is meant for 32-bit processes, though, where addresses wrap at `2 ^ 32`, so
two addresses that both fit in 32 bits always reach each other.

## Main definitions

* `Branch`: A call or a jump.
* `Branch.size`: The length of a relative branch.
* `displacement32`: The displacement from one address to another, if there is one.
* `addressWord`: The four bytes that hold an address in code.
-/

namespace Hotpatch

/-- Whether a branch remembers where it came from. -/
inductive Branch
  | call
  | jump
  deriving DecidableEq, Repr

namespace Branch

/-- The opcode of the relative form. -/
def opcode : Branch → UInt8
  | call => 0xE8
  | jump => 0xE9

def field : Branch → BitVec 3
  | call => 2#3
  | jump => 4#3

def name : Branch → String
  | call => "Call"
  | jump => "Jump"

/-- The length of a relative branch: an opcode and a displacement. -/
def size : Nat := 5

end Branch

/-- The displacement from `next`, the address after a branch, to `target`. A
    distance of two gigabytes or more is bridged only inside the 32-bit address
    space, where it wraps. -/
def displacement32 (next target : Address) : Option Int32 :=
  let distance := (target - next).toInt64.toInt
  if -0x80000000 ≤ distance ∧ distance < 0x80000000 then some (Int32.ofInt distance)
  else if next.toNat < codeSpace ∧ target.toNat < codeSpace then
    some (target.toUInt32 - next.toUInt32).toInt32
  else none

/-- The four bytes that hold an address in code, unless it needs more. -/
def addressWord (address : Address) : Option (List UInt8) :=
  if address.toNat < codeSpace then some (littleEndian wordSize address.toNat) else none

end Hotpatch
