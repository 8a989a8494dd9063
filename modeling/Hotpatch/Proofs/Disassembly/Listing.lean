import Hotpatch.X86.Encoding

/-!
# Listings

Machine code as a reader of it sees it: one line for each instruction, with a
mnemonic and arguments in the order in which an assembler writes them. A line
knows nothing of opcodes and fields, so it is where the two directions, writing
code and reading it, can be compared.

An immediate is listed as the number the processor works with. It is reduced to
the width of the operation, and extended by its sign where the encoding kept
only its low byte. A relative branch is listed with its displacement, and where
that leads follows from where the line stands.

## Main definitions

* `Mnemonic`, `Argument`: What a line does, and with what.
* `Line`: One instruction of a listing.
* `Reaches`: Whether a displacement leads to a target.
* `Instruction.reading`: The line an instruction has to be read as.
* `Instruction.InRepertoire`: The instructions a listing has lines for.
* `Instruction.Shows`: Whether a line is that of an instruction.
-/

namespace Hotpatch

/-- What a line of a listing does. -/
inductive Mnemonic
  | unary (op : Unary)
  | alu (op : Alu)
  | plain (op : Plain)
  | branch (kind : Branch)
  | test
  | mov
  | lea
  | push
  | pop

/-- What an instruction works with. -/
inductive Argument
  | register {w : Width} (r : Register w)
  /-- The bytes of memory that an address names, as many as the width says. -/
  | memory (w : Width) (a : EffectiveAddress)
  /-- An address itself, with no access to the memory there. -/
  | reference (a : EffectiveAddress)
  | immediate (w : Width) (value : Nat)
  /-- A distance from the end of the line. -/
  | relative (displacement : Int32)

/-- One instruction of a listing, with the address it stands at and its
    length. -/
structure Line where
  position : Address
  length : Nat
  mnemonic : Mnemonic
  arguments : List Argument

namespace Line

/-- The address after the line, from which distances are counted. -/
def next (l : Line) : Address :=
  l.position + UInt64.ofNat l.length

end Line

/-- The address that a displacement leads to, before a processor of 32 bits cuts
    it to a word. -/
def destination (next : Address) (displacement : Int32) : Address :=
  next + UInt64.ofInt displacement.toInt

/-- A displacement leads to a target: in the 32 bits of the generated code
    always, and in all bits of the address unless branch and target both lie in
    the first four gigabytes, where code may wrap. -/
def Reaches (next : Address) (displacement : Int32) (target : Address) : Prop :=
  (destination next displacement).toUInt32 = target.toUInt32 ∧
    (codeSpace ≤ next.toNat ∨ codeSpace ≤ target.toNat →
      destination next displacement = target)

/-- An immediate as a number of its width. -/
def Width.reduce (w : Width) (value : Int) : Nat :=
  (value % w.modulus).toNat

/-- A memory operand as the address that it is, unless it is of the user's
    own. -/
def Operand.address? : Operand → Option EffectiveAddress
  | .address a => some a
  | .custom _ => none

/-- A place as an argument, unless it is an operand of the user's own. -/
def Place.argument? {w : Width} : Place w → Option Argument
  | .register r => some (.register r)
  | .memory m => m.address?.map (.memory w)

namespace Instruction

/-- The line that an instruction has to be read as. Relative branches have none
    here, as the same branch reads differently from place to place; padding and
    raw bytes have none because they are no single instruction. -/
def reading : Instruction → Option (Mnemonic × List Argument)
  | unary op target => do return (.unary op, [← target.argument?])
  | alu op target source => do return (.alu op, [← target.argument?, .register source])
  | @aluLoad w op target source => do
    return (.alu op, [.register target, .memory w (← source.address?)])
  | @aluImmediate w op target value => do
    return (.alu op, [← target.argument?, .immediate w (w.reduce value)])
  | test left right => some (.test, [.register left, .register right])
  | @testImmediate w left value =>
    some (.test, [.register left, .immediate w (w.reduce value)])
  | mov target source => do return (.mov, [← target.argument?, .register source])
  | @load w target source => do
    return (.mov, [.register target, .memory w (← source.address?)])
  | @movImmediate w target value => do
    return (.mov, [← target.argument?, .immediate w (w.reduce value)])
  | lea target source => do
    return (.lea, [.register target, .reference (← source.address?)])
  | pushDword source => some (.push, [.register source])
  | pushWord source => some (.push, [.register source])
  | pushMemory source => do return (.push, [.memory .dword (← source.address?)])
  | pushConstant32 value => some (.push, [.immediate .dword value.toNat])
  | pushConstant8 value => some (.push, [.immediate .dword (Width.dword.reduce value.toInt)])
  | popDword target => some (.pop, [.register target])
  | popWord target => some (.pop, [.register target])
  | popMemory target => do return (.pop, [.memory .dword (← target.address?)])
  | branchIndirect kind target => do return (.branch kind, [← target.argument?])
  | retDrop drop => some (.plain .ret, [.immediate .word drop.toNat])
  | plain op => some (.plain op, [])
  | branch _ _ | nopSled _ | data _ => none

/-- The instructions that a listing has lines for: the relative branches, and
    all that have a reading. -/
def InRepertoire : Instruction → Prop
  | branch _ _ => True
  | i => i.reading.isSome

/-- A line is that of an instruction. A relative branch has to lead to its
    target, whatever the displacement. -/
def Shows (i : Instruction) (l : Line) : Prop :=
  match i with
  | branch kind target => l.mnemonic = .branch kind ∧
    ∃ displacement, l.arguments = [.relative displacement] ∧
      Reaches l.next displacement target
  | i => i.reading = some (l.mnemonic, l.arguments)

end Instruction

end Hotpatch
