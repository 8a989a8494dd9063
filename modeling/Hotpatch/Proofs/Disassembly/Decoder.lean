import Hotpatch.Proofs.Disassembly.Listing

/-!
# The Decoder

Bytes read as 32-bit x86 code. The tables follow the processor's manual: a byte
is taken apart into its fields, the fields name registers and operations by
their numbers, and the opcode says which operands follow. Nothing here refers
to how an instruction is written, so that agreement between the two is a
statement and not a definition.

The decoder knows more forms than are ever written, among them the short forms
with a fixed accumulator and the forms with a register in the `r/m` place that
have a shorter equal. An operand-size byte is read as part of its instruction.
The other prefixes are read as lines of their own.

## Main definitions

* `Reader`: What takes a value off the front of some bytes.
* `unsigned`, `signedByte`, `signedDword`: Numbers in the order of the machine.
* `readMemory`, `readPlace`: Operands in the `r/m` place.
* `readOpcode`: An opcode and what follows it.
* `readLine`: One line.
* `listing`: As many lines as asked for.
-/

namespace Hotpatch

/-- What takes a value off the front of some bytes, if there is one. -/
abbrev Reader (α : Type) : Type :=
  List UInt8 → Option (α × List UInt8)

/-- A value whose bytes are read, and a function of it. -/
def Reader.map {α β : Type} (f : α → β) (r : Reader α) : Reader β :=
  fun bytes => (r bytes).map fun (a, rest) => (f a, rest)

/-- Two values after each other. -/
def Reader.and {α β : Type} (r : Reader α) (next : Reader β) : Reader (α × β) :=
  fun bytes => do
    let (a, bytes) ← r bytes
    let (b, bytes) ← next bytes
    return ((a, b), bytes)

/-- A number of some bytes, least significant first. -/
def unsigned : Nat → Reader Nat
  | 0, bytes => some (0, bytes)
  | _ + 1, [] => none
  | count + 1, b :: bytes => do
    let (high, rest) ← unsigned count bytes
    return (b.toNat + 0x100 * high, rest)

/-- A byte extended by its sign. -/
def signedByte : Reader Int32 :=
  (unsigned 1).map fun n => (UInt8.ofNat n).toInt8.toInt32

/-- Four bytes as a signed number. -/
def signedDword : Reader Int32 :=
  (unsigned 4).map fun n => (UInt32.ofNat n).toInt32

def readImmediate (w : Width) : Reader Argument :=
  (unsigned w.bytes).map (.immediate w)

/-- An immediate of a byte, extended by its sign to a width. -/
def readShortImmediate (w : Width) : Reader Argument :=
  signedByte.map fun n => .immediate w (w.reduce n.toInt)

def Mode.ofField : Nat → Mode
  | 0 => plain
  | 1 => short
  | 2 => long
  | _ => direct

def Scale.ofField : Nat → Scale
  | 0 => one
  | 1 => two
  | 2 => four
  | _ => eight

def Register.ofField : (w : Width) → Nat → Register w
  | .byte, 0 => al
  | .byte, 1 => cl
  | .byte, 2 => dl
  | .byte, 3 => bl
  | .byte, 4 => ah
  | .byte, 5 => ch
  | .byte, 6 => dh
  | .byte, _ => bh
  | .word, 0 => ax
  | .word, 1 => cx
  | .word, 2 => dx
  | .word, 3 => bx
  | .word, 4 => sp
  | .word, 5 => bp
  | .word, 6 => si
  | .word, _ => di
  | .dword, 0 => eax
  | .dword, 1 => ecx
  | .dword, 2 => edx
  | .dword, 3 => ebx
  | .dword, 4 => esp
  | .dword, 5 => ebp
  | .dword, 6 => esi
  | .dword, _ => edi

/-- The operation of the first opcodes, and of the first group. -/
def Alu.ofField : Nat → Alu
  | 0 => add
  | 1 => or
  | 2 => adc
  | 3 => sbb
  | 4 => and
  | 5 => sub
  | 6 => xor
  | _ => cmp

/-- The highest field of a byte that holds three. -/
def highField (b : UInt8) : Nat :=
  b.toNat / 64

def middleField (b : UInt8) : Nat :=
  b.toNat / 8 % 8

/-- The lowest field, which is also where some opcodes hold a register. -/
def lowField (b : UInt8) : Nat :=
  b.toNat % 8

/-- The bytes of a displacement, as the addressing mode calls for. -/
def readDisplacement : Mode → Reader Int32
  | .plain | .direct => fun bytes => some (0, bytes)
  | .short => signedByte
  | .long => signedDword

/-- An operand with a SIB byte. Number four in the index field means that there
    is no index, and number five in the base field means, without a displacement
    by mode, that there is a displacement and no base. -/
def readScaled (mode : Mode) : Reader EffectiveAddress
  | [] => none
  | b :: bytes =>
    let index :=
      if middleField b = 4 then none
      else some (Register.ofField .dword (middleField b), Scale.ofField (highField b))
    if lowField b = 5 ∧ mode = .plain then
      signedDword.map (fun d => ⟨none, index, d⟩) bytes
    else
      (readDisplacement mode).map
        (fun d => ⟨some (Register.ofField .dword (lowField b)), index, d⟩) bytes

/-- An operand in memory. Number four in the `r/m` field calls for a SIB byte,
    and number five means, without a displacement by mode, a fixed address. -/
def readMemory (mode : Mode) (rm : Nat) : Reader EffectiveAddress :=
  if rm = 4 then readScaled mode
  else if rm = 5 ∧ mode = .plain then signedDword.map fun d => ⟨none, none, d⟩
  else (readDisplacement mode).map fun d => ⟨some (Register.ofField .dword rm), none, d⟩

/-- What stands in the `r/m` place. -/
inductive Slot
  | register (number : Nat)
  | memory (a : EffectiveAddress)

namespace Slot

/-- What stands in the `r/m` place, as an argument of a width. -/
def argument (w : Width) : Slot → Argument
  | register number => .register (Register.ofField w number)
  | memory a => .memory w a

end Slot

/-- A ModR/M byte and the operand that it begins: the `reg` field, and what
    stands in the `r/m` place. -/
def readPlace : Reader (Nat × Slot)
  | [] => none
  | b :: bytes =>
    match Mode.ofField (highField b) with
    | .direct => some ((middleField b, .register (lowField b)), bytes)
    | mode => (readMemory mode (lowField b)).map
        (fun a => (middleField b, .memory a)) bytes

/-- What is read of a line: what it does, and with what. -/
abbrev Reading : Type :=
  Mnemonic × List Argument

/-- An operation on the `r/m` place and a register, in this order. -/
def readStore (m : Mnemonic) (w : Width) : Reader Reading :=
  readPlace.map fun (reg, slot) =>
    (m, [slot.argument w, .register (Register.ofField w reg)])

/-- An operation on a register and the `r/m` place, in this order. -/
def readLoad (m : Mnemonic) (w : Width) : Reader Reading :=
  readPlace.map fun (reg, slot) =>
    (m, [.register (Register.ofField w reg), slot.argument w])

/-- An operation on the accumulator and an immediate. -/
def readAccumulator (m : Mnemonic) (w : Width) : Reader Reading :=
  (readImmediate w).map fun value => (m, [.register (Register.ofField w 0), value])

/-- An operation that the `reg` field selects, on the `r/m` place and an
    immediate. -/
def readGroup (select : Nat → Option Mnemonic) (w : Width) (immediate : Reader Argument) :
    Reader Reading :=
  fun bytes => do
    let (((reg, slot), value), rest) ← (readPlace.and immediate) bytes
    return ((← select reg, [slot.argument w, value]), rest)

/-- An operation that the `reg` field selects, on the `r/m` place alone. -/
def readSingle (select : Nat → Option Mnemonic) (w : Width) : Reader Reading :=
  fun bytes => do
    let ((reg, slot), rest) ← readPlace bytes
    return ((← select reg, [slot.argument w]), rest)

/-- An opcode below `0x40`. Its middle field is an operation, and its lowest
    field says what on; there are other instructions in the last two columns. -/
def readArithmetic (wide : Width) (opcode : UInt8) : Reader Reading :=
  let m := Mnemonic.alu (Alu.ofField (middleField opcode))
  match lowField opcode with
  | 0 => readStore m .byte
  | 1 => readStore m wide
  | 2 => readLoad m .byte
  | 3 => readLoad m wide
  | 4 => readAccumulator m .byte
  | 5 => readAccumulator m wide
  | _ => fun _ => none

/-- The first group, which has an operation for each `reg` field. -/
def group1 (reg : Nat) : Option Mnemonic :=
  some (.alu (Alu.ofField reg))

/-- The only member of a group. -/
def onlyMember (m : Mnemonic) : Nat → Option Mnemonic
  | 0 => some m
  | _ => none

/-- The third group, apart from its first member, which takes an immediate. -/
def group3 : Nat → Option Mnemonic
  | 2 => some (.unary .not)
  | 3 => some (.unary .neg)
  | 4 => some (.unary .mul)
  | 5 => some (.unary .imul)
  | 6 => some (.unary .div)
  | 7 => some (.unary .idiv)
  | _ => none

def group4 : Nat → Option Mnemonic
  | 0 => some (.unary .inc)
  | 1 => some (.unary .dec)
  | _ => none

/-- The fifth group for an operand size. Branches through a word are left
    out. -/
def group5 (wide : Width) : Nat → Option Mnemonic
  | 0 => some (.unary .inc)
  | 1 => some (.unary .dec)
  | 2 => if wide = .dword then some (.branch .call) else none
  | 4 => if wide = .dword then some (.branch .jump) else none
  | 6 => some .push
  | _ => none

/-- The third group. Only its first member takes an immediate, so the `reg`
    field is looked at before it is known what follows. -/
def readGroup3 (w : Width) : Reader Reading :=
  fun bytes =>
    match readPlace bytes with
    | some ((0, _), _) => readGroup (onlyMember .test) w (readImmediate w) bytes
    | _ => readSingle group3 w bytes

/-- The address of an operand. A register has none. -/
def readAddress (w : Width) : Reader Reading :=
  fun bytes =>
    match readPlace bytes with
    | some ((reg, .memory a), rest) =>
      some ((.lea, [.register (Register.ofField w reg), .reference a]), rest)
    | _ => none

def readBranch (kind : Branch) : Reader Reading :=
  signedDword.map fun d => (.branch kind, [.relative d])

/-- An instruction without operands, unless its operand size was changed. -/
def readPlain (wide : Width) (op : Plain) : Reader Reading :=
  fun bytes => if wide = .dword then some ((.plain op, []), bytes) else none

def readNamed (m : Mnemonic) (w : Width) (opcode : UInt8) : Reader Reading :=
  fun bytes => some ((m, [.register (Register.ofField w (lowField opcode))]), bytes)

/-- An immediate stored to the register that the opcode names. -/
def readMovNamed (w : Width) (opcode : UInt8) : Reader Reading :=
  (readImmediate w).map fun value =>
    (.mov, [.register (Register.ofField w (lowField opcode)), value])

/-- An opcode of the second map. The only one known is the long form of an
    instruction that does nothing. -/
def readEscaped (wide : Width) : Reader Reading
  | 0x1F :: bytes => readSingle (onlyMember (.plain .nop)) wide bytes
  | _ => none

/-- An opcode from `0x40` on, for an operand size. -/
def readOther (wide : Width) (opcode : UInt8) : Reader Reading :=
  match opcode with
  | 0x60 => readPlain wide .pushad
  | 0x61 => readPlain wide .popad
  -- A prefix is an instruction of its own here.
  | 0x64 => readPlain wide .fs
  | 0x65 => readPlain wide .gs
  | 0x68 => (readImmediate wide).map fun value => (.push, [value])
  | 0x6A => (readShortImmediate wide).map fun value => (.push, [value])
  | 0x80 => readGroup group1 .byte (readImmediate .byte)
  | 0x81 => readGroup group1 wide (readImmediate wide)
  | 0x83 => readGroup group1 wide (readShortImmediate wide)
  | 0x84 => readStore .test .byte
  | 0x85 => readStore .test wide
  | 0x88 => readStore .mov .byte
  | 0x89 => readStore .mov wide
  | 0x8A => readLoad .mov .byte
  | 0x8B => readLoad .mov wide
  | 0x8D => readAddress wide
  | 0x8F => readSingle (onlyMember .pop) wide
  | 0x90 => fun bytes => some ((.plain .nop, []), bytes)
  | 0x9C => readPlain wide .pushfd
  | 0x9D => readPlain wide .popfd
  | 0xA8 => readAccumulator .test .byte
  | 0xA9 => readAccumulator .test wide
  -- Returns and relative branches are not known with another operand size.
  | 0xC2 => if wide = .dword then
      (readImmediate .word).map fun value => (.plain .ret, [value]) else fun _ => none
  | 0xC3 => readPlain wide .ret
  | 0xC6 => readGroup (onlyMember .mov) .byte (readImmediate .byte)
  | 0xC7 => readGroup (onlyMember .mov) wide (readImmediate wide)
  | 0xCC => readPlain wide .int3
  | 0xE8 => if wide = .dword then readBranch .call else fun _ => none
  | 0xE9 => if wide = .dword then readBranch .jump else fun _ => none
  | 0xF0 => readPlain wide .lock
  | 0xF3 => readPlain wide .rep
  | 0xF6 => readGroup3 .byte
  | 0xF7 => readGroup3 wide
  | 0xFE => readSingle group4 .byte
  | 0xFF => readSingle (group5 wide) wide
  | _ => fun _ => none

/-- The opcodes that hold a register in their lowest field, by the number that
    is left of them without it. -/
def readRow (wide : Width) (opcode : UInt8) : Option (Reader Reading) :=
  match opcode.toNat / 8 with
  | 0x08 => some (readNamed (.unary .inc) wide opcode)
  | 0x09 => some (readNamed (.unary .dec) wide opcode)
  | 0x0A => some (readNamed .push wide opcode)
  | 0x0B => some (readNamed .pop wide opcode)
  | 0x16 => some (readMovNamed .byte opcode)
  | 0x17 => some (readMovNamed wide opcode)
  | _ => none

/-- An opcode and what follows it, for an operand size. -/
def readOpcode (wide : Width) (opcode : UInt8) : Reader Reading :=
  if opcode = 0x0F then readEscaped wide
  else if opcode < 0x40 then readArithmetic wide opcode
  else match readRow wide opcode with
    | some row => row
    | none => readOther wide opcode

/-- An instruction, with the operand size changed if a byte before it says
    so. -/
def readInstruction : Reader Reading
  | 0x66 :: opcode :: bytes => readOpcode .word opcode bytes
  | opcode :: bytes => readOpcode .dword opcode bytes
  | [] => none

def readLine (position : Address) : Reader Line :=
  fun bytes => do
    let ((mnemonic, arguments), rest) ← readInstruction bytes
    return (⟨position, bytes.length - rest.length, mnemonic, arguments⟩, rest)

/-- As many lines as asked for, the first of which stands at an address. -/
def listing : Nat → Address → Reader (List Line)
  | 0, _, bytes => some ([], bytes)
  | count + 1, position, bytes => do
    let (line, bytes) ← readLine position bytes
    let (lines, bytes) ← listing count line.next bytes
    return (line :: lines, bytes)

end Hotpatch
