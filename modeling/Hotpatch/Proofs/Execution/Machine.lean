import Hotpatch.Proofs.Disassembly.Forms

/-!
# The Machine

A processor of 32 bits that runs the bytes it finds in its memory. It reads an
instruction where the instruction pointer stands and carries it out. Only what
the stubs consist of is carried out: moves, pushes, pops and subtractions of
dwords, branches, and returns. At anything else the machine stops.

Addresses wrap, as they do on the processor.

## Main definitions

* `Machine`: Registers, flags, and memory.
* `Machine.word`, `Machine.setWord`: A word of memory.
* `Machine.execute`: What an instruction does.
* `Machine.step`: An instruction fetched and carried out.
* `Machine.Path`: Steps from machines of a kind.

## Theorems

* `word_setWord_self`, `word_setWord_of_apart`: What a word is after a write.
* `step_of_reads`: A step in the middle of known code.
* `Path.trans`: A path after a path.
-/

namespace Hotpatch

/-- A word of the machine, which is also an address. -/
abbrev Word : Type :=
  BitVec 32

/-- The flags that arithmetic sets. -/
structure Flags where
  carry : Bool
  parity : Bool
  adjust : Bool
  zero : Bool
  sign : Bool
  overflow : Bool

namespace Flags

/-- Whether an even number of the lowest eight bits is set. -/
def evenParity (v : Word) : Bool :=
  ((List.range 8).filter fun i => v.getLsbD i).length % 2 = 0

/-- The flags of a difference. -/
def ofDifference (a b : Word) : Flags where
  carry := a.toNat < b.toNat
  parity := evenParity (a - b)
  adjust := a.toNat % 16 < b.toNat % 16
  zero := a = b
  sign := (a - b).msb
  overflow := a.msb != b.msb && (a - b).msb != a.msb

end Flags

/-- A processor and its memory. -/
structure Machine where
  registers : Register .dword → Word
  pointer : Word
  flags : Flags
  memory : Word → UInt8

namespace Machine

def word (m : Machine) (a : Word) : Word :=
  BitVec.ofNat 32 ((m.memory a).toNat + 0x100 * (m.memory (a + 1#32)).toNat +
    0x10000 * (m.memory (a + 2#32)).toNat + 0x1000000 * (m.memory (a + 3#32)).toNat)

/-- A byte of a word, counted from the lowest. -/
def byteOf (v : Word) : Nat → UInt8
  | 0 => UInt8.ofNat v.toNat
  | 1 => UInt8.ofNat (v.toNat / 0x100)
  | 2 => UInt8.ofNat (v.toNat / 0x10000)
  | _ => UInt8.ofNat (v.toNat / 0x1000000)

def setWord (m : Machine) (a v : Word) : Machine :=
  { m with
    memory := fun x => if (x - a).toNat < 4 then byteOf v (x - a).toNat else m.memory x }

def setRegister (m : Machine) (r : Register .dword) (v : Word) : Machine :=
  { m with registers := fun r' => if r' = r then v else m.registers r' }

/-- The machine that goes on elsewhere. -/
def jump (m : Machine) (a : Word) : Machine :=
  { m with pointer := a }

/-- The address that a memory operand names. -/
def resolve (m : Machine) (a : EffectiveAddress) : Word :=
  (match a.base with
    | some r => m.registers r
    | none => 0#32) +
  (match a.index with
    | some (r, scale) => m.registers r * BitVec.ofNat 32 scale.factor
    | none => 0#32) +
  BitVec.ofInt 32 a.displacement.toInt

/-- The value of a dword operand. -/
def read (m : Machine) : Argument → Option Word
  | @Argument.register .dword r => some (m.registers r)
  | .memory .dword a => some (m.word (m.resolve a))
  | .immediate .dword value => some (BitVec.ofNat 32 value)
  | _ => none

def write (m : Machine) (target : Argument) (v : Word) : Option Machine :=
  match target with
  | @Argument.register .dword r => some (m.setRegister r v)
  | .memory .dword a => some (m.setWord (m.resolve a) v)
  | _ => none

def push (m : Machine) (v : Word) : Machine :=
  (m.setRegister .esp (m.registers .esp - 4#32)).setWord (m.registers .esp - 4#32) v

/-- The machine with some bytes less on its stack. -/
def drop (m : Machine) (bytes : Nat) : Machine :=
  m.setRegister .esp (m.registers .esp + BitVec.ofNat 32 bytes)

def top (m : Machine) : Word :=
  m.word (m.registers .esp)

/-- Where a branch leads. A displacement counts from the instruction after the
    branch, where the instruction pointer stands already. -/
def destination (m : Machine) : Argument → Option Word
  | .relative displacement => some (m.pointer + BitVec.ofInt 32 displacement.toInt)
  | target => m.read target

/-- The machine after an instruction, if it is one that is carried out here. The
    instruction pointer stands after the instruction before. -/
def execute (m : Machine) : Reading → Option Machine
  | (.mov, [target, source]) => do m.write target (← m.read source)
  | (.push, [source]) => do return m.push (← m.read source)
  | (.pop, [target]) => (m.drop 4).write target m.top
  | (.alu .sub, [target, source]) => do
    let a ← m.read target
    let b ← m.read source
    return { (← m.write target (a - b)) with flags := .ofDifference a b }
  | (.branch .call, [target]) => do return (m.push m.pointer).jump (← m.destination target)
  | (.branch .jump, [target]) => do return m.jump (← m.destination target)
  | (.plain .ret, []) => some ((m.drop 4).jump m.top)
  | (.plain .ret, [.immediate .word bytes]) => some ((m.drop (4 + bytes)).jump m.top)
  | _ => none

/-- The bytes at the instruction pointer, as many as the longest instruction
    has. -/
def window (m : Machine) : List UInt8 :=
  (List.range 15).map fun i => m.memory (m.pointer + BitVec.ofNat 32 i)

/-- The machine after the instruction at its instruction pointer. -/
def step (m : Machine) : Option Machine := do
  let (reading, rest) ← readInstruction m.window
  let length := m.window.length - rest.length
  (m.jump (m.pointer + BitVec.ofNat 32 length)).execute reading

/-- Code lies in the memory of a machine. -/
def Holds (m : Machine) (base : Word) (code : List UInt8) : Prop :=
  ∀ i (h : i < code.length), m.memory (base + BitVec.ofNat 32 i) = code[i]

/-- A machine is about to run an instruction of some code, which lies in its
    memory. -/
def Inside (base : Word) (code : List UInt8) (m : Machine) : Prop :=
  m.Holds base code ∧ ∃ i < code.length, m.pointer = base + BitVec.ofNat 32 i

/-- Steps from one machine to another. Every machine that makes one of the steps
    is of a given kind; the last one need not be. -/
inductive Path (kind : Machine → Prop) : Machine → Machine → Prop
  | refl (m : Machine) : Path kind m m
  | step {m m' m'' : Machine} : kind m → m.step = some m' → Path kind m' m'' →
    Path kind m m''

theorem Path.trans {kind : Machine → Prop} {m m' m'' : Machine} (h : Path kind m m')
    (h' : Path kind m' m'') : Path kind m m'' := by
  induction h with
  | refl => exact h'
  | step hk hs _ ih => exact .step hk hs (ih h')

theorem Path.single {kind : Machine → Prop} {m m' : Machine} (hk : kind m)
    (hs : m.step = some m') : Path kind m m' := by
  refine .step hk hs ?_
  exact .refl m'

section Words

variable {m : Machine}

theorem memory_setWord_add (a v : Word) {i : Nat} (h : i < 4) :
    (m.setWord a v).memory (a + BitVec.ofNat 32 i) = byteOf v i := by
  -- Addresses wrap, but not within the word.
  have hi : (a + BitVec.ofNat 32 i - a).toNat = i := by
    rw [BitVec.add_comm, BitVec.add_sub_cancel, BitVec.toNat_ofNat]
    omega
  simp only [setWord, hi, if_pos h]

theorem memory_setWord_of_le {a v x : Word} (h : 4 ≤ (x - a).toNat) :
    (m.setWord a v).memory x = m.memory x := by
  simp only [setWord, if_neg (Nat.not_lt.mpr h)]

/-- A word that was written is read back. -/
theorem word_setWord_self (a v : Word) : (m.setWord a v).word a = v := by
  have hv : v.toNat < 4294967296 := v.isLt
  have h0 : (m.setWord a v).memory a = byteOf v 0 := by
    have h := memory_setWord_add (m := m) a v (i := 0) (by omega)
    rwa [BitVec.add_zero] at h
  apply BitVec.eq_of_toNat_eq
  rw [word, h0, memory_setWord_add a v (i := 1) (by omega),
    memory_setWord_add a v (i := 2) (by omega), memory_setWord_add a v (i := 3) (by omega)]
  -- Four digits to the base of 256 put the number together again.
  simp only [byteOf, UInt8.toNat_ofNat', BitVec.toNat_ofNat]
  omega

theorem word_congr {m' : Machine} {a : Word}
    (h : ∀ i < 4, m'.memory (a + BitVec.ofNat 32 i) = m.memory (a + BitVec.ofNat 32 i)) :
    m'.word a = m.word a := by
  have h0 := h 0 (by omega)
  rw [BitVec.add_zero] at h0
  rw [word, word, h0, h 1 (by omega), h 2 (by omega), h 3 (by omega)]

/-- A word away from the one that is written stays. -/
theorem word_setWord_of_apart {a b v : Word} (h : 4 ≤ (b - a).toNat ∧ 4 ≤ (a - b).toNat) :
    (m.setWord a v).word b = m.word b := by
  refine word_congr fun i hi => ?_
  apply memory_setWord_of_le
  -- Both distances are needed, as the words could meet across the wrap.
  bv_omega

theorem top_push (m : Machine) (v : Word) : (m.push v).top = v := by
  have hesp : (m.push v).registers .esp = m.registers .esp - 4#32 := by
    simp only [push, setWord, setRegister, if_true]
  rw [top, hesp]
  exact word_setWord_self _ _

end Words

theorem execute_call {m : Machine} {w : Width} {a : EffectiveAddress} {v : Word}
    (h : m.read (.memory w a) = some v) :
    m.execute (.branch .call, [.memory w a]) = some ((m.push m.pointer).jump v) := by
  simp only [execute, destination, h, bind, pure, Option.bind]

/-- A machine in the middle of known code runs the instruction that stands
    there. -/
theorem step_of_reads {m : Machine} {base : Word} {before bytes after : List UInt8}
    {reading : Reading} (code : m.Holds base (before ++ (bytes ++ after)))
    (pointer : m.pointer = base + BitVec.ofNat 32 before.length)
    (reads : Reads readInstruction bytes reading) (short : bytes.length ≤ 15) :
    m.step =
      (m.jump (base + BitVec.ofNat 32 (before.length + bytes.length))).execute reading := by
  have hlength : m.window.length = 15 := by
    rw [window, List.length_map, List.length_range]
  -- The window begins with the instruction, whatever else it holds.
  have htake : m.window.take bytes.length = bytes := by
    apply List.ext_getElem
    · rw [List.length_take]
      omega
    · intro i _ hi
      have hbyte := code (before.length + i) (by rw [List.length_append, List.length_append]; omega)
      simp only [window, List.getElem_take, List.getElem_map, List.getElem_range, pointer]
      rw [BitVec.ofNat_add, ← BitVec.add_assoc] at hbyte
      rw [hbyte, List.getElem_append_right (Nat.le_add_right _ _)]
      simp only [Nat.add_sub_cancel_left, List.getElem_append_left hi]
  have hwindow := List.take_append_drop bytes.length m.window
  have hread := reads (m.window.drop bytes.length)
  rw [htake] at hwindow
  rw [hwindow] at hread
  -- What the reader left tells how much it took.
  have hused : m.window.length - (m.window.drop bytes.length).length = bytes.length := by
    rw [List.length_drop]
    omega
  simp only [step, hread, bind, Option.bind, hused, pointer, BitVec.ofNat_add, BitVec.add_assoc]

end Machine

end Hotpatch
