import Hotpatch.Action
import Hotpatch.X86.Encoding

/-!
# Writers

Bytes that begin at an origin, and how an instruction gets in behind them. An instruction
is written piece by piece: a prefix, an opcode, the bytes of its operands, an immediate.
What was written is not taken back, so an instruction that is refused after its first
piece would leave that piece behind, and all code after it would be shifted.

Each instruction is written here in the order in which its operands are checked and its
pieces go out. That no piece goes out before the last check is then to be proved, and is
what it means that an instruction is written as it is encoded: as a whole or not at all.

## Main definitions

* `Writer`: Bytes that begin at an origin.
* `Writer.groupRegister`, `Writer.groupMemory`, `Writer.fixedMemory`: The pieces that many
  instructions share.
* `Writer.write`: An instruction, piece by piece.
* `Writer.push`: The writer after an instruction, and the fault if it is refused.
* `Writer.Writes`: Bytes that are written as a whole or not at all.

## Theorems

* `Writes.checked`, `Writes.followed`: A check before bytes, and bytes behind others.
* `write_encode`: An instruction is written as it is encoded.
* `push_eq`: What is left of the writer then.
-/

namespace Hotpatch

/-- Bytes that begin at an origin. In a sizing pass only their number counts,
    and the origin is zero. -/
structure Writer where
  origin : Address
  sizing : Bool
  bytes : List UInt8

namespace Writer

/-- An empty writer whose first byte will stand at `origin`. -/
def placedAt (origin : Address) : Writer :=
  ⟨origin, false, []⟩

def forSizing : Writer :=
  ⟨0, true, []⟩

def length (w : Writer) : Nat :=
  w.bytes.length

/-- Where the next byte will stand. -/
def position (w : Writer) : Address :=
  w.origin + UInt64.ofNat w.length

def append (w : Writer) (bytes : List UInt8) : Writer :=
  { w with bytes := w.bytes ++ bytes }

/-- Bytes as they are. -/
def raw (bytes : List UInt8) : Action Writer Unit :=
  .modify (·.append bytes)

def byte (b : UInt8) : Action Writer Unit :=
  raw [b]

/-- An opcode in the form for a width. -/
def sizedOpcode (byteForm : UInt8) : Width → Action Writer Unit
  | .byte => byte byteForm
  | .word => do
    byte operandSizeByte
    byte (byteForm ||| 1)
  | .dword => byte (byteForm ||| 1)

/-- What selects 16-bit operands, where the opcode has no bit for the width. -/
def selector : Width → Action Writer Unit
  | .word => byte operandSizeByte
  | _ => pure ()

/-- An immediate in the bytes of a width. -/
def immediate (w : Width) (value : Int) : Action Writer Unit :=
  raw (w.immediate value)

/-- An opcode for a width beside a register. -/
def groupRegister {w : Width} (byteForm : UInt8) (reg : BitVec 3) (r : Register w) :
    Action Writer Unit := do
  let rm ← Action.ofExcept r.code
  sizedOpcode byteForm w
  byte (modRM .direct reg rm)

/-- An opcode for a width beside memory. The bytes of the operand come from a buffer of
    their own, which is thrown away if the operand is refused. -/
def groupMemory (w : Width) (byteForm : UInt8) (reg : BitVec 3) (m : Operand) :
    Action Writer Unit := do
  let operand ← Action.ofExcept (m.encode reg)
  sizedOpcode byteForm w
  raw operand

/-- An opcode for a width beside two registers, of which the target is checked first. -/
def groupRegisters {w : Width} (byteForm : UInt8) (target source : Register w) :
    Action Writer Unit := do
  let rm ← Action.ofExcept target.code
  let reg ← Action.ofExcept source.code
  sizedOpcode byteForm w
  byte (modRM .direct reg rm)

/-- An opcode for a width beside memory and a register, of which the register is checked
    first. -/
def groupBoth {w : Width} (byteForm : UInt8) (m : Operand) (r : Register w) :
    Action Writer Unit := do
  let reg ← Action.ofExcept r.code
  groupMemory w byteForm reg m

/-- A given opcode beside a register. -/
def fixedRegister (opcode : List UInt8) (reg rm : BitVec 3) : Action Writer Unit := do
  raw opcode
  byte (modRM .direct reg rm)

/-- A given opcode beside memory. -/
def fixedMemory (opcode : List UInt8) (reg : BitVec 3) (m : Operand) : Action Writer Unit := do
  let operand ← Action.ofExcept (m.encode reg)
  raw opcode
  raw operand

/-- An operation beside an immediate, of which the operand is known. One that is a signed
    byte has a short form for the wider operands. -/
def aluImmediate (w : Width) (operand : List UInt8) (value : Int) : Action Writer Unit :=
  if w = .byte then do
    byte 0x80
    raw operand
    immediate w value
  else if -128 ≤ value ∧ value ≤ 127 then do
    selector w
    byte 0x83
    raw operand
    immediate .byte value
  else do
    selector w
    byte 0x81
    raw operand
    immediate w value

/-- The displacement of a relative branch that comes next, if there is one. In a sizing pass
    any will do. -/
def displacement (w : Writer) (target : Address) : Except Fault Int :=
  match displacement32 (w.position + UInt64.ofNat Branch.size) target with
  | some displacement => .ok displacement.toInt
  | none => if w.sizing then .ok 0 else .error (.targetOutOfReach w.position target)

/-- A relative branch, which depends on where the writer stands. -/
def relative (kind : Branch) (target : Address) : Action Writer Unit := do
  let w ← Action.gets id
  let displacement ← Action.ofExcept (w.displacement target)
  byte kind.opcode
  raw (littleEndian 4 displacement)

/-- An instruction, piece by piece. -/
def write : Instruction → Action Writer Unit
  | .unary op (.register r) => groupRegister op.opcode op.field r
  | @Instruction.unary w op (.memory m) => groupMemory w op.opcode op.field m
  | .alu op (.register r) source => groupRegisters op.opcode r source
  | .alu op (.memory m) source => groupBoth op.opcode m source
  | .aluLoad op target source => groupBoth (op.opcode ||| 2) source target
  -- The register is looked at before the value, and either before anything is written.
  | @Instruction.aluImmediate w op (.register r) value => do
    let rm ← Action.ofExcept r.code
    Action.ofExcept (w.requireFits value)
    aluImmediate w [modRM .direct op.field rm] value
  | @Instruction.aluImmediate w op (.memory m) value => do
    Action.ofExcept (w.requireFits value)
    let operand ← Action.ofExcept (m.encode op.field)
    aluImmediate w operand value
  | .test left right => groupRegisters 0x84 left right
  -- Here the value comes first, since the group looks at the register itself.
  | @Instruction.testImmediate w left value => do
    Action.ofExcept (w.requireFits value)
    groupRegister 0xF6 0#3 left
    immediate w value
  | .mov (.register r) source => groupRegisters 0x88 r source
  | .mov (.memory m) source => groupBoth 0x88 m source
  | .load target source => groupBoth 0x8A source target
  | @Instruction.movImmediate w (.register r) value => do
    let code ← Action.ofExcept r.code
    Action.ofExcept (w.requireFits value)
    selector w
    byte ((if w = .byte then 0xB0 else 0xB8) + UInt8.ofNat code.toNat)
    immediate w value
  | @Instruction.movImmediate w (.memory m) value => do
    Action.ofExcept (w.requireFits value)
    groupMemory w 0xC6 0#3 m
    immediate w value
  | .lea target source => fixedMemory [0x8D] target.number source
  | .pushDword source => byte (0x50 + UInt8.ofNat source.number.toNat)
  | .pushWord source => do
    let code ← Action.ofExcept source.code
    byte operandSizeByte
    byte (0x50 + UInt8.ofNat code.toNat)
  | .pushMemory source => fixedMemory [0xFF] 6#3 source
  | .pushConstant32 value => do
    byte 0x68
    raw (littleEndian 4 value.toNat)
  | .pushConstant8 value => do
    byte 0x6A
    raw (littleEndian 1 value.toInt)
  | .popDword target => fixedRegister [0x8F] 0#3 target.number
  | .popWord target => do
    let code ← Action.ofExcept target.code
    fixedRegister [operandSizeByte, 0x8F] 0#3 code
  | .popMemory target => fixedMemory [0x8F] 0#3 target
  | .branch kind target => relative kind target
  | .branchIndirect kind (.register r) => fixedRegister [0xFF] kind.field r.number
  | .branchIndirect kind (.memory m) => fixedMemory [0xFF] kind.field m
  | .retDrop drop => do
    byte 0xC2
    raw (littleEndian 2 drop.toNat)
  | .plain op => byte op.byte
  | .nopSled count => (sledForms count).forM raw
  | .data bytes => raw bytes

/-- The writer after an instruction, and the fault if it has no encoding. Pieces that were
    written before a fault stay. -/
def push (w : Writer) (i : Instruction) : Writer × Option Fault :=
  match write i w with
  | ⟨.ok (), w, _⟩ => (w, none)
  | ⟨.error fault, w, _⟩ => (w, some fault)

/-- What an action leaves that writes bytes as a whole, or is refused and writes nothing. -/
def written (w : Writer) : Except Fault (List UInt8) → Outcome Writer Unit
  | .ok bytes => ⟨.ok (), w.append bytes, []⟩
  | .error fault => ⟨.error fault, w, []⟩

/-- Bytes that are written as a whole or not at all, by whatever writer. -/
def Writes (act : Action Writer Unit) (result : Except Fault (List UInt8)) : Prop :=
  ∀ w : Writer, act w = w.written result

@[simp]
theorem append_append (w : Writer) (bytes bytes' : List UInt8) :
    (w.append bytes).append bytes' = w.append (bytes ++ bytes') := by
  simp only [append, List.append_assoc]

namespace Writes

variable {α : Type} {act : Action Writer Unit} {result : Except Fault (List UInt8)}
  {bytes : List UInt8}

theorem raw (bytes : List UInt8) : Writes (Writer.raw bytes) (.ok bytes) := by
  intro _
  exact rfl

theorem nothing : Writes (pure ()) (.ok []) := by
  intro w
  rw [written, append, List.append_nil]
  rfl

/-- Bytes behind others. Those in front may be refused, and those behind may not, because
    what is in front of them would stay. -/
theorem followed {next : Action Writer Unit} (h : Writes act result)
    (hnext : Writes next (.ok bytes)) :
    Writes (do act; next) (do return (← result) ++ bytes) := by
  intro w
  have hact := h w
  cases result with
  | error fault =>
      have hfault : (act w).result = .error fault := congrArg Outcome.result hact
      rw [Action.bind_error hfault, hact]
      rfl
  | ok front =>
      have hok : (act w).result = .ok () := congrArg Outcome.result hact
      have hstate : (act w).state = w.append front := congrArg Outcome.state hact
      rw [Action.bind_ok hok, hstate, hnext, hact]
      simp only [written, append_append]
      rfl

/-- A check before bytes. Nothing is written until it is passed. -/
theorem checked {check : Except Fault α} {act : α → Action Writer Unit}
    {result : α → Except Fault (List UInt8)} (h : ∀ a, Writes (act a) (result a)) :
    Writes (do act (← Action.ofExcept check)) (do result (← check)) := by
  intro w
  cases check with
  | error fault => rfl
  | ok a =>
      have hcheck : (Action.ofExcept (.ok a) w).result = .ok a := rfl
      rw [Action.bind_ok hcheck]
      exact h a w

theorem sizedOpcode (byteForm : UInt8) (w : Width) :
    Writes (Writer.sizedOpcode byteForm w) (.ok (w.opcode byteForm)) := by
  cases w with
  | byte | dword => exact raw _
  | word => exact (raw [operandSizeByte]).followed (raw _)

theorem selector (w : Width) : Writes (Writer.selector w) (.ok w.selector) := by
  cases w with
  | byte | dword => exact nothing
  | word => exact raw _

theorem groupRegister {w : Width} (byteForm : UInt8) (reg : BitVec 3) (r : Register w) :
    Writes (Writer.groupRegister byteForm reg r)
      (do return w.opcode byteForm ++ (← (Place.register r).encode reg)) := by
  have hpieces : ∀ rm, Writes
      (do Writer.sizedOpcode byteForm w; Writer.byte (modRM .direct reg rm)) _ :=
    fun rm => (sizedOpcode byteForm w).followed (raw _)
  rw [Place.encode, bind_assoc]
  exact checked hpieces

theorem groupMemory (w : Width) (byteForm : UInt8) (reg : BitVec 3) (m : Operand) :
    Writes (Writer.groupMemory w byteForm reg m)
      (do return w.opcode byteForm ++ (← m.encode reg)) := by
  refine checked fun operand => ?_
  exact (sizedOpcode byteForm w).followed (raw operand)

/-- The order of two registers does not matter to the fault, because there is one value for
    no register in each width. -/
theorem groupRegisters {w : Width} (byteForm : UInt8) (target source : Register w) :
    Writes (Writer.groupRegisters byteForm target source)
      (do
        let reg ← source.code
        return w.opcode byteForm ++ (← (Place.register target).encode reg)) := by
  have hpieces : Writes (Writer.groupRegisters byteForm target source) _ :=
    checked fun rm => checked fun reg =>
      (sizedOpcode byteForm w).followed (raw [modRM .direct reg rm])
  intro w'
  rw [hpieces w']
  refine congrArg w'.written ?_
  -- The pieces check the target first, and the encoder the source.
  simp only [Place.encode]
  cases htarget : target.code with
  | ok rm => rfl
  | error fault =>
      cases hsource : source.code with
      | ok reg => rfl
      | error fault' => exact congrArg _ (Register.code_error_unique htarget hsource)

theorem groupBoth {w : Width} (byteForm : UInt8) (m : Operand) (r : Register w) :
    Writes (Writer.groupBoth byteForm m r)
      (do
        let reg ← r.code
        return w.opcode byteForm ++ (← m.encode reg)) := by
  refine checked fun reg => ?_
  exact groupMemory w byteForm reg m

theorem fixedMemory (opcode : List UInt8) (reg : BitVec 3) (m : Operand) :
    Writes (Writer.fixedMemory opcode reg m) (do return opcode ++ (← m.encode reg)) := by
  refine checked fun operand => ?_
  exact (raw opcode).followed (raw operand)

theorem aluImmediate (w : Width) (operand : List UInt8) (value : Int) :
    Writes (Writer.aluImmediate w operand value)
      (.ok (Alu.encodeImmediate w operand value)) := by
  have hrest : ∀ width : Width, Writes (do Writer.raw operand; Writer.immediate width value)
      (.ok (operand ++ width.immediate value)) :=
    fun width => (raw operand).followed (raw _)
  have hform : ∀ (opcode : UInt8) (width : Width), Writes
      (do Writer.byte opcode; Writer.raw operand; Writer.immediate width value)
      (.ok (opcode :: operand ++ width.immediate value)) :=
    fun opcode width => (raw [opcode]).followed (hrest width)
  unfold Writer.aluImmediate Alu.encodeImmediate
  split
  · exact hform 0x80 w
  · -- The prefix stands in front of either form.
    split
    · rw [List.append_assoc]
      exact (selector w).followed (hform 0x83 .byte)
    · rw [List.append_assoc]
      exact (selector w).followed (hform 0x81 w)

/-- A relative branch depends on where the writer stands, and on nothing else of it. -/
theorem relative (w : Writer) (kind : Branch) (target : Address) :
    Writer.relative kind target w = w.written (kind.encode target w.position w.sizing) := by
  have hpieces : ∀ displacement : Int, Writes
      (do Writer.byte kind.opcode; Writer.raw (littleEndian 4 displacement))
      (.ok (kind.opcode :: littleEndian 4 displacement)) :=
    fun displacement => (raw [kind.opcode]).followed (raw _)
  have hencode : (do
      let displacement ← w.displacement target
      Except.ok (kind.opcode :: littleEndian 4 displacement)) =
        kind.encode target w.position w.sizing := by
    rw [displacement, Branch.encode]
    cases displacement32 (w.position + UInt64.ofNat Branch.size) target with
    | some displacement => rfl
    | none => cases w.sizing <;> rfl
  rw [← hencode]
  exact checked hpieces w

/-- The rounds of a sled write what they write one after another. -/
theorem forms (forms : List (List UInt8)) :
    Writes (forms.forM Writer.raw) (.ok forms.flatten) := by
  induction forms with
  | nil => exact nothing
  | cons form rest ih => exact (raw form).followed ih

end Writes

/-- An instruction is written as it is encoded where the writer stands, as a whole or not at
    all. -/
theorem write_encode (w : Writer) (i : Instruction) :
    write i w = w.written (i.encode w.position w.sizing) := by
  cases i with
  | unary op target =>
      -- A register and memory are written by two groups, with the same bytes in front.
      cases target with
      | register r => exact Writes.groupRegister _ _ r w
      | memory m => exact Writes.groupMemory _ _ _ m w
  | alu op target source =>
      cases target with
      | register r => exact Writes.groupRegisters _ r source w
      | memory m => exact Writes.groupBoth _ m source w
  | aluLoad op target source => exact Writes.groupBoth _ source target w
  | @aluImmediate width op target value =>
      cases target with
      | register r =>
          -- Both check the register before the immediate.
          rw [Instruction.encode, Place.encode, bind_assoc]
          exact Writes.checked (fun rm => .checked fun _ => .aluImmediate width _ value) w
      | memory m =>
          exact Writes.checked (fun _ => .checked fun _ => .aluImmediate width _ value) w
  | test left right => exact Writes.groupRegisters _ left right w
  | @testImmediate width left value =>
      -- The immediate is written last, when nothing can be refused any more.
      have hpieces := (Writes.groupRegister 0xF6 0#3 left).followed
        (.raw (width.immediate value))
      simp only [bind_assoc, pure_bind] at hpieces
      exact Writes.checked (fun _ => hpieces) w
  | mov target source =>
      cases target with
      | register r => exact Writes.groupRegisters _ r source w
      | memory m => exact Writes.groupBoth _ m source w
  | load target source => exact Writes.groupBoth _ source target w
  | @movImmediate width target value =>
      cases target with
      | register r =>
          -- The number of the register is added to the opcode.
          refine Writes.checked (fun code => .checked fun _ => ?_) w
          exact (Writes.selector width).followed ((Writes.raw [_]).followed (.raw _))
      | memory m =>
          have hpieces := (Writes.groupMemory width 0xC6 0#3 m).followed
            (.raw (width.immediate value))
          simp only [bind_assoc, pure_bind] at hpieces
          exact Writes.checked (fun _ => hpieces) w
  | lea target source => exact Writes.fixedMemory _ _ source w
  | pushMemory m => exact Writes.fixedMemory _ _ m w
  | popMemory m => exact Writes.fixedMemory _ _ m w
  | pushWord source =>
      exact Writes.checked (fun code => (Writes.raw [_]).followed (.raw [_])) w
  | popWord target =>
      exact Writes.checked (fun code => (Writes.raw [_, _]).followed (.raw [_])) w
  | branch kind target => exact Writes.relative w kind target
  | branchIndirect kind target =>
      cases target with
      | register r =>
          -- A register of 32 bits always has a number.
          rw [Instruction.encode, Place.encode_register r.code_dword]
          exact (Writes.raw [0xFF]).followed (.raw [_]) w
      | memory m => exact Writes.fixedMemory _ _ m w
  | nopSled count => exact Writes.forms (sledForms count) w
  | plain _ | data _ | pushDword _ => exact Writes.raw _ w
  | pushConstant32 _ | pushConstant8 _ | popDword _ | retDrop _ =>
      exact ((Writes.raw _).followed (Writes.raw _)) w

/-- What is left of a writer after an instruction. -/
theorem push_eq (w : Writer) (i : Instruction) :
    w.push i = match i.encode w.position w.sizing with
      | .ok bytes => (w.append bytes, none)
      | .error fault => (w, some fault) := by
  rw [push, write_encode]
  cases i.encode w.position w.sizing <;> rfl

theorem push_of_ok {w : Writer} {i : Instruction} {bytes : List UInt8}
    (h : i.encode w.position w.sizing = .ok bytes) : w.push i = (w.append bytes, none) := by
  rw [push_eq, h]

/-- A failed instruction leaves the writer as it was. -/
theorem push_of_error {w : Writer} {i : Instruction} {fault : Fault}
    (h : i.encode w.position w.sizing = .error fault) : w.push i = (w, some fault) := by
  rw [push_eq, h]

end Writer

end Hotpatch
