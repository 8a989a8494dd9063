import Hotpatch.Proofs.Disassembly.Addressing

/-!
# Reading Instructions Back

Every instruction that has a reading is read as it, from its own bytes and none
after them. An instruction is an opcode and what follows, and the two are
handled apart. What follows is read by a few readers that all forms share, and
for each there is one lemma. The opcode only has to lead to the right reader,
which is a computation on a few constants.

## Main definitions

* `Reads`: A reader takes exactly some bytes for a value.

## Theorems

* `Reads.of_opcode`: An opcode leads to the reader of what follows it.
* `reads_store`, `reads_load`, `reads_group`, `reads_single`: The readers of
  operands.
* `reads_encodeImmediate`: The three forms of an operation on an immediate.
* `reads_toPlace`, `reads_fromMemory`, `reads_onMemory`: Families of instructions.
* `reads_encode`: An instruction is read as its reading.
* `reads_branch`: A relative branch is read with a displacement to its target.
-/

namespace Hotpatch

variable {α : Type} {w : Width}

/-- A reader takes exactly some bytes for a value, whatever follows them. -/
def Reads (r : Reader α) (bytes : List UInt8) (a : α) : Prop :=
  ∀ rest, r (bytes ++ rest) = some (a, rest)

/-- An opcode leads to the reader of what follows it. -/
theorem Reads.of_opcode {bytes : List UInt8} {r : Reader Reading} {a : Reading}
    (h : Reads r bytes a) (opcode : List UInt8)
    (ho : ∀ tail, readInstruction (opcode ++ tail) = r tail) :
    Reads readInstruction (opcode ++ bytes) a := by
  intro rest
  rw [List.append_assoc, ho]
  exact h rest

/-- A reader of a value reads a function of it from the same bytes. -/
theorem Reads.map {β : Type} {r : Reader α} {bytes : List UInt8} {a : α} (h : Reads r bytes a)
    (f : α → β) : Reads (r.map f) bytes (f a) := by
  intro rest
  simp only [Reader.map, h rest, Option.map_some]

/-- What succeeds after something else, the other succeeded before it. -/
theorem exists_ok_of_bind {ε β : Type} {x : Except ε α} {f : α → Except ε β} {b : β}
    (h : (x >>= f) = .ok b) : ∃ a, x = .ok a ∧ f a = .ok b := by
  cases x with
  | error fault => exact absurd h (by simp only [bind, Except.bind, reduceCtorEq,
      not_false_eq_true])
  | ok a => exact ⟨a, rfl, h⟩

theorem reads_immediate (w : Width) (value : Int) :
    Reads (readImmediate w) (w.immediate value) (.immediate w (w.reduce value)) := by
  intro rest
  exact readImmediate_immediate w value rest

/-- An immediate of a signed byte is extended to its width again. -/
theorem reads_shortImmediate {value : Int} (h : -128 ≤ value ∧ value ≤ 127) :
    Reads (readShortImmediate w) (Width.byte.immediate value)
      (.immediate w (w.reduce value)) := by
  intro rest
  -- Extended to 32 bits the value is itself, so reducing it gives what was asked for.
  have hread : signedByte (Width.byte.immediate value ++ rest) =
      some (Int32.ofInt value, rest) := signedByte_littleEndian h rest
  have hvalue : (Int32.ofInt value).toInt = value :=
    Int32.toInt_ofInt_of_le (by omega) (by omega)
  simp only [readShortImmediate, Reader.map, hread, Option.map_some, hvalue]

theorem reads_store {p : Place w} {a : Argument} {source : Register w} {code : BitVec 3}
    {bytes : List UInt8} (m : Mnemonic) (ha : p.argument? = some a)
    (hs : source.code = .ok code) (h : p.encode code = .ok bytes) :
    Reads (readStore m w) bytes (m, [a, .register source]) := by
  intro rest
  rcases readPlace_encode ha h rest with ⟨slot, hread, hslot⟩
  simp only [readStore, Reader.map, hread, Option.map_some, hslot,
    Register.ofField_code hs]

theorem reads_load {source : Operand} {a : EffectiveAddress} {target : Register w}
    {code : BitVec 3} {bytes : List UInt8} (m : Mnemonic) (ha : source.address? = some a)
    (ht : target.code = .ok code) (h : source.encode code = .ok bytes) :
    Reads (readLoad m w) bytes (m, [.register target, .memory w a]) := by
  intro rest
  have hplace : (Place.memory source : Place w).argument? = some (.memory w a) := by
    simp only [Place.argument?, ha, Option.map_some]
  rcases readPlace_encode hplace h rest with ⟨slot, hread, hslot⟩
  simp only [readLoad, Reader.map, hread, Option.map_some, hslot, Register.ofField_code ht]

theorem reads_group {p : Place w} {a value : Argument} {reg : BitVec 3} {m : Mnemonic}
    (select : Nat → Option Mnemonic) {immediate : Reader Argument}
    {bytes tail : List UInt8} (hm : select reg.toNat = some m)
    (ha : p.argument? = some a) (h : p.encode reg = .ok bytes)
    (hv : Reads immediate tail value) :
    Reads (readGroup select w immediate) (bytes ++ tail) (m, [a, value]) := by
  intro rest
  -- To the place, the immediate is part of what follows.
  rcases readPlace_encode ha h (tail ++ rest) with ⟨slot, hread, hslot⟩
  rw [List.append_assoc]
  simp only [readGroup, Reader.and, hread, hv rest, hm, hslot, bind, pure, Option.bind]

theorem reads_single {p : Place w} {a : Argument} {reg : BitVec 3} {m : Mnemonic}
    {bytes : List UInt8} (select : Nat → Option Mnemonic)
    (hm : select reg.toNat = some m) (ha : p.argument? = some a)
    (h : p.encode reg = .ok bytes) : Reads (readSingle select w) bytes (m, [a]) := by
  intro rest
  rcases readPlace_encode ha h rest with ⟨slot, hread, hslot⟩
  simp only [readSingle, hread, hm, hslot, bind, pure, Option.bind]

/-- The members of the third group that take no immediate. -/
theorem reads_group3 {p : Place w} {a : Argument} {reg : BitVec 3} {m : Mnemonic}
    {bytes : List UInt8} (hm : group3 reg.toNat = some m) (ha : p.argument? = some a)
    (h : p.encode reg = .ok bytes) : Reads (readGroup3 w) bytes (m, [a]) := by
  intro rest
  have hsingle := reads_single group3 hm ha h rest
  rcases readPlace_encode ha h rest with ⟨slot, hread, _⟩
  unfold readGroup3
  split
  · -- The first member has no operation without an immediate.
    next hzero =>
      rw [hread, Option.some.injEq, Prod.mk.injEq, Prod.mk.injEq] at hzero
      rw [hzero.1.1] at hm
      exact absurd hm (by simp only [group3, reduceCtorEq, not_false_eq_true])
  · exact hsingle

/-- The member of the third group that takes an immediate. -/
theorem reads_testImmediate {p : Place w} {a : Argument} {bytes : List UInt8} (value : Int)
    (ha : p.argument? = some a) (h : p.encode 0#3 = .ok bytes) :
    Reads (readGroup3 w) (bytes ++ w.immediate value)
      (.test, [a, .immediate w (w.reduce value)]) := by
  intro rest
  have hgroup := reads_group (onlyMember .test) rfl ha h
    (reads_immediate w value) rest
  -- The place is read twice, the first time for its `reg` field alone.
  rcases readPlace_encode ha h (w.immediate value ++ rest) with ⟨slot, hread, _⟩
  rw [← List.append_assoc] at hread
  simp only [readGroup3, hread, BitVec.reduceToNat]
  exact hgroup

theorem reads_address {source : Operand} {a : EffectiveAddress} {target : Register .dword}
    {bytes : List UInt8} (ha : source.address? = some a)
    (h : source.encode target.number = .ok bytes) :
    Reads (readAddress .dword) bytes (.lea, [.register target, .reference a]) := by
  intro rest
  cases source with
  | address b =>
      rw [Operand.address?, Option.some.injEq] at ha
      rw [← ha]
      have hread := readPlace_address h rest
      simp only [readAddress, hread, Register.ofField_number]
  | custom emit => exact absurd ha (by simp only [Operand.address?, reduceCtorEq,
      not_false_eq_true])

/-- The third group without an immediate and the two after it, by operation. -/
theorem reads_unary {p : Place w} {a : Argument} {bytes : List UInt8} (op : Unary)
    (ha : p.argument? = some a) (h : p.encode op.field = .ok bytes) :
    Reads readInstruction (w.opcode op.opcode ++ bytes) (.unary op, [a]) := by
  -- Two operations are in the groups after the third, which differ by width.
  cases op with
  | inc | dec =>
      cases w with
      | byte => exact (reads_single group4 rfl ha h).of_opcode _ fun _ => rfl
      | word => exact (reads_single (group5 .word) rfl ha h).of_opcode _ fun _ => rfl
      | dword => exact (reads_single (group5 .dword) rfl ha h).of_opcode _ fun _ => rfl
  | not | neg | mul | imul | div | idiv =>
      refine (reads_group3 rfl ha h).of_opcode _ ?_
      cases w <;> exact fun _ => rfl

/-- An operation on an immediate, in the form for a byte, the short form and the
    long one. -/
theorem reads_encodeImmediate {p : Place w} {a : Argument} {bytes : List UInt8} (op : Alu)
    (value : Int) (ha : p.argument? = some a) (h : p.encode op.field = .ok bytes) :
    Reads readInstruction (Alu.encodeImmediate w bytes value)
      (.alu op, [a, .immediate w (w.reduce value)]) := by
  have hm : group1 op.field.toNat = some (.alu op) := by
    cases op <;> rfl
  have hlong := reads_group group1 hm ha h (reads_immediate w value)
  unfold Alu.encodeImmediate
  by_cases hbyte : w = .byte
  · -- For a byte there is no shorter form.
    subst hbyte
    rw [if_pos rfl]
    exact hlong.of_opcode [0x80] fun _ => rfl
  · rw [if_neg hbyte]
    by_cases hvalue : -128 ≤ value ∧ value ≤ 127
    · -- A small value takes one byte, which is extended when it is read.
      rw [if_pos hvalue]
      have hshort := reads_group group1 hm ha h (reads_shortImmediate (w := w) hvalue)
      cases w with
      | byte => exact absurd rfl hbyte
      | word => exact hshort.of_opcode [0x66, 0x83] fun _ => rfl
      | dword => exact hshort.of_opcode [0x83] fun _ => rfl
    · rw [if_neg hvalue]
      cases w with
      | byte => exact absurd rfl hbyte
      | word => exact hlong.of_opcode [0x66, 0x81] fun _ => rfl
      | dword => exact hlong.of_opcode [0x81] fun _ => rfl

/-- An immediate stored to a register, whose number is part of the opcode. -/
theorem reads_movNamed {r : Register w} {code : BitVec 3} (hr : r.code = .ok code)
    (value : Int) :
    Reads readInstruction
      (w.selector ++ ((if w = .byte then 0xB0 else 0xB8) + UInt8.ofNat code.toNat) ::
        w.immediate value)
      (.mov, [.register r, .immediate w (w.reduce value)]) := by
  have hread : ∀ opcode, lowField opcode = code.toNat →
      Reads (readMovNamed w opcode) (w.immediate value)
        (.mov, [.register r, .immediate w (w.reduce value)]) := by
    intro opcode hlow rest
    simp only [readMovNamed, Reader.map, readImmediate_immediate, Option.map_some, hlow,
      Register.ofField_code hr]
  -- The number of the register is added to the opcode without a carry.
  cases r <;> simp only [Register.code, Except.ok.injEq, reduceCtorEq] at hr <;> subst hr
  case al | cl | dl | bl | ah | ch | dh | bh =>
    exact (hread _ rfl).of_opcode [_] fun _ => rfl
  case ax | cx | dx | bx | sp | bp | si | di =>
    exact (hread _ rfl).of_opcode [_, _] fun _ => rfl
  case eax | ecx | edx | ebx | esp | ebp | esi | edi =>
    exact (hread _ rfl).of_opcode [_] fun _ => rfl

theorem Width.reduce_of_lt {w : Width} {n : Nat} (h : (n : Int) < w.modulus) :
    w.reduce n = n := by
  rw [reduce, Int.emod_eq_of_lt (Int.natCast_nonneg n) h, Int.toNat_natCast]

/-- A constant that is written as it is, and so has to be within its width. -/
theorem reads_constant {n : Nat} (h : (n : Int) < w.modulus) (m : Mnemonic) :
    Reads ((readImmediate w).map fun a => (m, [a])) (w.immediate n) (m, [.immediate w n]) := by
  have hread := (reads_immediate w n).map fun a => (m, [a])
  rwa [Width.reduce_of_lt h] at hread

namespace Instruction

section Families

variable {bytes : List UInt8} {r : Reading} {m : Mnemonic} {byteForm : UInt8}

/-- The instructions on a place and a register, whose result is in the place. -/
theorem reads_toPlace {p : Place w} {source : Register w}
    (hlead : ∀ tail, readInstruction (w.opcode byteForm ++ tail) = readStore m w tail)
    (hr : (do return (m, [← p.argument?, .register source])) = some r)
    (h : (do
      let reg ← source.code
      return w.opcode byteForm ++ (← p.encode reg)) = .ok bytes) :
    Reads readInstruction bytes r := by
  rcases Option.bind_eq_some_iff.mp hr with ⟨a, ha, hr⟩
  rcases exists_ok_of_bind h with ⟨code, hc, h⟩
  rcases exists_ok_of_bind h with ⟨operand, ho, h⟩
  rw [← Option.some.inj hr, ← Except.ok.inj h]
  exact (reads_store m ha hc ho).of_opcode _ hlead

/-- The instructions on a register and memory, whose result is in the register. -/
theorem reads_fromMemory {target : Register w} {source : Operand}
    (hlead : ∀ tail, readInstruction (w.opcode byteForm ++ tail) = readLoad m w tail)
    (hr : (do return (m, [.register target, .memory w (← source.address?)])) = some r)
    (h : (do
      let reg ← target.code
      return w.opcode byteForm ++ (← source.encode reg)) = .ok bytes) :
    Reads readInstruction bytes r := by
  rcases Option.bind_eq_some_iff.mp hr with ⟨a, ha, hr⟩
  rcases exists_ok_of_bind h with ⟨code, hc, h⟩
  rcases exists_ok_of_bind h with ⟨operand, ho, h⟩
  rw [← Option.some.inj hr, ← Except.ok.inj h]
  exact (reads_load m ha hc ho).of_opcode _ hlead

/-- An operation on a place and an immediate. The immediate is checked after a register
    and before memory, but the bytes are the same. -/
theorem reads_aluImmediate {op : Alu} {p : Place w} {value : Int} {position : Address}
    (hr : (aluImmediate op p value).reading = some r)
    (h : (aluImmediate op p value).encode position false = .ok bytes) :
    Reads readInstruction bytes r := by
  rcases Option.bind_eq_some_iff.mp hr with ⟨a, ha, hr⟩
  rw [← Option.some.inj hr]
  have hbytes : ∃ operand, p.encode op.field = .ok operand ∧
      Alu.encodeImmediate w operand value = bytes := by
    cases p with
    | register t =>
        rcases exists_ok_of_bind h with ⟨operand, ho, h⟩
        rcases exists_ok_of_bind h with ⟨_, _, h⟩
        exact ⟨operand, ho, Except.ok.inj h⟩
    | memory m =>
        -- Here the check of the immediate is the first of the two.
        rcases exists_ok_of_bind h with ⟨_, _, h⟩
        rcases exists_ok_of_bind h with ⟨operand, ho, h⟩
        exact ⟨operand, ho, Except.ok.inj h⟩
  rcases hbytes with ⟨operand, ho, rfl⟩
  exact reads_encodeImmediate op value ha ho

/-- A constant stored to a place. A register has a form of its own, without a ModR/M
    byte. -/
theorem reads_movImmediate {p : Place w} {value : Int} {position : Address}
    (hr : (movImmediate p value).reading = some r)
    (h : (movImmediate p value).encode position false = .ok bytes) :
    Reads readInstruction bytes r := by
  rcases Option.bind_eq_some_iff.mp hr with ⟨a, ha, hr⟩
  rw [← Option.some.inj hr]
  cases p with
  | register t =>
      rcases exists_ok_of_bind h with ⟨code, hc, h⟩
      rcases exists_ok_of_bind h with ⟨_, _, h⟩
      rw [Place.argument?, Option.some.injEq] at ha
      rw [← Except.ok.inj h, ← ha]
      exact reads_movNamed hc value
  | memory m =>
      rcases exists_ok_of_bind h with ⟨_, _, h⟩
      rcases exists_ok_of_bind h with ⟨operand, ho, h⟩
      -- The only member of its group, with the immediate behind the place.
      rw [← Except.ok.inj h, List.append_assoc]
      have hread := reads_group (p := .memory m) (onlyMember .mov) rfl ha ho
        (reads_immediate w value)
      refine hread.of_opcode _ ?_
      cases w <;> exact fun _ => rfl

/-- The comparison of a register with a constant by bits. -/
theorem reads_testRegister {left : Register w} {value : Int} {position : Address}
    (h : (testImmediate left value).encode position false = .ok bytes) :
    Reads readInstruction bytes (.test, [.register left, .immediate w (w.reduce value)]) := by
  rcases exists_ok_of_bind h with ⟨_, _, h⟩
  rcases exists_ok_of_bind h with ⟨operand, ho, h⟩
  -- The immediate belongs to what follows the opcode.
  rw [← Except.ok.inj h, List.append_assoc]
  have hplace : (Place.register left).argument? = some (.register left) := rfl
  refine (reads_testImmediate value hplace ho).of_opcode _ ?_
  cases w <;> exact fun _ => rfl

/-- The instructions on one dword of memory that are told apart by a `reg` field. -/
theorem reads_onMemory {source : Operand} {reg : BitVec 3} {opcode : UInt8}
    {select : Nat → Option Mnemonic} (hselect : select reg.toNat = some m)
    (hlead : ∀ tail, readInstruction (opcode :: tail) = readSingle select .dword tail)
    (hr : (do return (m, [.memory .dword (← source.address?)])) = some r)
    (h : (do return opcode :: (← source.encode reg)) = .ok bytes) :
    Reads readInstruction bytes r := by
  rcases Option.bind_eq_some_iff.mp hr with ⟨a, ha, hr⟩
  rcases exists_ok_of_bind h with ⟨operand, ho, h⟩
  rw [← Option.some.inj hr, ← Except.ok.inj h]
  have hplace : (Place.memory source : Place .dword).argument? = some (.memory .dword a) := by
    rw [Place.argument?, ha, Option.map_some]
  exact (reads_single select hselect hplace ho).of_opcode [opcode] hlead

end Families

/-- An instruction that has a reading is read as it. The cases are those of the
    encoder. Each hands what it wrote after the opcode to the reader that the
    opcode leads to. -/
theorem reads_encode {i : Instruction} {position : Address} {bytes : List UInt8} {r : Reading}
    (hr : i.reading = some r) (h : i.encode position false = .ok bytes) :
    Reads readInstruction bytes r := by
  cases i with
  | unary op target =>
      rcases Option.bind_eq_some_iff.mp hr with ⟨a, ha, hr⟩
      rcases exists_ok_of_bind h with ⟨operand, ho, h⟩
      rw [← Option.some.inj hr, ← Except.ok.inj h]
      exact reads_unary op ha ho
  | @alu w op target source =>
      -- The opcode holds the operation and the width, so it is computed for each.
      refine reads_toPlace ?_ hr h
      cases op <;> cases w <;> exact fun _ => rfl
  | @aluLoad w op target source =>
      refine reads_fromMemory ?_ hr h
      cases op <;> cases w <;> exact fun _ => rfl
  | aluImmediate op target value => exact reads_aluImmediate hr h
  | @test w left right =>
      refine reads_toPlace (p := .register left) ?_ hr h
      cases w <;> exact fun _ => rfl
  | testImmediate left value =>
      rw [← Option.some.inj hr]
      exact reads_testRegister h
  | @mov w target source =>
      refine reads_toPlace ?_ hr h
      cases w <;> exact fun _ => rfl
  | @load w target source =>
      refine reads_fromMemory ?_ hr h
      cases w <;> exact fun _ => rfl
  | movImmediate target value => exact reads_movImmediate hr h
  | lea target source =>
      -- Only of a memory operand is there an address to load.
      rcases Option.bind_eq_some_iff.mp hr with ⟨a, ha, hr⟩
      rcases exists_ok_of_bind h with ⟨operand, ho, h⟩
      rw [← Option.some.inj hr, ← Except.ok.inj h]
      exact (reads_address ha ho).of_opcode [0x8D] fun _ => rfl
  | pushDword source =>
      rw [← Option.some.inj hr, ← Except.ok.inj h]
      cases source <;> exact fun _ => rfl
  | pushWord source =>
      rcases exists_ok_of_bind h with ⟨code, hc, h⟩
      rw [← Option.some.inj hr, ← Except.ok.inj h]
      -- The register that stands for none has no code, so it does not come this far.
      cases source <;> cases hc <;> exact fun _ => rfl
  | pushMemory source => exact reads_onMemory rfl (fun _ => rfl) hr h
  | pushConstant32 value =>
      -- The constants are within their widths, so they are read as they are.
      have hlt : (value.toNat : Int) < Width.dword.modulus := Int.ofNat_lt.mpr value.toNat_lt
      rw [← Option.some.inj hr, ← Except.ok.inj h]
      exact (reads_constant hlt .push).of_opcode [0x68] fun _ => rfl
  | pushConstant8 value =>
      have hfit : -128 ≤ value.toInt ∧ value.toInt ≤ 127 :=
        ⟨value.le_toInt, Int.lt_add_one_iff.mp value.toInt_lt⟩
      have hread := (reads_shortImmediate (w := .dword) hfit).map fun a => (Mnemonic.push, [a])
      rw [← Option.some.inj hr, ← Except.ok.inj h]
      exact hread.of_opcode [0x6A] fun _ => rfl
  | popDword target =>
      rw [← Option.some.inj hr, ← Except.ok.inj h]
      cases target <;> exact fun _ => rfl
  | popWord target =>
      rcases exists_ok_of_bind h with ⟨code, hc, h⟩
      rw [← Option.some.inj hr, ← Except.ok.inj h]
      cases target <;> cases hc <;> exact fun _ => rfl
  | popMemory target => exact reads_onMemory rfl (fun _ => rfl) hr h
  | branchIndirect kind target =>
      rcases Option.bind_eq_some_iff.mp hr with ⟨a, ha, hr⟩
      rcases exists_ok_of_bind h with ⟨operand, ho, h⟩
      -- Calls and jumps are members of the fifth group.
      have hselect : group5 .dword kind.field.toNat = some (.branch kind) := by
        cases kind <;> rfl
      rw [← Option.some.inj hr, ← Except.ok.inj h]
      exact (reads_single (group5 .dword) hselect ha ho).of_opcode [0xFF] fun _ => rfl
  | retDrop drop =>
      have hlt : (drop.toNat : Int) < Width.word.modulus := Int.ofNat_lt.mpr drop.toNat_lt
      rw [← Option.some.inj hr, ← Except.ok.inj h]
      exact (reads_constant hlt (.plain .ret)).of_opcode [0xC2] fun _ => rfl
  | plain op =>
      -- Each has an opcode of its own, and nothing follows it.
      rw [← Option.some.inj hr, ← Except.ok.inj h]
      cases op <;> exact fun _ => rfl
  | branch kind target | nopSled count | data bytes =>
      -- These have no reading of their own.
      exact absurd hr (by simp only [reading, reduceCtorEq, not_false_eq_true])

end Instruction

/-- A word taken for a signed number and put back is the word. -/
theorem ofInt_toInt64 (x : UInt64) : UInt64.ofInt x.toInt64.toInt = x := by
  have hlt : x.toNat < 18446744073709551616 := x.toNat_lt
  have hsigned : x.toInt64.toInt = (x.toNat : Int).bmod 18446744073709551616 :=
    BitVec.toInt_eq_toNat_bmod x.toBitVec
  apply UInt64.toNat_inj.mp
  rw [UInt64.ofInt, UInt64.toNat_ofNat', hsigned, Int.bmod]
  omega

/-- A dword taken for a signed number, extended and cut off again is the dword. -/
theorem toUInt32_ofInt_toInt32 (x : UInt32) : (UInt64.ofInt x.toInt32.toInt).toUInt32 = x := by
  have hlt : x.toNat < 4294967296 := x.toNat_lt
  have hsigned : x.toInt32.toInt = (x.toNat : Int).bmod 4294967296 :=
    BitVec.toInt_eq_toNat_bmod x.toBitVec
  apply UInt32.toNat_inj.mp
  rw [UInt64.toNat_toUInt32, UInt64.ofInt, UInt64.toNat_ofNat', hsigned, Int.bmod]
  omega

/-- A displacement leads where it was computed for. Over a distance of less than
    two gigabytes that is exact; otherwise both addresses lie in the first four
    gigabytes, and it holds there. -/
theorem reaches_of_displacement32 {next target : Address} {d : Int32}
    (h : displacement32 next target = some d) : Reaches next d target := by
  unfold displacement32 at h
  simp only at h
  by_cases hnear : -0x80000000 ≤ (target - next).toInt64.toInt ∧
      (target - next).toInt64.toInt < 0x80000000
  · rw [if_pos hnear, Option.some.injEq] at h
    have hd : d.toInt = (target - next).toInt64.toInt := by
      rw [← h]
      exact Int32.toInt_ofInt_of_le hnear.1 hnear.2
    -- The distance is taken modulo the address space, so adding it leads back.
    have hdest : destination next d = target := by
      rw [destination, hd, ofInt_toInt64, UInt64.add_comm, UInt64.sub_add_cancel]
    exact ⟨by rw [hdest], fun _ => hdest⟩
  · rw [if_neg hnear] at h
    by_cases hlow : next.toNat < codeSpace ∧ target.toNat < codeSpace
    · -- Both addresses are low, and the distance wraps where the code does.
      rw [if_pos hlow, Option.some.injEq] at h
      refine ⟨?_, fun hhigh => by omega⟩
      rw [destination, ← h, UInt64.toUInt32_add, toUInt32_ofInt_toInt32, UInt32.add_comm,
        UInt32.sub_add_cancel]
    · rw [if_neg hlow] at h
      exact absurd h (by simp only [reduceCtorEq, not_false_eq_true])

/-- A relative branch is read with a displacement to its target. -/
theorem reads_branch {kind : Branch} {target position : Address} {bytes : List UInt8}
    (h : kind.encode target position false = .ok bytes) :
    bytes.length = Branch.size ∧ ∃ d, Reads readInstruction bytes (.branch kind, [.relative d]) ∧
      Reaches (position + UInt64.ofNat Branch.size) d target := by
  unfold Branch.encode at h
  split at h
  · next d hd =>
      have hd' : Reads signedDword (littleEndian 4 d.toInt) d :=
        fun rest => signedDword_littleEndian d rest
      have hread := hd'.map fun d => (Mnemonic.branch kind, [Argument.relative d])
      rw [← Except.ok.inj h]
      -- Distances are counted from the end of the branch.
      refine ⟨rfl, d, ?_, reaches_of_displacement32 hd⟩
      cases kind with
      | call => exact hread.of_opcode [0xE8] fun _ => rfl
      | jump => exact hread.of_opcode [0xE9] fun _ => rfl
  · -- Only a sizing pass lets a branch go that is out of range.
    exact absurd h (by simp only [Bool.false_eq_true, if_false, reduceCtorEq,
      not_false_eq_true])

end Hotpatch
