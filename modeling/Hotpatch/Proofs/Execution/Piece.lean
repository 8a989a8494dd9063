import Hotpatch.Proofs.Execution.Frame

/-!
# Pieces Of Code

The instructions that stubs consist of, each with its bytes and what they are
read as, and what frames say of code that is put together from them. A run of
such code is followed in its frames alone. Three places need more: the call,
where the machine leaves the code, the return of the callee, which may change
everything but what its convention protects, and the return of the code itself.

## Main definitions

* `Piece`: An instruction with its bytes.
* `Frame.run`: What pieces after each other do to a frame.
* `Frame.returned`: A frame after a callee has returned.
* `Frame.argument`: An argument in a frame.

## Theorems

* `Describes.run`: What a frame says of a run is true.
* `Describes.call`: The call.
* `Describes.returned`: The return of the callee.
* `Describes.leave`: The return of the code.
-/

namespace Hotpatch

/-- The operand at a distance from `ebp` that a signed byte holds. -/
def frameOperand (o : Int8) : EffectiveAddress :=
  .atOffset .ebp o.toInt32

def framePlace (o : Int8) : Place .dword :=
  .memory (.address (frameOperand o))

/-- An operand beside `ebp` takes a byte for its distance, also if that is
    zero. -/
theorem encode_framePlace (o : Int8) (reg : BitVec 3) :
    (framePlace o).encode reg = .ok (modRM .short reg 5#3 :: littleEndian 1 o.toInt) := by
  have hlow : (-128 : Int) ≤ o.toInt := o.le_toInt
  have hhigh : o.toInt < 128 := o.toInt_lt
  -- A signed byte does not change its value when it is widened.
  have hshort : (-128 : Int32) ≤ o.toInt32 ∧ o.toInt32 ≤ 127 := by
    constructor
    · rw [Int32.le_iff_toInt_le, Int8.toInt_toInt32]
      exact hlow
    · rw [Int32.le_iff_toInt_le, Int8.toInt_toInt32]
      exact Int.lt_add_one_iff.mp hhigh
  -- `ebp` has no form without a displacement, and every signed byte fits the short one.
  have hmode : EffectiveAddress.mode .ebp o.toInt32 = .short := by
    rw [EffectiveAddress.mode, if_neg (fun h => h.2 rfl), if_pos hshort]
  simp only [framePlace, Place.encode, Operand.encode, frameOperand, EffectiveAddress.atOffset,
    hmode, EffectiveAddress.encode, EffectiveAddress.displacementBytes, Int8.toInt_toInt32]
  rfl

/-- An instruction with its bytes and what they are read as. -/
structure Piece where
  bytes : List UInt8
  reading : Reading
  reads : Reads readInstruction bytes reading
  nonempty : 0 < bytes.length
  short : bytes.length ≤ 15

theorem reads_push (r : Register .dword) :
    Reads readInstruction [0x50 + UInt8.ofNat r.number.toNat] (.push, [.register r]) := by
  cases r <;> exact fun _ => rfl

theorem reads_pop (r : Register .dword) :
    Reads readInstruction [0x58 + UInt8.ofNat r.number.toNat] (.pop, [.register r]) := by
  cases r <;> exact fun _ => rfl

theorem reads_copy (target source : Register .dword) :
    Reads readInstruction [0x8B, modRM .direct target.number source.number]
      (.mov, [.register target, .register source]) := by
  have hload : Reads (readLoad .mov .dword) [modRM .direct target.number source.number]
      (.mov, [.register target, .register source]) := by
    intro rest
    simp only [List.cons_append, List.nil_append, readLoad, Reader.map, readPlace_register,
      Option.map_some, Slot.argument, Register.ofField_number]
  exact hload.of_opcode [0x8B] fun _ => rfl

theorem reads_reserve {bytes : Nat} (h : bytes ≤ 127) :
    Reads readInstruction (0x83 :: modRM .direct 5#3 4#3 :: littleEndian 1 bytes)
      (.alu .sub, [.register .esp, .immediate .dword bytes]) := by
  -- The byte is extended with its sign, which is not set for so small a number.
  have hb : Width.dword.reduce bytes = bytes := by
    apply Width.reduce_of_lt
    simp only [Width.modulus]
    omega
  have hfit : -128 ≤ (bytes : Int) ∧ (bytes : Int) ≤ 127 := by omega
  have hread := reads_group (p := .register .esp) group1 rfl rfl
    (Place.encode_register (Register.code_dword .esp) 5#3)
    (reads_shortImmediate (w := .dword) hfit)
  rw [hb] at hread
  exact hread.of_opcode [0x83] fun _ => rfl

theorem reads_storeFrame (o : Int8) (r : Register .dword) :
    Reads readInstruction (0x89 :: modRM .short r.number 5#3 :: littleEndian 1 o.toInt)
      (.mov, [.memory .dword (frameOperand o), .register r]) := by
  have hstore := reads_store (p := framePlace o) .mov rfl r.code_dword
    (encode_framePlace o r.number)
  exact hstore.of_opcode [0x89] fun _ => rfl

theorem reads_fetch (r : Register .dword) (o : Int8) :
    Reads readInstruction (0x8B :: modRM .short r.number 5#3 :: littleEndian 1 o.toInt)
      (.mov, [.register r, .memory .dword (frameOperand o)]) := by
  have hload : Reads (readLoad .mov .dword) _ _ :=
    reads_load .mov (rfl : (Operand.address (frameOperand o)).address? = _) r.code_dword
      (encode_framePlace o r.number)
  exact hload.of_opcode [0x8B] fun _ => rfl

theorem reads_plant (o : Int8) (v : Word) :
    Reads readInstruction
      (0xC7 :: modRM .short 0#3 5#3 :: (littleEndian 1 o.toInt ++ littleEndian 4 v.toNat))
      (.mov, [.memory .dword (frameOperand o), .immediate .dword v.toNat]) := by
  have hv : Width.dword.reduce v.toNat = v.toNat :=
    Width.reduce_of_lt (Int.ofNat_lt.mpr v.isLt)
  have hread := reads_group (p := framePlace o) (onlyMember .mov) rfl rfl
    (encode_framePlace o 0#3) (reads_immediate .dword v.toNat)
  rw [hv] at hread
  exact hread.of_opcode [0xC7] fun _ => rfl

theorem reads_callFrame (o : Int8) :
    Reads readInstruction (0xFF :: modRM .short 2#3 5#3 :: littleEndian 1 o.toInt)
      (.branch .call, [.memory .dword (frameOperand o)]) := by
  have hcall := reads_single (p := framePlace o) (group5 .dword) rfl rfl
    (encode_framePlace o 2#3)
  exact hcall.of_opcode [0xFF] fun _ => rfl

theorem reads_retDrop {bytes : Nat} (h : bytes < 0x10000) :
    Reads readInstruction (0xC2 :: littleEndian 2 bytes)
      (.plain .ret, [.immediate .word bytes]) := by
  have hread := (reads_immediate .word bytes).map fun a => (Mnemonic.plain .ret, [a])
  rw [Width.reduce_of_lt (by simp only [Width.modulus]; omega)] at hread
  exact hread.of_opcode [0xC2] fun _ => rfl

namespace Piece

/-- `push r`. -/
def push (r : Register .dword) : Piece where
  bytes := [0x50 + UInt8.ofNat r.number.toNat]
  reading := (.push, [.register r])
  reads := reads_push r
  nonempty := Nat.le_of_ble_eq_true rfl
  short := Nat.le_of_ble_eq_true rfl

/-- `pop r`, in the form that has the register in its opcode. -/
def pop (r : Register .dword) : Piece where
  bytes := [0x58 + UInt8.ofNat r.number.toNat]
  reading := (.pop, [.register r])
  reads := reads_pop r
  nonempty := Nat.le_of_ble_eq_true rfl
  short := Nat.le_of_ble_eq_true rfl

/-- `mov target, source` for registers, in the form that loads. -/
def copy (target source : Register .dword) : Piece where
  bytes := [0x8B, modRM .direct target.number source.number]
  reading := (.mov, [.register target, .register source])
  reads := reads_copy target source
  nonempty := Nat.le_of_ble_eq_true rfl
  short := Nat.le_of_ble_eq_true rfl

/-- `sub esp, bytes`, in the short form. -/
def reserve (bytes : Nat) (h : bytes ≤ 127) : Piece where
  bytes := 0x83 :: modRM .direct 5#3 4#3 :: littleEndian 1 bytes
  reading := (.alu .sub, [.register .esp, .immediate .dword bytes])
  reads := reads_reserve h
  nonempty := Nat.le_of_ble_eq_true rfl
  short := Nat.le_of_ble_eq_true rfl

/-- `mov [ebp+o], r`. -/
def store (o : Int8) (r : Register .dword) : Piece where
  bytes := 0x89 :: modRM .short r.number 5#3 :: littleEndian 1 o.toInt
  reading := (.mov, [.memory .dword (frameOperand o), .register r])
  reads := reads_storeFrame o r
  nonempty := Nat.le_of_ble_eq_true rfl
  short := Nat.le_of_ble_eq_true rfl

/-- `mov r, [ebp+o]`. -/
def fetch (r : Register .dword) (o : Int8) : Piece where
  bytes := 0x8B :: modRM .short r.number 5#3 :: littleEndian 1 o.toInt
  reading := (.mov, [.register r, .memory .dword (frameOperand o)])
  reads := reads_fetch r o
  nonempty := Nat.le_of_ble_eq_true rfl
  short := Nat.le_of_ble_eq_true rfl

/-- `mov dword [ebp+o], v`. -/
def plant (o : Int8) (v : Word) : Piece where
  bytes := 0xC7 :: modRM .short 0#3 5#3 :: (littleEndian 1 o.toInt ++ littleEndian 4 v.toNat)
  reading := (.mov, [.memory .dword (frameOperand o), .immediate .dword v.toNat])
  reads := reads_plant o v
  nonempty := Nat.le_of_ble_eq_true rfl
  short := Nat.le_of_ble_eq_true rfl

/-- `call [ebp+o]`. -/
def call (o : Int8) : Piece where
  bytes := 0xFF :: modRM .short 2#3 5#3 :: littleEndian 1 o.toInt
  reading := (.branch .call, [.memory .dword (frameOperand o)])
  reads := reads_callFrame o
  nonempty := Nat.le_of_ble_eq_true rfl
  short := Nat.le_of_ble_eq_true rfl

/-- `ret bytes`. -/
def retDrop (bytes : Nat) (h : bytes < 0x10000) : Piece where
  bytes := 0xC2 :: littleEndian 2 bytes
  reading := (.plain .ret, [.immediate .word bytes])
  reads := reads_retDrop h
  nonempty := Nat.le_of_ble_eq_true rfl
  short := Nat.le_of_ble_eq_true rfl

/-- `ret`. -/
def ret : Piece where
  bytes := [0xC3]
  reading := (.plain .ret, [])
  reads := fun _ => rfl
  nonempty := Nat.le_of_ble_eq_true rfl
  short := Nat.le_of_ble_eq_true rfl

/-- The return that removes so many words of arguments. -/
def leave : Nat → Piece
  | 0 => ret
  | words + 1 => retDrop (4 * (words + 1) % 0x10000) (Nat.mod_lt _ (Nat.zero_lt_succ _))

end Piece

/-- The bytes of pieces after each other. -/
def codeOf (pieces : List Piece) : List UInt8 :=
  pieces.flatMap Piece.bytes

namespace Frame

/-- What pieces after each other do to a frame. -/
def run (f : Frame) : List Piece → Option Frame
  | [] => some f
  | p :: pieces => do (← f.execute p.reading).run pieces

/-- A frame after a callee, with so many words of arguments on the stack, has
    returned as some machine. What was above its arguments is still known. -/
def returned (f : Frame) (words : Nat) (back : Machine) : Option Frame := do
  let o ← f.pointee .esp
  let _ ← f.cells o
  if o + 1 + words ≤ 0 then
    some {
      registers := fun r => if r = .esp then .place (o + 1 + words)
        else if r ∈ Convention.scratch then .word (back.registers r) else f.registers r
      cells := fun o' => if o + 1 + words ≤ o' then f.cells o' else none }
  else none

/-- An argument of the function that was entered in a frame. -/
def argument (f : Frame) (c : Convention) (i : Nat) : Option Value :=
  match c.registers[i]? with
  | some r => some (f.registers r)
  | none => do f.cells ((← f.pointee .esp) + (1 + (i - c.registers.length) : Nat))

namespace Describes

variable {entered : Machine} {base : Word} {code : List UInt8} {words : Nat} {f f' : Frame}
  {m : Machine}

/-- A machine at a piece of its code runs that piece. -/
theorem step_piece (h : f.Describes entered base code words m) {before after : List UInt8}
    {p : Piece} (hcode : code = before ++ (p.bytes ++ after))
    (pointer : m.pointer = base + BitVec.ofNat 32 before.length) :
    Machine.Inside base code m ∧
      m.step = (m.jump (base + BitVec.ofNat 32 (before.length + p.bytes.length))).execute
        p.reading := by
  have hlength : before.length < code.length := by
    have := p.nonempty
    rw [hcode, List.length_append, List.length_append]
    omega
  refine ⟨⟨h.holds, before.length, hlength, pointer⟩, ?_⟩
  have hholds := h.holds
  rw [hcode] at hholds
  exact Machine.step_of_reads hholds pointer p.reads p.short

/-- What a frame says of a run is true. The induction is on the pieces; those
    already run are in the code before the machine. -/
theorem run (enters : entered.Enters base code words)
    (h : f.Describes entered base code words m) {before after : List UInt8}
    {pieces : List Piece} (hcode : code = before ++ (codeOf pieces ++ after))
    (pointer : m.pointer = base + BitVec.ofNat 32 before.length)
    (hrun : f.run pieces = some f') :
    ∃ m', Machine.Path (Machine.Inside base code) m m' ∧
      f'.Describes entered base code words m' ∧
      m'.pointer = base + BitVec.ofNat 32 (before ++ codeOf pieces).length := by
  induction pieces generalizing f m before with
  | nil =>
      rw [Frame.run, Option.some.injEq] at hrun
      refine ⟨m, .refl m, ?_, ?_⟩
      · rw [← hrun]
        exact h
      · rw [pointer, codeOf, List.flatMap_nil, List.append_nil]
  | cons p pieces ih =>
      simp only [Frame.run, bind, Option.bind_eq_some_iff] at hrun
      rcases hrun with ⟨f₁, hp, hrun⟩
      rw [codeOf, List.flatMap_cons, List.append_assoc] at hcode
      -- The first piece is carried out, and then belongs to what was already run.
      rcases h.step_piece hcode pointer with ⟨hinside, hstep⟩
      rcases (h.jump _).execute enters hp with ⟨m₁, hm₁, hd₁, hp₁⟩
      rw [hm₁] at hstep
      rw [← List.append_assoc] at hcode
      have hpointer : m₁.pointer = base + BitVec.ofNat 32 (before ++ p.bytes).length := by
        rw [hp₁, List.length_append]
        rfl
      rcases ih hd₁ hcode hpointer hrun with ⟨m', hpath, hd, hp'⟩
      refine ⟨m', .step hinside hstep hpath, hd, ?_⟩
      rw [hp', codeOf, codeOf, List.flatMap_cons, List.append_assoc]

theorem argument (h : f.Describes entered base code words m) {c : Convention} {i : Nat}
    {v : Value} (ha : f.argument c i = some v) :
    c.argument m i = v.denote (entered.registers .esp) := by
  unfold Frame.argument at ha
  unfold Convention.argument
  cases hr : c.registers[i]? with
  | some r =>
      rw [hr] at ha
      rw [← Option.some.inj ha]
      exact h.registers r
  | none =>
      -- The arguments on the stack lie above the return address.
      simp only [hr, bind, Option.bind_eq_some_iff] at ha
      rcases ha with ⟨o, ho, hc⟩
      simp only
      rw [h.pointee ho, ← h.cells hc, place_add_words]

/-- The call of a word that is known. The machine leaves the code with the
    return address on its stack. -/
theorem call (enters : entered.Enters base code words)
    (h : f.Describes entered base code words m) {before after : List UInt8} {o : Int8}
    {target : Word} (hcode : code = before ++ ((Piece.call o).bytes ++ after))
    (pointer : m.pointer = base + BitVec.ofNat 32 before.length)
    (known : f.read (.memory .dword (frameOperand o)) = some (.word target))
    (hpush : f.push (.word (base + BitVec.ofNat 32 (before ++ (Piece.call o).bytes).length)) =
      some f') :
    ∃ entry, Machine.Path (Machine.Inside base code) m entry ∧ entry.pointer = target ∧
      entry.top = base + BitVec.ofNat 32 (before ++ (Piece.call o).bytes).length ∧
      f'.Describes entered base code words entry := by
  rcases h.step_piece hcode pointer with ⟨hinside, hstep⟩
  rw [← List.length_append] at hstep
  -- The target is read before the return address is pushed.
  have hjump := h.jump (base + BitVec.ofNat 32 (before ++ (Piece.call o).bytes).length)
  have hread := hjump.read known
  have hpushed := hjump.push enters hpush
  have hexecute := hstep.trans (Machine.execute_call hread)
  exact ⟨_, .single hinside hexecute, rfl, Machine.top_push _ _, hpushed.jump target⟩

/-- The return of a callee. It may have changed everything but what the frame
    still knows: the registers that callees keep, and memory above the
    arguments. -/
theorem returned (enters : entered.Enters base code words) {entry back : Machine}
    (h : f.Describes entered base code words entry) {c : Convention} {arity : Nat}
    (hr : f.returned (c.stackWords arity) back = some f') (returns : c.Returns arity entry back)
    (holds : back.Holds base code) : f'.Describes entered base code words back := by
  simp only [Frame.returned, bind, Option.bind_eq_some_iff] at hr
  rcases hr with ⟨o, ho, v, hv, hr⟩
  by_cases hbelow : o + 1 + c.stackWords arity ≤ 0
  · rw [if_pos hbelow, Option.some.injEq] at hr
    have hesp := h.pointee ho
    have hplace := toNat_place enters.room enters.fits (h.near hv)
    rw [← hesp] at hplace
    -- Above the arguments nothing has changed, and those are counted from the entry.
    have habove : ∀ a : Word,
        ((entered.registers .esp).toNat : Int) + 4 * (o + 1 + c.stackWords arity) ≤ a.toNat →
          back.memory a = entry.memory a := by
      intro a ha
      exact returns.above a (by omega)
    rw [← hr]
    refine ⟨?_, ?_, ?_, ?_, holds⟩
    · intro r
      simp only
      by_cases hsp : r = .esp
      · -- The callee has removed its return address and its arguments.
        rw [if_pos hsp, hsp, returns.stack, hesp, place_add_words, Int.add_assoc]
        rfl
      · rw [if_neg hsp]
        by_cases hscratch : r ∈ Convention.scratch
        · -- Whatever is in a scratch register is taken as it is.
          rw [if_pos hscratch]
          rfl
        · rw [if_neg hscratch, returns.saved r (Convention.mem_preserved hsp hscratch), h.registers]
    · -- A place that is still known lies above the arguments with all its bytes.
      intro o' v' hc
      simp only at hc
      by_cases ho' : o + 1 + c.stackWords arity ≤ o'
      · rw [if_pos ho'] at hc
        have hplace' := toNat_place enters.room enters.fits (h.near hc)
        rw [← h.cells hc]
        refine Machine.word_congr fun i hi => ?_
        have hfits := enters.fits
        have hnear := (h.near hc).2
        simp only [codeSpace] at hfits
        apply habove
        rw [BitVec.toNat_add, BitVec.toNat_ofNat]
        omega
      · rw [if_neg ho'] at hc
        exact absurd hc (by simp only [reduceCtorEq, not_false_eq_true])
    · intro o' v' hc
      simp only at hc
      by_cases ho' : o + 1 + c.stackWords arity ≤ o'
      · rw [if_pos ho'] at hc
        exact h.near hc
      · rw [if_neg ho'] at hc
        exact absurd hc (by simp only [reduceCtorEq, not_false_eq_true])
    · -- What was there before the code was entered is above the arguments too.
      intro a ha
      rw [habove a (by omega), h.above a ha]
  · rw [if_neg hbelow] at hr
    exact absurd hr (by simp only [reduceCtorEq, not_false_eq_true])

end Describes

end Frame

end Hotpatch
