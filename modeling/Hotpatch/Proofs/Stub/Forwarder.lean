import Hotpatch.Proofs.Execution.Piece
import Hotpatch.Stub.Relocation

/-!
# Stubs In Pieces

Every stub is a frame set up, arguments moved, a call through a slot of the
frame, and the frame taken down. The parts that all stubs share are put
together once. What is left to be said of a single stub is a computation on
frames, in which the machine, the return address and the state in which the
callee returns are variables.

## Main definitions

* `Forwarder`: A stub in pieces.
* `Forwarder.Forwards`: What a stub does to frames.
* `Direction.forwarder`: The stubs by number of parameters.

## Theorems

* `bridges_of_forwards`: What a stub does to frames it does to machines.
* `forwards_forwarder`: Every stub forwards.
* `splice_template`: A template with a target put in is the code of its stub.
-/

namespace Hotpatch

/-- What every stub begins with: a frame on `ebp` with so many bytes, and the
    registers saved that a callee keeps. -/
def prologue (bytes : Nat) (h : bytes ≤ 127) : List Piece :=
  [.push .ebp, .copy .ebp .esp, .reserve bytes h, .push .ebx, .push .esi, .push .edi]

/-- What every stub ends with before it returns. -/
def epilogue : List Piece :=
  [.pop .edi, .pop .esi, .pop .ebx, .copy .esp .ebp, .pop .ebp]

/-- A stub in pieces: what comes before its call, the slot that it calls through,
    and how many words of arguments it removes. -/
structure Forwarder where
  head : List Piece
  slot : Int8
  words : Nat

namespace Forwarder

def code (b : Forwarder) : List UInt8 :=
  codeOf b.head ++ ((Piece.call b.slot).bytes ++ (codeOf epilogue ++ (Piece.leave b.words).bytes))

/-- What a stub does to frames, from any machine, with any return address pushed
    by its call, and with any machine in which the callee returns. It calls the
    target with the arguments that it was given. Afterwards the stack is as it
    was, the registers that a callee keeps have their first values, and the others
    those that its own callee left. -/
def Forwards (b : Forwarder) (d : Direction) (arity : Nat) (target : Word) : Prop :=
  ∀ (m : Machine) (returnTo : Word), ∃ called entered,
    (Frame.start m b.words).run b.head = some called ∧
    called.read (.memory .dword (frameOperand b.slot)) = some (.word target) ∧
    called.push (.word returnTo) = some entered ∧
    ((List.range arity).all fun i => (entered.argument d.inner i).isSome) ∧
    (List.range arity).map (entered.argument d.inner) =
      (List.range arity).map ((Frame.start m b.words).argument d.outer) ∧
    ∀ back : Machine, ∃ returned final,
      entered.returned (d.inner.stackWords arity) back = some returned ∧
      returned.run epilogue = some final ∧
      final.pointee .esp = some 0 ∧
      final.cells 0 = some (.word (m.word (place (m.registers .esp) 0))) ∧
      (∀ r ∈ Convention.preserved, final.registers r = .word (m.registers r)) ∧
      ∀ r ∈ Convention.scratch, final.registers r = .word (back.registers r)

end Forwarder

/-- The return of a stub whose stack is as it was at the beginning. -/
theorem Machine.execute_leave (m : Machine) {words : Nat} (h : words ≤ maxArity) :
    m.execute (Piece.leave words).reading = some ((m.drop (4 * (1 + words))).jump m.top) := by
  cases words with
  | zero => rfl
  | succ n =>
      -- The operand of the return has 16 bits, which a few words do not fill.
      have hmod : 4 + 4 * (n + 1) % 0x10000 = 4 * (1 + (n + 1)) := by
        simp only [maxArity] at h
        omega
      rw [← hmod]
      rfl

/-- A machine with its stack as it was at the beginning has returned after a
    return. -/
theorem Frame.Describes.leave {entered m : Machine} {base : Word} {code : List UInt8}
    {words : Nat} {f : Frame} (h : f.Describes entered base code words m) {c : Convention}
    {arity : Nat} (hwords : words = c.stackWords arity) (hesp : f.pointee .esp = some 0)
    (htop : f.cells 0 = some (.word (entered.word (place (entered.registers .esp) 0))))
    (hsaved : ∀ r ∈ Convention.preserved, f.registers r = .word (entered.registers r)) :
    c.Returns arity entered ((m.drop (4 * (1 + words))).jump m.top) := by
  have hzero : place (entered.registers .esp) 0 = entered.registers .esp := by
    rw [place, Int.mul_zero, BitVec.ofInt_ofNat, BitVec.add_zero]
  have hm : m.registers .esp = entered.registers .esp := by
    rw [h.pointee hesp, hzero]
  refine ⟨?_, ?_, ?_, ?_⟩
  · -- The return address is on top of the stack, where it was at the beginning.
    have hword := h.cells htop
    rw [Value.denote, hzero] at hword
    simp only [Machine.jump, Machine.top, hm, hword]
  · simp only [Machine.jump, Machine.drop, Machine.setRegister, if_true, hm, hwords]
  · intro r hr
    have hne : r ≠ .esp := Convention.ne_esp_of_mem (List.mem_append_left _ hr)
    simp only [Machine.jump, Machine.drop, Machine.setRegister, if_neg hne]
    rw [h.registers, hsaved r hr, Value.denote]
  · intro a ha
    exact h.above a (by omega)

/-- What a stub does to frames it does to machines. The run is followed through
    its frames up to the call, from the return of the callee on again, and then
    to the return of the stub. -/
theorem bridges_of_forwards {b : Forwarder} {d : Direction} {arity : Nat} {target : Word}
    (hwords : b.words = d.outer.stackWords arity) (hmax : b.words ≤ maxArity)
    (h : b.Forwards d arity target) : d.Bridges arity target b.code := by
  intro base m enters
  rw [← hwords] at enters
  have hstart := Frame.Describes.start enters
  -- The same code, cut where the machine is at each of the four moments.
  have hcall : b.code = codeOf b.head ++ ((Piece.call b.slot).bytes ++
    (codeOf epilogue ++ (Piece.leave b.words).bytes)) := rfl
  have hhead : b.code = [] ++ (codeOf b.head ++ ((Piece.call b.slot).bytes ++
    (codeOf epilogue ++ (Piece.leave b.words).bytes))) := rfl
  have htail : b.code = (codeOf b.head ++ (Piece.call b.slot).bytes) ++
      (codeOf epilogue ++ (Piece.leave b.words).bytes) := by
    rw [hcall, List.append_assoc]
  have hleave : b.code = (codeOf b.head ++ (Piece.call b.slot).bytes ++ codeOf epilogue) ++
      ((Piece.leave b.words).bytes ++ []) := by
    rw [htail, List.append_nil, List.append_assoc, List.append_assoc, List.append_assoc]
  have hpointer : m.pointer = base + BitVec.ofNat 32 ([] : List UInt8).length := by
    rw [enters.pointer, List.length_nil, BitVec.add_zero]
  rcases h m (base + BitVec.ofNat 32 (codeOf b.head ++ (Piece.call b.slot).bytes).length) with
    ⟨called, entered, hrun, hread, hpush, hsome, hsame, hback⟩
  -- Up to the call.
  rcases hstart.run enters hhead hpointer hrun with ⟨m₁, hpath₁, hd₁, hp₁⟩
  rcases hd₁.call enters hcall hp₁ hread hpush with ⟨entry, hpath₂, hentry, htop, hd₂⟩
  refine ⟨entry, hpath₁.trans hpath₂, hentry, ?_, ?_⟩
  · -- The arguments agree as values of the frame, so they do as words.
    intro i hi
    have hmem : i ∈ List.range arity := List.mem_range.mpr hi
    rcases Option.isSome_iff_exists.mp (List.all_eq_true.mp hsome i hmem) with ⟨v, hinner⟩
    have houter := List.map_inj_left.mp hsame i hmem
    rw [hinner] at houter
    rw [hd₂.argument hinner, hstart.argument houter.symm]
  · intro back hreturns hholds
    rcases hback back with ⟨returned, final, hret, hrun', hesp, htop', hsaved, hscratch⟩
    -- The callee returns to the address that the call pushed.
    have hd₃ := hd₂.returned enters hret hreturns hholds
    have hp₃ : back.pointer =
        base + BitVec.ofNat 32 (codeOf b.head ++ (Piece.call b.slot).bytes).length := by
      rw [hreturns.pointer, htop]
    rcases hd₃.run enters htail hp₃ hrun' with ⟨m₄, hpath₃, hd₄, hp₄⟩
    -- The last step is the return of the stub, after its frame was taken down.
    rcases hd₄.step_piece hleave hp₄ with ⟨hinside, hstep⟩
    rw [Machine.execute_leave _ hmax] at hstep
    refine ⟨_, hpath₃.trans (.single hinside hstep), ?_, ?_, ?_⟩
    · exact (hd₄.jump _).leave hwords hesp htop' hsaved
    · intro r hr
      have hne : r ≠ .esp := Convention.ne_esp_of_mem (List.mem_append_right _ hr)
      simp only [Machine.jump, Machine.drop, Machine.setRegister, if_neg hne]
      rw [hd₄.registers, hscratch r hr, Value.denote]
    · exact hd₄.above

namespace Direction

/-- The stubs by number of parameters. -/
def forwarder (d : Direction) (arity : Nat) (target : Word) : Forwarder :=
  match d, arity with
  | fastcallToStdcall, 0 =>
    ⟨prologue 0x44 (by omega) ++ [.plant (-4) target], -4, 0⟩
  | fastcallToStdcall, 1 =>
    ⟨prologue 0x48 (by omega) ++ [.store (-4) .ecx, .plant (-8) target, .fetch .eax (-4),
      .push .eax], -8, 0⟩
  | fastcallToStdcall, 2 =>
    ⟨prologue 0x4C (by omega) ++ [.store (-8) .edx, .store (-4) .ecx, .plant (-12) target,
      .fetch .eax (-8), .push .eax, .fetch .ecx (-4), .push .ecx], -12, 0⟩
  | fastcallToStdcall, _ =>
    ⟨prologue 0x4C (by omega) ++ [.store (-8) .edx, .store (-4) .ecx, .plant (-12) target,
      .fetch .eax 8, .push .eax, .fetch .ecx (-8), .push .ecx, .fetch .edx (-4),
      .push .edx], -12, 1⟩
  | stdcallToFastcall, 0 =>
    ⟨prologue 0x44 (by omega) ++ [.plant (-4) target], -4, 0⟩
  | stdcallToFastcall, 1 =>
    ⟨prologue 0x44 (by omega) ++ [.plant (-4) target, .fetch .ecx 8], -4, 1⟩
  | stdcallToFastcall, 2 =>
    ⟨prologue 0x44 (by omega) ++ [.plant (-4) target, .fetch .edx 12, .fetch .ecx 8], -4, 2⟩
  | stdcallToFastcall, _ =>
    ⟨prologue 0x44 (by omega) ++ [.plant (-4) target, .fetch .eax 16, .push .eax,
      .fetch .edx 12, .fetch .ecx 8], -4, 3⟩

/-- A number of parameters for which there is a stub. -/
theorem arity_cases {arity : Nat} (h : arity ≤ maxArity) :
    arity = 0 ∨ arity = 1 ∨ arity = 2 ∨ arity = 3 := by
  simp only [maxArity] at h
  omega

/-- Every stub forwards. Each of them is computed with as a whole, on frames whose
    values are variables. -/
theorem forwards_forwarder (d : Direction) {arity : Nat} (h : arity ≤ maxArity) (target : Word) :
    (d.forwarder arity target).Forwards d arity target := by
  have hcompute : (d.forwarder arity target).Forwards d arity (BitVec.ofNat 32 target.toNat) := by
    intro m returnTo
    -- Eight computations, in which the machines never have to be known.
    cases d <;> rcases arity_cases h with rfl | rfl | rfl | rfl <;>
      exact ⟨_, _, rfl, rfl, rfl, rfl, rfl, fun back => ⟨_, _, rfl, rfl, rfl, rfl,
        Convention.forall_preserved rfl rfl rfl rfl, Convention.forall_scratch rfl rfl rfl⟩⟩
  rwa [BitVec.ofNat_toNat, BitVec.setWidth_eq] at hcompute

theorem words_forwarder (d : Direction) {arity : Nat} (h : arity ≤ maxArity) (target : Word) :
    (d.forwarder arity target).words = d.outer.stackWords arity := by
  cases d <;> rcases arity_cases h with rfl | rfl | rfl | rfl <;> rfl

/-- A template with a target put in is the code of its stub. -/
theorem splice_template (d : Direction) {arity : Nat} (h : arity ≤ maxArity) (target : Word) :
    ∃ template, d.template arity = .ok template ∧
      splice (littleEndian 4 target.toNat) template = ((d.forwarder arity target).code, 1) := by
  cases d <;> rcases arity_cases h with rfl | rfl | rfl | rfl <;> exact ⟨_, rfl, rfl⟩

end Direction

end Hotpatch
