import Hotpatch.Proofs.Reach.Displacement
import Hotpatch.Proofs.Sizing.Lockstep

/-!
# What the Encoder Refuses

An instruction is refused for its operands alone, or for where a relative branch
stands. There are four grounds: an operand that stands for no register, an
immediate that is no number of the width, a memory operand that rejects the field
it is given, and a branch out of reach. Which fault is reported depends on the
order of the checks, but whether there is one does not. So each ground is said of
the instruction without that order, and the checks of an instruction come down to
rules for what is done one after the other.

## Main definitions

* `Fails`: A computation that ends with a fault.
* `Register.IsNone`, `Operand.Rejects`: When a single operand is refused.
* `Instruction.NamesNone`, `Instruction.Overflows`, `Instruction.Rejected`,
  `Instruction.Unreachable`: The grounds to refuse an instruction.
* `Instruction.Refused`: Whether there is a ground.

## Theorems

* `fails_bind_iff`, `fails_seq_iff`: What is done one after the other.
* `Instruction.encode_fails_iff`: An instruction fails exactly if it is refused.
* `push_refuses`: What a writer is left with.
-/

namespace Hotpatch

section Fails

variable {ε α β : Type} {x : Except ε α} {f : α → Except ε β}

/-- A computation that ends with a fault. -/
def Fails (x : Except ε α) : Prop :=
  ∃ fault, x = .error fault

theorem not_fails_ok (a : α) : ¬ Fails (.ok a : Except ε α) := by
  rintro ⟨fault, h⟩
  exact absurd h nofun

/-- What is done one after the other fails at the one or at the other. -/
theorem fails_bind_iff : Fails (x >>= f) ↔ Fails x ∨ ∃ a, x = .ok a ∧ Fails (f a) := by
  cases x with
  | error fault => exact iff_of_true ⟨fault, rfl⟩ (.inl ⟨fault, rfl⟩)
  | ok a =>
      rw [or_iff_right (not_fails_ok a)]
      refine ⟨fun h => ⟨a, rfl, h⟩, ?_⟩
      rintro ⟨_, h, hfails⟩
      cases h
      exact hfails

/-- If the second part fails whatever the first gave, the order does not matter. -/
theorem fails_seq_iff {P : Prop} (h : ∀ a, Fails (f a) ↔ P) : Fails (x >>= f) ↔ Fails x ∨ P := by
  rw [fails_bind_iff]
  simp only [h]
  cases x with
  | error fault => exact iff_of_true (.inl ⟨fault, rfl⟩) (.inl ⟨fault, rfl⟩)
  | ok a => exact or_congr_right ⟨fun ⟨_, _, hp⟩ => hp, fun hp => ⟨a, rfl, hp⟩⟩

/-- What is only put together from a result adds no fault. -/
theorem fails_map_iff {g : α → β} : Fails (x >>= fun a => pure (g a)) ↔ Fails x := by
  have hg : ∀ a, Fails (pure (g a) : Except ε β) ↔ False :=
    fun a => iff_false_intro (not_fails_ok (g a))
  rw [fails_seq_iff hg, or_false]

end Fails

section Operands

variable {w : Width}

/-- The value that stands for no register. -/
def Register.IsNone : {w : Width} → Register w → Prop
  | _, none8 | _, none16 => True
  | _, _ => False

/-- A memory operand refuses to be named beside a field: an address exactly if its
    index is `esp`, and an operand of the user's own if that fails, whatever it has
    appended. -/
def Operand.Rejects (reg : BitVec 3) : Operand → Prop
  | address a => ∃ scale, a.index = some (.esp, scale)
  | custom emit => (emit (UInt8.ofNat reg.toNat)).fault ≠ none

def Place.IsNone : Place w → Prop
  | register r => r.IsNone
  | memory _ => False

def Place.Rejects (reg : BitVec 3) : Place w → Prop
  | register _ => False
  | memory m => m.Rejects reg

theorem Register.code_fails_iff (r : Register w) : Fails r.code ↔ r.IsNone := by
  cases r with
  | none8 => exact iff_of_true ⟨_, rfl⟩ trivial
  | none16 => exact iff_of_true ⟨_, rfl⟩ trivial
  | _ => exact iff_of_false (not_fails_ok _) id

theorem Register.not_isNone (r : Register .dword) : ¬ r.IsNone := by
  cases r <;> exact id

theorem EffectiveAddress.encode_fails_iff (a : EffectiveAddress) (reg : BitVec 3) :
    Fails (a.encode reg) ↔ ∃ scale, a.index = some (.esp, scale) := by
  rcases a with ⟨base, _ | ⟨index, scale⟩, displacement⟩
  · -- Without an index every base has a form.
    refine iff_of_false ?_ nofun
    rcases base with _ | base
    · exact not_fails_ok _
    · cases base <;> exact not_fails_ok _
  · cases index with
    | esp =>
        -- The number of `esp` in the index field says that there is none.
        refine iff_of_true ?_ ⟨scale, rfl⟩
        rcases base with _ | base
        · exact ⟨_, rfl⟩
        · cases base <;> exact ⟨_, rfl⟩
    | _ =>
        refine iff_of_false ?_ nofun
        rcases base with _ | base
        · exact not_fails_ok _
        · cases base <;> exact not_fails_ok _

theorem Operand.encode_fails_iff (m : Operand) (reg : BitVec 3) :
    Fails (m.encode reg) ↔ m.Rejects reg := by
  cases m with
  | address a => exact a.encode_fails_iff reg
  | custom emit =>
      simp only [encode, Rejects]
      cases (emit (UInt8.ofNat reg.toNat)).fault with
      | none => exact iff_of_false (not_fails_ok _) (not_not_intro rfl)
      | some fault => exact iff_of_true ⟨fault, rfl⟩ (Option.some_ne_none fault)

theorem Register.encode_place_fails_iff (r : Register w) (reg : BitVec 3) :
    Fails ((Place.register r).encode reg) ↔ r.IsNone := by
  refine fails_map_iff.trans ?_
  exact r.code_fails_iff

theorem Place.encode_fails_iff (p : Place w) (reg : BitVec 3) :
    Fails (p.encode reg) ↔ p.IsNone ∨ p.Rejects reg := by
  cases p with
  | register r => exact (r.encode_place_fails_iff reg).trans (or_false _).to_iff.symm
  | memory m => exact (m.encode_fails_iff reg).trans (false_or _).to_iff.symm

theorem Width.requireFits_fails_iff (value : Int) :
    Fails (w.requireFits value) ↔ ¬ w.Fits value := by
  unfold requireFits
  split
  · next h => exact iff_of_false (not_fails_ok _) (not_not_intro h)
  · next h => exact iff_of_true ⟨_, rfl⟩ h

theorem Branch.encode_fails_iff {kind : Branch} {target position : Address} {sizing : Bool} :
    Fails (kind.encode target position sizing) ↔
      sizing = false ∧ ∀ d, ¬ Reaches (position + UInt64.ofNat Branch.size) d target := by
  by_cases hreach : ∃ d, Reaches (position + UInt64.ofNat Branch.size) d target
  · rcases hreach with ⟨d, hd⟩
    rw [encode_of_reaches hd]
    exact iff_of_false (not_fails_ok _) fun h => h.2 d hd
  · have hnone := not_exists.mp hreach
    cases sizing with
    | false =>
        rw [encode_of_unreachable hnone]
        exact iff_of_true ⟨_, rfl⟩ ⟨rfl, hnone⟩
    | true =>
        -- For the length it does not matter where the branch leads.
        rcases kind.encode_sizing target position with ⟨bytes, hbytes, -⟩
        rw [hbytes]
        exact iff_of_false (not_fails_ok _) fun h => absurd h.1 nofun

end Operands

namespace Instruction

/-- A register operand stands for no register. -/
def NamesNone : Instruction → Prop
  | unary _ target => target.IsNone
  | alu _ target source | mov target source => target.IsNone ∨ source.IsNone
  | aluLoad _ target _ | load target _ => target.IsNone
  | aluImmediate _ target _ | movImmediate target _ => target.IsNone
  | test left right => left.IsNone ∨ right.IsNone
  | testImmediate left _ => left.IsNone
  | lea target _ => target.IsNone
  | pushDword source => source.IsNone
  | pushWord source => source.IsNone
  | popDword target => target.IsNone
  | popWord target => target.IsNone
  | branchIndirect _ target => target.IsNone
  | pushMemory _ | popMemory _ | pushConstant32 _ | pushConstant8 _ | branch _ _ | retDrop _
  | plain _ | nopSled _ | data _ => False

/-- An immediate is no number of the operand's width, signed or unsigned. -/
def Overflows : Instruction → Prop
  | @aluImmediate w _ _ value | @testImmediate w _ value | @movImmediate w _ value =>
    ¬ w.Fits value
  | _ => False

/-- A memory operand rejects the field that the instruction puts beside it: the number
    of a register, or what selects the operation. -/
def Rejected : Instruction → Prop
  | unary op target => target.Rejects op.field
  | alu _ target source | mov target source => ∃ reg, source.code = .ok reg ∧ target.Rejects reg
  | aluLoad _ target source | load target source =>
    ∃ reg, target.code = .ok reg ∧ source.Rejects reg
  | aluImmediate op target _ => target.Rejects op.field
  | movImmediate target _ => target.Rejects 0#3
  | lea target source => source.Rejects target.number
  | pushMemory source => source.Rejects 6#3
  | popMemory target => target.Rejects 0#3
  | branchIndirect kind target => target.Rejects kind.field
  | _ => False

/-- No displacement leads from a relative branch that stands at `position` to its
    target. -/
def Unreachable (position : Address) : Instruction → Prop
  | branch _ target => ∀ d, ¬ Reaches (position + UInt64.ofNat Branch.size) d target
  | _ => False

/-- There is a ground to refuse the instruction. A sizing pass does not mind where
    a branch leads. -/
def Refused (i : Instruction) (position : Address) (sizing : Bool) : Prop :=
  i.NamesNone ∨ i.Overflows ∨ i.Rejected ∨ sizing = false ∧ i.Unreachable position

section Beside

variable {w : Width} {r : Register w} {N : Prop} {R : BitVec 3 → Prop}

/-- A register whose number stands beside what is checked next. -/
theorem fails_beside_iff {f : BitVec 3 → Except Fault (List UInt8)}
    (h : ∀ reg, Fails (f reg) ↔ R reg) :
    Fails (r.code >>= f) ↔ r.IsNone ∨ ∃ reg, r.code = .ok reg ∧ R reg := by
  rw [fails_bind_iff, r.code_fails_iff]
  simp only [h]

/-- What does not depend on the number can be said apart from it. -/
theorem beside_or_iff : (r.IsNone ∨ ∃ reg, r.code = .ok reg ∧ (N ∨ R reg)) ↔
    (N ∨ r.IsNone) ∨ ∃ reg, r.code = .ok reg ∧ R reg := by
  rcases hcode : r.code with fault | reg
  · have hnone : r.IsNone := r.code_fails_iff.mp ⟨fault, hcode⟩
    exact iff_of_true (.inl hnone) (.inl (.inr hnone))
  · simp only [Except.ok.injEq, exists_eq_left']
    rw [or_left_comm, or_assoc]

end Beside

/-- An instruction fails exactly if there is a ground to refuse it. -/
theorem encode_fails_iff (i : Instruction) (position : Address) (sizing : Bool) :
    Fails (i.encode position sizing) ↔ i.Refused position sizing := by
  cases i
  case aluImmediate w op target value =>
    -- A register is checked before the immediate, and memory after it.
    have hvalue : ∀ operand,
        Fails (w.requireFits value >>= fun _ => pure (Alu.encodeImmediate w operand value)) ↔
          ¬ w.Fits value := fun _ => fails_map_iff.trans (Width.requireFits_fails_iff value)
    cases target with
    | register r =>
        simp only [encode, Refused, NamesNone, Overflows, Rejected, Place.Rejects, Unreachable,
          and_false, or_false]
        rw [fails_seq_iff hvalue, r.encode_place_fails_iff]
        rfl
    | memory m =>
        simp only [encode, Refused, NamesNone, Overflows, Rejected, Place.IsNone, Unreachable,
          and_false, or_false, false_or]
        rw [fails_seq_iff fun _ => fails_map_iff.trans (m.encode_fails_iff op.field),
          Width.requireFits_fails_iff]
        rfl
  case movImmediate w target value =>
    -- Here a register is only named in the opcode.
    cases target with
    | register r =>
        simp only [encode, Refused, NamesNone, Overflows, Rejected, Place.Rejects, Unreachable,
          and_false, or_false]
        rw [fails_seq_iff fun _ => fails_map_iff.trans (Width.requireFits_fails_iff value),
          r.code_fails_iff]
        rfl
    | memory m =>
        simp only [encode, Refused, NamesNone, Overflows, Rejected, Place.IsNone, Unreachable,
          and_false, or_false, false_or]
        rw [fails_seq_iff fun _ => fails_map_iff.trans (m.encode_fails_iff 0#3),
          Width.requireFits_fails_iff]
        rfl
  all_goals
    simp only [encode, Refused, NamesNone, Overflows, Rejected, Unreachable, and_false, or_false,
      false_or]
  case unary op target => exact fails_map_iff.trans (target.encode_fails_iff _)
  -- The number of the source is the field that stands beside the target.
  case alu target source | mov target source =>
    exact (fails_beside_iff fun reg => fails_map_iff.trans (target.encode_fails_iff reg)).trans
      beside_or_iff
  case aluLoad target source | load target source =>
    exact fails_beside_iff fun reg => fails_map_iff.trans (source.encode_fails_iff reg)
  case test left right =>
    rw [fails_seq_iff fun reg => fails_map_iff.trans (left.encode_place_fails_iff reg),
      right.code_fails_iff, or_comm]
  case testImmediate left value =>
    rw [fails_seq_iff fun _ => fails_map_iff.trans (left.encode_place_fails_iff 0#3),
      Width.requireFits_fails_iff, or_comm]
  case lea target source =>
    rw [or_iff_right target.not_isNone]
    exact fails_map_iff.trans (source.encode_fails_iff _)
  -- Every dword register has a number, but one word register has none.
  case pushDword r | popDword r => exact iff_of_false (not_fails_ok _) r.not_isNone
  case pushWord r | popWord r => exact fails_map_iff.trans r.code_fails_iff
  case pushMemory m | popMemory m => exact fails_map_iff.trans (m.encode_fails_iff _)
  case branchIndirect target => exact fails_map_iff.trans (target.encode_fails_iff _)
  case branch kind target => exact kind.encode_fails_iff
  -- The others are constants, and nothing about them is checked.
  all_goals exact iff_false_intro (not_fails_ok _)

end Instruction

/-- A writer takes every instruction that there is no ground to refuse, and only
    those. One that is refused leaves it as it was, whatever operands of the user's own
    have appended until then. One that is taken appends bytes that do not depend on what
    was written before, and for all but a relative branch on nothing but the
    instruction. -/
theorem push_refuses (w : Writer) (i : Instruction) :
    ((∃ fault, (w.push i).2 = some fault) ↔ i.Refused w.position w.sizing) ∧
    (∀ fault, (w.push i).2 = some fault → (w.push i).1 = w) ∧
    ((w.push i).2 = none → ∃ bytes, (w.push i).1 = { w with bytes := w.bytes ++ bytes } ∧
      ∀ w' : Writer,
        (∀ kind target, i = .branch kind target →
          w'.position = w.position ∧ w'.sizing = w.sizing) →
        w'.push i = ({ w' with bytes := w'.bytes ++ bytes }, none)) := by
  rw [← i.encode_fails_iff]
  cases hencode : i.encode w.position w.sizing with
  | error fault =>
      rw [Writer.push_of_error hencode]
      exact ⟨⟨fun _ => ⟨fault, rfl⟩, fun _ => ⟨fault, rfl⟩⟩, fun _ _ => rfl, nofun⟩
  | ok bytes =>
      rw [Writer.push_of_ok hencode]
      refine ⟨iff_of_false nofun (not_fails_ok _), nofun, fun _ => ⟨bytes, rfl, fun w' h => ?_⟩⟩
      refine Writer.push_of_ok ?_
      -- Only of a relative branch is it asked that both writers stand at one place.
      by_cases hbranch : ∃ kind target, i = .branch kind target
      · rcases hbranch with ⟨kind, target, rfl⟩
        rcases h kind target rfl with ⟨hposition, hsizing⟩
        rw [hposition, hsizing, hencode]
      · rw [← hencode]
        exact Instruction.encode_eq (fun kind target hi => hbranch ⟨kind, target, hi⟩) _ _ _ _

/-- An operand that appends a byte and then fails. The opcode in front of it is not
    written either. -/
example : (Writer.placedAt 0x1000).push
    (.load .eax (.custom fun reg => ⟨[reg], some (.badOperand "mine" "refused")⟩)) =
      (Writer.placedAt 0x1000, some (.badOperand "mine" "refused")) := rfl

end Hotpatch
