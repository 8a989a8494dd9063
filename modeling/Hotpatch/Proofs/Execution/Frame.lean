import Hotpatch.Proofs.Execution.Convention

/-!
# Frames

Code that works on its stack frame, run without knowing where the stack is. In
a frame a value is either a word, about which nothing has to be known, or a
place on the stack, counted in words from where the stack pointer was at first.
Memory is a table of the places that are known. So a frame can be computed with
while the machine that it describes stays a variable.

A frame is honest about what it does not know. It has no value for a place that
was never written, and it stops where an address is not on the stack, where one
is not a whole number of words away, and where the room is used up.

## Main definitions

* `Value`: A word, or a place on the stack.
* `Frame`: Registers and the known places.
* `Frame.execute`: What an instruction does to a frame.
* `Frame.Describes`: A frame is that of a machine.

## Theorems

* `toNat_place`: The address of a place.
* `Describes.setCell`: A write to a place.
* `Describes.execute`: What a frame says of an instruction is true.
* `Describes.start`: The frame at the beginning.
-/

namespace Hotpatch

/-- A place on the stack: so many words above an address, or below it. -/
def place (origin : Word) (o : Int) : Word :=
  origin + BitVec.ofInt 32 (4 * o)

/-- What a register or a place holds. -/
inductive Value
  | word (v : Word)
  | place (o : Int)

namespace Value

def denote (origin : Word) : Value → Word
  | word v => v
  | place o => Hotpatch.place origin o

end Value

/-- Registers and the known places of the stack. -/
structure Frame where
  registers : Register .dword → Value
  cells : Int → Option Value

namespace Frame

def setRegister (f : Frame) (r : Register .dword) (v : Value) : Frame :=
  { f with registers := fun r' => if r' = r then v else f.registers r' }

/-- The frame with a place written, if that is in the room. -/
def setCell (f : Frame) (o : Int) (v : Value) : Option Frame :=
  if -stackRoom ≤ o ∧ o < 0 then
    some { f with cells := fun o' => if o' = o then some v else f.cells o' }
  else none

/-- The place that a register points to. -/
def pointee (f : Frame) (r : Register .dword) : Option Int :=
  match f.registers r with
  | .place o => some o
  | .word _ => none

/-- The place that a memory operand names: a whole number of words away from
    where a register points to. -/
def resolve (f : Frame) (a : EffectiveAddress) : Option Int :=
  match a.base, a.index with
  | some r, none => do
    let o ← f.pointee r
    if a.displacement.toInt % 4 = 0 then some (o + a.displacement.toInt / 4) else none
  | _, _ => none

def read (f : Frame) : Argument → Option Value
  | @Argument.register .dword r => some (f.registers r)
  | .memory .dword a => do f.cells (← f.resolve a)
  | .immediate .dword value => some (.word (BitVec.ofNat 32 value))
  | _ => none

def write (f : Frame) (target : Argument) (v : Value) : Option Frame :=
  match target with
  | @Argument.register .dword r => some (f.setRegister r v)
  | .memory .dword a => do f.setCell (← f.resolve a) v
  | _ => none

def push (f : Frame) (v : Value) : Option Frame := do
  let o ← f.pointee .esp
  (f.setRegister .esp (.place (o - 1))).setCell (o - 1) v

/-- The value on top of the stack, and the frame without it. -/
def pop (f : Frame) : Option (Value × Frame) := do
  let o ← f.pointee .esp
  return (← f.cells o, f.setRegister .esp (.place (o + 1)))

/-- The frame with so many bytes more of room on its stack. -/
def reserve (f : Frame) (bytes : Nat) : Option Frame := do
  let o ← f.pointee .esp
  if bytes % 4 = 0 then some (f.setRegister .esp (.place (o - (bytes / 4 : Nat)))) else none

/-- The frame after an instruction that goes on to the next. -/
def execute (f : Frame) : Reading → Option Frame
  | (.mov, [target, source]) => do f.write target (← f.read source)
  | (.push, [source]) => do f.push (← f.read source)
  | (.pop, [target]) => do
    let (v, f) ← f.pop
    f.write target v
  | (.alu .sub, [@Argument.register .dword .esp, .immediate .dword bytes]) => f.reserve bytes
  | _ => none

/-- The frame at the beginning of some code, with so many words of arguments. -/
def start (m : Machine) (words : Nat) : Frame where
  registers r := if r = .esp then .place 0 else .word (m.registers r)
  cells o := if 0 ≤ o ∧ o ≤ words then some (.word (m.word (place (m.registers .esp) o))) else none

/-- A frame is that of a machine, which runs code that was entered by another
    machine. What is known is near the place where the stack pointer was, and
    from there up memory is as it was. -/
structure Describes (entered : Machine) (base : Word) (code : List UInt8) (words : Nat)
    (f : Frame) (m : Machine) : Prop where
  registers : ∀ r, m.registers r = (f.registers r).denote (entered.registers .esp)
  cells : ∀ {o v}, f.cells o = some v →
    m.word (place (entered.registers .esp) o) = v.denote (entered.registers .esp)
  near : ∀ {o v}, f.cells o = some v → -stackRoom ≤ o ∧ o ≤ words
  above : ∀ a : Word, (entered.registers .esp).toNat ≤ a.toNat → m.memory a = entered.memory a
  holds : m.Holds base code

end Frame

section Places

variable {origin : Word} {words : Nat}

/-- The address of a place that does not wrap. -/
theorem toNat_place {o : Int} (room : 4 * stackRoom ≤ origin.toNat)
    (fits : origin.toNat + 4 * (1 + words) ≤ codeSpace) (near : -stackRoom ≤ o ∧ o ≤ words) :
    ((place origin o).toNat : Int) = origin.toNat + 4 * o := by
  simp only [stackRoom, codeSpace] at room fits near
  -- Below there is room and above the arguments end, so the sum is in range.
  rw [place, BitVec.toNat_add, BitVec.toNat_ofInt]
  omega

/-- Places are words apart. -/
theorem place_apart {o o' : Int} (room : 4 * stackRoom ≤ origin.toNat)
    (fits : origin.toNat + 4 * (1 + words) ≤ codeSpace) (near : -stackRoom ≤ o ∧ o ≤ words)
    (near' : -stackRoom ≤ o' ∧ o' ≤ words) (h : o ≠ o') :
    4 ≤ (place origin o - place origin o').toNat ∧
      4 ≤ (place origin o' - place origin o).toNat := by
  have ho := toNat_place room fits near
  have ho' := toNat_place room fits near'
  simp only [stackRoom, codeSpace] at room fits near near'
  -- Neither address wraps, so they are as far apart as their numbers.
  rw [BitVec.toNat_sub, BitVec.toNat_sub]
  omega

/-- What is beside the room on the stack is away from every place in it. -/
theorem apart_of_outside {a : Word} {o : Int} (room : 4 * stackRoom ≤ origin.toNat)
    (fits : origin.toNat + 4 ≤ codeSpace)
    (ha : a.toNat + 4 * stackRoom < origin.toNat ∨ origin.toNat ≤ a.toNat)
    (ho : -stackRoom ≤ o ∧ o < 0) : 4 ≤ (a - place origin o).toNat := by
  have hnear : -stackRoom ≤ o ∧ o ≤ (0 : Nat) := ⟨ho.1, by omega⟩
  have hplace := toNat_place room fits hnear
  simp only [stackRoom, codeSpace] at room fits ha ho
  -- From below or from above, the distance is at least a word, also around the wrap.
  rw [BitVec.toNat_sub]
  omega

theorem place_add (origin : Word) (o k : Int) :
    place origin o + BitVec.ofInt 32 (4 * k) = place origin (o + k) := by
  rw [place, place, BitVec.add_assoc, ← BitVec.ofInt_add, Int.mul_add]

theorem place_add_words (origin : Word) (o : Int) (k : Nat) :
    place origin o + BitVec.ofNat 32 (4 * k) = place origin (o + k) := by
  rw [← place_add, ← BitVec.ofInt_natCast, Int.natCast_mul]
  rfl

end Places

namespace Frame

variable {entered : Machine} {base : Word} {code : List UInt8} {words : Nat} {f f' : Frame}
  {m : Machine}

namespace Describes

/-- A frame says nothing of the instruction pointer and the flags. -/
theorem congr {m' : Machine} (h : f.Describes entered base code words m)
    (registers : m'.registers = m.registers) (memory : m'.memory = m.memory) :
    f.Describes entered base code words m' where
  registers r := by rw [registers, h.registers]
  cells hc := by
    rw [← h.cells hc, Machine.word, Machine.word, memory]
  near := h.near
  above a ha := by rw [memory, h.above a ha]
  holds i hi := by rw [memory, h.holds i hi]

theorem jump (h : f.Describes entered base code words m) (a : Word) :
    f.Describes entered base code words (m.jump a) :=
  h.congr rfl rfl

theorem setRegister (h : f.Describes entered base code words m) (r : Register .dword)
    (v : Value) :
    (f.setRegister r v).Describes entered base code words
      (m.setRegister r (v.denote (entered.registers .esp))) where
  registers r' := by
    simp only [Frame.setRegister, Machine.setRegister]
    by_cases hr : r' = r
    · rw [if_pos hr, if_pos hr]
    · rw [if_neg hr, if_neg hr, h.registers]
  cells := h.cells
  near := h.near
  above := h.above
  holds := h.holds

/-- A write to a place. It is away from all other places, from what was on the
    stack at the beginning, and from the code. -/
theorem setCell (enters : entered.Enters base code words)
    (h : f.Describes entered base code words m) {o : Int} {v : Value}
    (hs : f.setCell o v = some f') :
    f'.Describes entered base code words
      (m.setWord (place (entered.registers .esp) o) (v.denote (entered.registers .esp))) := by
  unfold Frame.setCell at hs
  by_cases ho : -stackRoom ≤ o ∧ o < 0
  · rw [if_pos ho, Option.some.injEq] at hs
    have hnear : -stackRoom ≤ o ∧ o ≤ words := ⟨ho.1, by omega⟩
    have hfits : (entered.registers .esp).toNat + 4 ≤ codeSpace := by
      have := enters.fits
      omega
    rw [← hs]
    refine ⟨h.registers, ?_, ?_, ?_, ?_⟩
    · -- The place itself holds the value, and all others are a word away from it.
      intro o' v' hc
      simp only at hc
      by_cases heq : o' = o
      · rw [if_pos heq, Option.some.injEq] at hc
        rw [heq, ← hc, Machine.word_setWord_self]
      · rw [if_neg heq] at hc
        rw [Machine.word_setWord_of_apart
          (place_apart enters.room enters.fits (h.near hc) hnear heq), h.cells hc]
    · intro o' v' hc
      simp only at hc
      by_cases heq : o' = o
      · rw [heq]
        exact hnear
      · rw [if_neg heq] at hc
        exact h.near hc
    · -- Writes go below the place where the stack pointer was at first.
      intro a ha
      rw [Machine.memory_setWord_of_le (apart_of_outside enters.room hfits (.inr ha) ho),
        h.above a ha]
    · -- The code does not lie where the room is.
      intro i hi
      rw [Machine.memory_setWord_of_le
        (apart_of_outside enters.room hfits (enters.clear i hi) ho), h.holds i hi]
  · rw [if_neg ho] at hs
    exact absurd hs (by simp only [reduceCtorEq, not_false_eq_true])

theorem pointee (h : f.Describes entered base code words m) {r : Register .dword} {o : Int}
    (hp : f.pointee r = some o) : m.registers r = place (entered.registers .esp) o := by
  rw [h.registers]
  unfold Frame.pointee at hp
  split at hp
  · next o' hr =>
      rw [hr, ← Option.some.inj hp, Value.denote]
  · exact absurd hp (by simp only [reduceCtorEq, not_false_eq_true])

theorem resolve (h : f.Describes entered base code words m) {a : EffectiveAddress} {o : Int}
    (hr : f.resolve a = some o) : m.resolve a = place (entered.registers .esp) o := by
  rcases a with ⟨base?, index?, d⟩
  unfold Frame.resolve at hr
  split at hr
  · next r hb hi =>
      simp only at hb hi
      simp only [bind, Option.bind_eq_some_iff] at hr
      rcases hr with ⟨o', hp, hd⟩
      by_cases haligned : d.toInt % 4 = 0
      · rw [if_pos haligned, Option.some.injEq] at hd
        -- A whole number of words away, so the place is another place.
        have hdisp : d.toInt = 4 * (d.toInt / 4) := by omega
        simp only [Machine.resolve, hb, hi]
        rw [h.pointee hp, BitVec.add_zero, hdisp, place_add, hd]
      · rw [if_neg haligned] at hd
        exact absurd hd (by simp only [reduceCtorEq, not_false_eq_true])
  · exact absurd hr (by simp only [reduceCtorEq, not_false_eq_true])

theorem read (h : f.Describes entered base code words m) {source : Argument} {v : Value}
    (hr : f.read source = some v) :
    m.read source = some (v.denote (entered.registers .esp)) := by
  unfold Frame.read at hr
  split at hr
  · next r =>
      rw [← Option.some.inj hr, Machine.read, h.registers]
  · -- An operand in memory is read only where it is a known place.
    next a =>
      simp only [bind, Option.bind_eq_some_iff] at hr
      rcases hr with ⟨o, ho, hc⟩
      rw [Machine.read, h.resolve ho, h.cells hc]
  · next value =>
      rw [← Option.some.inj hr, Machine.read, Value.denote]
  · exact absurd hr (by simp only [reduceCtorEq, not_false_eq_true])

theorem write (enters : entered.Enters base code words)
    (h : f.Describes entered base code words m) {target : Argument} {v : Value}
    (hw : f.write target v = some f') :
    ∃ m', m.write target (v.denote (entered.registers .esp)) = some m' ∧
      f'.Describes entered base code words m' ∧ m'.pointer = m.pointer := by
  unfold Frame.write at hw
  split at hw
  · next r =>
      rw [← Option.some.inj hw]
      exact ⟨_, rfl, h.setRegister r v, rfl⟩
  · -- Machine and frame write to the same place.
    next a =>
      simp only [bind, Option.bind_eq_some_iff] at hw
      rcases hw with ⟨o, ho, hc⟩
      refine ⟨_, rfl, ?_, rfl⟩
      rw [h.resolve ho]
      exact h.setCell enters hc
  · exact absurd hw (by simp only [reduceCtorEq, not_false_eq_true])

theorem push (enters : entered.Enters base code words)
    (h : f.Describes entered base code words m) {v : Value} (hp : f.push v = some f') :
    f'.Describes entered base code words (m.push (v.denote (entered.registers .esp))) := by
  simp only [Frame.push, bind, Option.bind_eq_some_iff] at hp
  rcases hp with ⟨o, ho, hc⟩
  -- Four bytes down are one word down.
  have hplace : m.registers .esp - 4#32 = place (entered.registers .esp) (o - 1) := by
    rw [h.pointee ho, Int.sub_eq_add_neg, ← place_add, BitVec.sub_eq_add_neg]
    rfl
  have hmoved := h.setRegister .esp (.place (o - 1))
  rw [Machine.push, hplace]
  exact hmoved.setCell enters hc

theorem pop (h : f.Describes entered base code words m) {v : Value}
    (hp : f.pop = some (v, f')) :
    m.top = v.denote (entered.registers .esp) ∧
      f'.Describes entered base code words (m.drop 4) := by
  simp only [Frame.pop, bind, pure, Option.bind_eq_some_iff, Option.some.injEq,
    Prod.mk.injEq] at hp
  rcases hp with ⟨o, ho, v', hc, rfl, rfl⟩
  have hplace : m.registers .esp + BitVec.ofNat 32 4 = place (entered.registers .esp) (o + 1) := by
    rw [h.pointee ho]
    exact place_add_words _ o 1
  constructor
  · rw [Machine.top, h.pointee ho, h.cells hc]
  · rw [Machine.drop, hplace]
    exact h.setRegister .esp (.place (o + 1))

theorem reserve (h : f.Describes entered base code words m) {bytes : Nat}
    (hr : f.reserve bytes = some f') :
    f'.Describes entered base code words
      (m.setRegister .esp (m.registers .esp - BitVec.ofNat 32 bytes)) := by
  simp only [Frame.reserve, bind, Option.bind_eq_some_iff] at hr
  rcases hr with ⟨o, ho, hr⟩
  by_cases haligned : bytes % 4 = 0
  · rw [if_pos haligned, Option.some.injEq] at hr
    -- The stack pointer stays a whole number of words away.
    have hplace : m.registers .esp - BitVec.ofNat 32 bytes =
        place (entered.registers .esp) (o - (bytes / 4 : Nat)) := by
      have hbytes : (bytes : Int) = 4 * (bytes / 4 : Nat) := by omega
      rw [h.pointee ho, Int.sub_eq_add_neg, ← place_add, Int.mul_neg, ← hbytes,
        BitVec.ofInt_neg, BitVec.ofInt_natCast, BitVec.sub_eq_add_neg]
    rw [hplace, ← hr]
    exact h.setRegister .esp (.place (o - (bytes / 4 : Nat)))
  · rw [if_neg haligned] at hr
    exact absurd hr (by simp only [reduceCtorEq, not_false_eq_true])

/-- What a frame says of an instruction is true of the machine that it
    describes. The cases are those of the frame, which are some of those of the
    machine. -/
theorem execute (enters : entered.Enters base code words)
    (h : f.Describes entered base code words m) {reading : Reading}
    (he : f.execute reading = some f') :
    ∃ m', m.execute reading = some m' ∧ f'.Describes entered base code words m' ∧
      m'.pointer = m.pointer := by
  unfold Frame.execute at he
  split at he
  · -- What is moved is read before the target is written.
    next target source =>
      simp only [bind, Option.bind_eq_some_iff] at he
      rcases he with ⟨v, hv, hw⟩
      rcases h.write enters hw with ⟨m', hm, hd, hp⟩
      refine ⟨m', ?_, hd, hp⟩
      simp only [Machine.execute, h.read hv, bind, Option.bind, hm]
  · next source =>
      simp only [bind, Option.bind_eq_some_iff] at he
      rcases he with ⟨v, hv, hp⟩
      refine ⟨_, ?_, h.push enters hp, rfl⟩
      simp only [Machine.execute, h.read hv, bind, pure, Option.bind]
  · -- The operand is resolved after the stack pointer has moved.
    next target =>
      simp only [bind, Option.bind_eq_some_iff] at he
      rcases he with ⟨⟨v, f₁⟩, hpop, hw⟩
      rcases h.pop hpop with ⟨htop, hd₁⟩
      rcases hd₁.write enters hw with ⟨m', hm, hd, hp⟩
      refine ⟨m', ?_, hd, hp⟩
      rw [Machine.execute, htop, hm]
  · -- A frame knows nothing of the flags that the subtraction sets.
    next bytes =>
      refine ⟨_, rfl, (h.reserve he).congr rfl rfl, rfl⟩
  · exact absurd he (by simp only [reduceCtorEq, not_false_eq_true])

/-- The frame at the beginning is that of the machine at the beginning. -/
theorem start (enters : entered.Enters base code words) :
    (Frame.start entered words).Describes entered base code words entered where
  registers r := by
    simp only [Frame.start]
    by_cases hr : r = .esp
    · -- Places are counted from the stack pointer, so it is at place zero.
      rw [if_pos hr, hr, Value.denote, place, Int.mul_zero, BitVec.ofInt_ofNat,
        BitVec.add_zero]
    · rw [if_neg hr, Value.denote]
  cells {o v} hc := by
    simp only [Frame.start] at hc
    by_cases ho : 0 ≤ o ∧ o ≤ words
    · rw [if_pos ho, Option.some.injEq] at hc
      rw [← hc, Value.denote]
    · rw [if_neg ho] at hc
      exact absurd hc (by simp only [reduceCtorEq, not_false_eq_true])
  near {o v} hc := by
    simp only [Frame.start] at hc
    by_cases ho : 0 ≤ o ∧ o ≤ words
    · -- Only the return address and the arguments are known at first.
      refine ⟨?_, ho.2⟩
      simp only [stackRoom]
      omega
    · rw [if_neg ho] at hc
      exact absurd hc (by simp only [reduceCtorEq, not_false_eq_true])
  above _ _ := rfl
  holds := enters.holds

end Describes

end Frame

end Hotpatch
