import Hotpatch.Proofs.Execution.Machine
import Hotpatch.Stub.Template

/-!
# Calling Conventions

What caller and callee owe each other, in terms of machines at the two ends of
a call. On entry the return address is on top of the stack, above it lie the
arguments that are in no register. On return the callee has removed both, has
kept four registers, and has left alone all memory that lies above its own
arguments. Everything else is its own to change.

## Main definitions

* `Convention`: Where arguments are.
* `Convention.argument`: An argument of a call.
* `Convention.Returns`: What a callee owes its caller.
* `Machine.Enters`: A machine at the beginning of some code.
* `Direction.Bridges`: Code that forwards calls from one convention to the other.
-/

namespace Hotpatch

/-- Where the arguments of a call are. Both conventions have the callee remove
    those on the stack. -/
inductive Convention
  | stdcall
  | fastcall

namespace Convention

/-- The registers that hold the first arguments. -/
def registers : Convention → List (Register .dword)
  | stdcall => []
  | fastcall => [.ecx, .edx]

/-- How many of a number of arguments are on the stack. -/
def stackWords (c : Convention) (arity : Nat) : Nat :=
  arity - c.registers.length

/-- An argument of the function that a machine has entered. -/
def argument (c : Convention) (m : Machine) (i : Nat) : Word :=
  match c.registers[i]? with
  | some r => m.registers r
  | none => m.word (m.registers .esp + BitVec.ofNat 32 (4 * (1 + (i - c.registers.length))))

/-- The registers that a callee keeps. -/
def preserved : List (Register .dword) :=
  [.ebx, .esi, .edi, .ebp]

/-- The registers that a callee may use as it likes. Results are among them. -/
def scratch : List (Register .dword) :=
  [.eax, .ecx, .edx]

theorem forall_preserved {P : Register .dword → Prop} (hebx : P .ebx) (hesi : P .esi)
    (hedi : P .edi) (hebp : P .ebp) : ∀ r ∈ preserved, P r := by
  intro r hr
  simp only [preserved, List.mem_cons, List.not_mem_nil, or_false] at hr
  rcases hr with rfl | rfl | rfl | rfl
  · exact hebx
  · exact hesi
  · exact hedi
  · exact hebp

theorem forall_scratch {P : Register .dword → Prop} (heax : P .eax) (hecx : P .ecx)
    (hedx : P .edx) : ∀ r ∈ scratch, P r := by
  intro r hr
  simp only [scratch, List.mem_cons, List.not_mem_nil, or_false] at hr
  rcases hr with rfl | rfl | rfl
  · exact heax
  · exact hecx
  · exact hedx

/-- The stack pointer is the caller's and the callee's together. -/
theorem ne_esp_of_mem {r : Register .dword} (h : r ∈ preserved ++ scratch) : r ≠ .esp := by
  intro heq
  rw [heq] at h
  exact absurd h (by decide)

/-- A register has one of three roles. -/
theorem mem_preserved {r : Register .dword} (hsp : r ≠ .esp) (h : r ∉ scratch) :
    r ∈ preserved := by
  -- What is left of the cases after the two that are excluded is in the list.
  cases r <;> first | exact absurd rfl hsp | exact absurd (by decide) h | decide

/-- A function with some number of arguments, entered by one machine, has
    returned as another. -/
structure Returns (c : Convention) (arity : Nat) (entry back : Machine) : Prop where
  pointer : back.pointer = entry.top
  stack : back.registers .esp =
    entry.registers .esp + BitVec.ofNat 32 (4 * (1 + c.stackWords arity))
  saved : ∀ r ∈ preserved, back.registers r = entry.registers r
  above : ∀ a : Word, (entry.registers .esp).toNat + 4 * (1 + c.stackWords arity) ≤ a.toNat →
    back.memory a = entry.memory a

end Convention

/-- How many words of the stack below the stack pointer code may use. -/
def stackRoom : Nat := 32

/-- A machine stands at the beginning of some code, as a callee with some words
    of arguments on the stack. There is room below the stack pointer, the
    arguments do not wrap, and the code does not lie where the room is. -/
structure Machine.Enters (m : Machine) (base : Word) (code : List UInt8) (words : Nat) :
    Prop where
  holds : m.Holds base code
  pointer : m.pointer = base
  room : 4 * stackRoom ≤ (m.registers .esp).toNat
  fits : (m.registers .esp).toNat + 4 * (1 + words) ≤ codeSpace
  clear : ∀ i < code.length,
    (base + BitVec.ofNat 32 i).toNat + 4 * stackRoom < (m.registers .esp).toNat ∨
      (m.registers .esp).toNat ≤ (base + BitVec.ofNat 32 i).toNat

namespace Direction

/-- The convention that a stub is entered with. -/
def outer : Direction → Convention
  | fastcallToStdcall => .fastcall
  | stdcallToFastcall => .stdcall

def inner : Direction → Convention
  | fastcallToStdcall => .stdcall
  | stdcallToFastcall => .fastcall

/-- Code forwards calls of one convention to a target of the other. Wherever it
    lies, it runs until it enters the target, with the same arguments. However
    the target then returns, as long as it keeps to its convention and leaves the
    code alone, the code runs until it returns itself, as its own convention has
    it, with the results of the target and with all memory from the stack
    pointer up as it was. -/
def Bridges (d : Direction) (arity : Nat) (target : Word) (code : List UInt8) : Prop :=
  ∀ (base : Word) (m : Machine), m.Enters base code (d.outer.stackWords arity) →
    ∃ entry, Machine.Path (Machine.Inside base code) m entry ∧ entry.pointer = target ∧
      (∀ i < arity, d.inner.argument entry i = d.outer.argument m i) ∧
      ∀ back, d.inner.Returns arity entry back → back.Holds base code →
        ∃ final, Machine.Path (Machine.Inside base code) back final ∧
          d.outer.Returns arity m final ∧
          (∀ r ∈ Convention.scratch, final.registers r = back.registers r) ∧
          ∀ a : Word, (m.registers .esp).toNat ≤ a.toNat → final.memory a = m.memory a

end Direction

end Hotpatch
