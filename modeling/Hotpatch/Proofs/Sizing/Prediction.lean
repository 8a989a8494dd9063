import Hotpatch.Proofs.Faults.Late
import Hotpatch.Proofs.Sizing.Lockstep

/-!
# What The Sizing Pass Predicts

The length that a sizing pass finds is the length of the code wherever it is then
placed. A placed run can fail where the sizing pass did not, but only at a branch
that does not reach its target from there. So memory that is allocated by the
length of a sizing pass fits, and generated code that changes its length is always
code that asked how it was run.

## Main definitions

* `Code.OutOfReach`: A placed run that stops before the end of the sizing run.

## Theorems

* `measure_ends`, `assemble_result`: The two passes as runs of a program.
* `follows_passes`: The placed pass follows the sizing pass.
* `generate_triple`: Generated code that is refused for its length.
* `measure_predicts`: What the sizing pass says of a placed one.
-/

namespace Hotpatch

open Hotpatch.Action

namespace Code

variable {program : Program} {runs runs' : Nat} {base : Address}

/-- A sizing pass answers with the length of what was written. It counts its run,
    however it ends. -/
theorem measure_ends (code : Code) :
    (measure code).result = (code.program.output code.runs .forSizing).map List.length ∧
      (measure code).state = { code with runs := code.runs + 1 } := by
  have houtput : (output .forSizing code).result = code.program.output code.runs .forSizing := rfl
  unfold measure
  cases h : code.program.output code.runs .forSizing with
  | error fault =>
      rw [bind_error (houtput.trans h)]
      exact ⟨rfl, rfl⟩
  | ok bytes =>
      rw [bind_ok (houtput.trans h)]
      exact ⟨rfl, rfl⟩

theorem assemble_result (code : Code) (base : Address) :
    (assemble base code).result = code.program.output code.runs (.placedAt base) := by
  have houtput : (output (.placedAt base) code).result =
      code.program.output code.runs (.placedAt base) := rfl
  unfold assemble
  cases h : code.program.output code.runs (.placedAt base) with
  | error fault =>
      rw [bind_error (houtput.trans h)]
  | ok bytes =>
      rw [bind_ok (houtput.trans h)]
      rfl

/-- A placed run that stops at a branch out of reach, before the point that the
    sizing run comes to. -/
def OutOfReach (program : Program) (runs runs' : Nat) (base : Address) : Prop :=
  ∃ w target, program.run runs' (.placedAt base) = (w, some (.targetOutOfReach w.position target)) ∧
    displacement32 (w.position + UInt64.ofNat Branch.size) target = none ∧
    w.length + Branch.size ≤ (program.run runs .forSizing).1.length

theorem OutOfReach.assemble_result (h : OutOfReach program runs runs' base) :
    ∃ position target,
      (assemble base ⟨program, runs'⟩).result = .error (.targetOutOfReach position target) := by
  rcases h with ⟨w, target, hrun, -, -⟩
  refine ⟨w.position, target, ?_⟩
  rw [Code.assemble_result, Program.output]
  simp only [hrun]

/-- The placed pass follows the sizing pass: it ends in the same way and at the same
    length, or stops before at a branch out of reach. -/
theorem follows_passes (hp : program.Steady) (runs runs' : Nat) (base : Address) :
    OutOfReach program runs runs' base ∨
      (∀ n, (measure ⟨program, runs⟩).result = .ok n ↔
        ∃ bytes, (assemble base ⟨program, runs'⟩).result = .ok bytes ∧ bytes.length = n) ∧
      ∀ fault, (measure ⟨program, runs⟩).result = .error fault ↔
        (assemble base ⟨program, runs'⟩).result = .error fault := by
  have hstart : Writer.InStep .forSizing (.placedAt base) := ⟨rfl, rfl, rfl⟩
  have hfollows := run_follows hp runs runs' hstart
  rw [(measure_ends _).1, Code.assemble_result, Program.output, Program.output]
  rcases hsized : program.run runs .forSizing with ⟨w, fault⟩
  rcases hplaced : program.run runs' (.placedAt base) with ⟨w', fault'⟩
  rw [hsized, hplaced] at hfollows
  rcases hfollows with ⟨hstep, hfault⟩ | ⟨⟨target, hfault, hbeyond⟩, hearlier⟩
  · -- In step to the end, so either both runs fail or both give as many bytes.
    refine .inr ?_
    rw [show fault' = fault from hfault]
    have hlength : w'.bytes.length = w.bytes.length := hstep.length
    cases fault with
    | none =>
        simp only [Except.map, Except.ok.injEq, reduceCtorEq, implies_true, and_true]
        intro n
        constructor
        · intro hn
          exact ⟨w'.bytes, rfl, hlength.trans hn⟩
        · rintro ⟨bytes, rfl, hn⟩
          exact hlength.symm.trans hn
    | some fault =>
        simp only [Except.map, Except.error.injEq, reduceCtorEq, false_and, exists_false,
          implies_true, and_self]
  · -- The placed run strayed, and ended at a branch.
    refine .inl ⟨w', target, ?_, hbeyond, ?_⟩
    · rw [hplaced, show fault' = _ from hfault]
    · rw [hsized]
      exact hearlier

end Code

/-- Steady code is refused for its length only if it raises that fault itself, in the
    sizing pass. The two lengths that are compared are always the same. -/
theorem Region.generate_triple (code : Code) (hp : code.program.Steady) :
    Triple (fun st : Code × Host => st.1 = code) generate (fun _ _ => True)
      fun fault _ => ∀ expected actual, fault = .lengthChanged expected actual →
        (Code.measure code).result = .error fault := by
  -- A fault of memory is never that of a length.
  have hlate : ∀ {fault : Fault}, fault.isEncoding = false → ∀ expected actual,
      fault = .lengthChanged expected actual → (Code.measure code).result = .error fault := by
    intro fault hf expected actual heq
    rw [heq] at hf
    exact absurd hf (by simp only [Fault.isEncoding, Bool.true_eq_false, not_false_eq_true])
  unfold generate
  refine .bind (Q := fun expected st => (Code.measure code).result = .ok expected ∧
    st.1 = { code with runs := code.runs + 1 }) (.within fun st hst c hc => ?_) fun expected => ?_
  · -- A fault of the first run is that of the sizing pass, whatever it is.
    rw [hc, hst]
    split
    · next n hn => exact ⟨hn, (Code.measure_ends code).2⟩
    · next fault hf => exact fun _ _ _ => hf
  refine .assuming (fun _ h => h.1) fun hmeasure => ?_
  refine .bind (Q := fun _ st => st.1 = { code with runs := code.runs + 1 })
    (.within fun st hst => ?_) fun r => ?_
  · exact (allocate_failsLate expected).weaken (fun _ _ => True.intro) (fun _ _ _ => hst.2)
      fun _ _ => hlate
  -- What the placed pass can end with is known from the sizing pass.
  refine .bind (Q := fun result _ => (∃ bytes, result = .ok bytes ∧ bytes.length = expected) ∨
    ∃ position target, result = .error (.targetOutOfReach position target)) (.attempt ?_)
      fun result => ?_
  · refine .within fun st hst c hc => ?_
    rw [hc, hst]
    rcases Code.follows_passes hp code.runs (code.runs + 1) r.address with hbeyond | ⟨hlength, -⟩
    · rcases hbeyond.assemble_result with ⟨position, target, hf⟩
      rw [hf]
      exact .inr ⟨position, target, rfl⟩
    · rcases (hlength expected).mp hmeasure with ⟨bytes, hbytes, hn⟩
      rw [hbytes]
      exact .inl ⟨bytes, rfl, hn⟩
  refine .assuming (fun _ h => h) fun hresult => ?_
  rcases hresult with ⟨bytes, rfl, hn⟩ | ⟨position, target, rfl⟩
  · -- The lengths agree, so the bytes are written.
    dsimp only
    rw [if_pos hn]
    refine .bind (Q := fun _ _ => True) (.within fun st _ => ?_) fun _ => .ret fun _ h => h
    exact (r.write_failsLate 0 bytes).weaken (fun _ _ => True.intro) (fun _ _ h => h)
      fun _ _ => hlate
  · -- The region is given up for a branch, which is no fault of a length either.
    refine .bind (Q := fun _ _ => True) (.within fun st _ => ?_) fun _ => ?_
    · exact r.release_failsLate.weaken (fun _ _ => True.intro) (fun _ _ h => h) fun _ _ => hlate
    · refine .fail fun _ _ expected actual heq => ?_
      exact absurd heq (by simp only [reduceCtorEq, not_false_eq_true])

/-- So generating steady code reports another length only if its sizing pass does. -/
theorem Region.generate_lengthChanged {code : Code} (hp : code.program.Steady) {host : Host}
    {expected actual : Nat}
    (h : (generate (code, host)).result = .error (.lengthChanged expected actual)) :
    (Code.measure code).result = .error (.lengthChanged expected actual) := by
  have hend := generate_triple code hp (code, host) rfl
  rw [h] at hend
  exact hend expected actual rfl

/-- What the sizing pass says of a placed one, for code that does not ask how it is
    run. Lengths and faults agree, unless the placed pass stops before at a branch
    that is out of reach. Code that is generated into memory of its own never turns
    out to have another length than was measured. -/
theorem measure_predicts {program : Program} (steady : program.Steady) (runs runs' : Nat)
    (base : Address) :
    (∀ n, (Code.measure ⟨program, runs⟩).result = .ok n →
        (∃ bytes, (Code.assemble base ⟨program, runs'⟩).result = .ok bytes ∧ bytes.length = n) ∨
        ∃ position target, (Code.assemble base ⟨program, runs'⟩).result =
          .error (.targetOutOfReach position target)) ∧
      (∀ bytes, (Code.assemble base ⟨program, runs'⟩).result = .ok bytes →
        (Code.measure ⟨program, runs⟩).result = .ok bytes.length) ∧
      (∀ fault, (Code.measure ⟨program, runs⟩).result = .error fault →
        (Code.assemble base ⟨program, runs'⟩).result = .error fault ∨
        (∃ position target, (Code.assemble base ⟨program, runs'⟩).result =
          .error (.targetOutOfReach position target)) ∧
        Code.OutOfReach program runs runs' base) ∧
      ∀ host expected actual,
        (Region.generate (⟨program, runs⟩, host)).result =
            .error (.lengthChanged expected actual) →
          (Code.measure ⟨program, runs⟩).result = .error (.lengthChanged expected actual) := by
  have hgenerate : ∀ host expected actual,
      (Region.generate (⟨program, runs⟩, host)).result = .error (.lengthChanged expected actual) →
        (Code.measure ⟨program, runs⟩).result = .error (.lengthChanged expected actual) :=
    fun _ _ _ hchanged => Region.generate_lengthChanged steady hchanged
  rcases Code.follows_passes steady runs runs' base with hbeyond | ⟨hlength, hfault⟩
  · -- The placed pass did not get to its end, so there are no bytes to speak of.
    rcases hbeyond.assemble_result with ⟨position, target, hf⟩
    refine ⟨fun n _ => .inr ⟨position, target, hf⟩, fun bytes hbytes => ?_,
      fun fault _ => .inr ⟨⟨position, target, hf⟩, hbeyond⟩, hgenerate⟩
    rw [hf] at hbytes
    exact absurd hbytes (by simp only [reduceCtorEq, not_false_eq_true])
  · -- Both passes got to the same end.
    refine ⟨fun n hn => ?_, fun bytes hbytes => ?_, fun fault hf => ?_, hgenerate⟩
    · exact .inl ((hlength n).mp hn)
    · exact (hlength bytes.length).mpr ⟨bytes, hbytes, rfl⟩
    · exact .inl ((hfault fault).mp hf)

/-- Code that notes where it stands, pads itself unless it is empty, and calls far
    away. -/
def farCall : Program :=
  .ofList [.mark .position, .ifEmpty .skip (.loop 2 (.step (.plain .nop))),
    .step (.branch .call 0x7F0000000000)]

/-- The call is measured, though it does not reach its target from where the code is
    placed. -/
theorem measure_predicts_of_farCall :
    farCall.Steady ∧ (Code.measure ⟨farCall, 0⟩).result = .ok 11 ∧
      ((∃ bytes, (Code.assemble 0x1000 ⟨farCall, 1⟩).result = .ok bytes ∧ bytes.length = 11) ∨
        ∃ position target, (Code.assemble 0x1000 ⟨farCall, 1⟩).result =
          .error (.targetOutOfReach position target)) := by
  have hsteady : farCall.Steady := by decide
  have hmeasure : (Code.measure ⟨farCall, 0⟩).result = .ok 11 := by rfl
  exact ⟨hsteady, hmeasure, (measure_predicts hsteady 0 1 0x1000).1 11 hmeasure⟩

end Hotpatch
