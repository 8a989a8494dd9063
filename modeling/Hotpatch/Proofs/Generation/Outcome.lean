import Hotpatch.Proofs.Bracketing.Patches
import Hotpatch.Proofs.Generation.Allocation
import Hotpatch.Proofs.Generation.Placed
import Hotpatch.Proofs.Patching.Effects
import Hotpatch.Proofs.Sizing.Prediction

/-!
# How Generating Code Ends

Code that is generated is run twice, and may do something else each time. Between the
two runs there is a region, which is as long as what the first run wrote. Whether there
is a region in the end depends on both runs and on the host, and on nothing else, so the
ends can be listed, and each says how often the code was run.

In the one good end the region holds what the second run wrote, and that run was for the
address of the region. Every other end leaves memory as it was, though it may have been
handed out and taken back on the way.

## Main definitions

* `Region.Generation`: How generating code ends.

## Theorems

* `Generation.unique`: One end for each host and each code.
* `generate_from`: Generating code, step by step.
* `generate_leaves`: What generating code leaves of memory.
-/

namespace Hotpatch

open Hotpatch.Action

/-- How generating code ends on a host, and after how many runs. The first run is to learn
    the length, the second is for the place. -/
inductive Region.Generation (code : Code) (host : Host) : Except Fault Region → Nat → Prop
  | unmeasured {fault : Fault}
      (sizing : code.program.output code.runs .forSizing = .error fault) :
      Generation code host (.error fault) 1
  | unallocated {sized : List UInt8} {fault : Fault}
      (sizing : code.program.output code.runs .forSizing = .ok sized)
      (allocation : Allocation host sized.length (.error fault)) :
      Generation code host (.error fault) 1
  | unplaced {sized : List UInt8} {r : Region} {fault : Fault}
      (sizing : code.program.output code.runs .forSizing = .ok sized)
      (allocation : Allocation host sized.length (.ok r))
      (placing : code.program.output (code.runs + 1) (.placedAt r.address) = .error fault) :
      Generation code host (.error fault) 2
  | resized {sized bytes : List UInt8} {r : Region}
      (sizing : code.program.output code.runs .forSizing = .ok sized)
      (allocation : Allocation host sized.length (.ok r))
      (placing : code.program.output (code.runs + 1) (.placedAt r.address) = .ok bytes)
      (differs : bytes.length ≠ sized.length) :
      Generation code host (.error (.lengthChanged sized.length bytes.length)) 2
  | made {sized bytes : List UInt8} {r : Region}
      (sizing : code.program.output code.runs .forSizing = .ok sized)
      (allocation : Allocation host sized.length (.ok r))
      (placing : code.program.output (code.runs + 1) (.placedAt r.address) = .ok bytes)
      (agrees : bytes.length = sized.length) :
      Generation code host (.ok r) 2

/-- A run for a place counts as one, however it ends. -/
theorem Code.assemble_ends (code : Code) (base : Address) :
    (assemble base code).result = code.program.output code.runs (.placedAt base) ∧
      (assemble base code).state = { code with runs := code.runs + 1 } := by
  refine ⟨code.assemble_result base, ?_⟩
  have houtput : (output (.placedAt base) code).result =
      code.program.output code.runs (.placedAt base) := rfl
  unfold assemble
  cases h : code.program.output code.runs (.placedAt base) with
  | error fault =>
      rw [bind_error (houtput.trans h)]
      rfl
  | ok bytes =>
      rw [bind_ok (houtput.trans h)]
      rfl

namespace Region

variable {code : Code} {host : Host} {r : Region}

/-- From one host generating code ends in one way. -/
theorem Generation.unique {result result' : Except Fault Region} {runs runs' : Nat}
    (h : Generation code host result runs) (h' : Generation code host result' runs') :
    result = result' ∧ runs = runs' := by
  -- The first runs are the same, so the allocations are, and so the second runs.
  cases h <;> cases h' <;> grind [Allocation.unique]

/-- The first write into a region that begins somewhere else than at zero. -/
theorem writeStart_from {base : Address} {bytes : List UInt8} (hbase : r.base = some base)
    (hzero : base ≠ 0) (hfits : r.Fits 0 bytes.length) (m : Memory) :
    Triple (fun host => host.memory = m) (r.write 0 bytes)
      (fun _ host => host.memory = m.write base.toNat bytes) fun _ _ => False := by
  have hlocate : r.locate 0 bytes.length = .ok base :=
    locate_eq_ok.mpr ⟨base, hbase, hfits, UInt64.add_zero base⟩
  unfold write
  rw [hlocate]
  refine .bind (Q := fun address host => address = base ∧ host.memory = m) (fun s h => ⟨rfl, h⟩)
    fun address => ?_
  refine .assuming (fun _ h => h.1) fun haddress => ?_
  rw [haddress, Host.store, if_neg hzero]
  exact .modify fun host h => congrArg (·.write base.toNat bytes) h.2

/-- To give a region up does not fail, so what is told is the fault that came before. The
    code is not run for it. -/
theorem giveUp_from (r : Region) {code : Code} {fault : Fault}
    {Q : Region → Code × Host → Prop} {E : Fault → Code × Host → Prop}
    (h : ∀ host, E fault (code, host)) :
    Triple (fun st : Code × Host => st.1 = code)
      (do let _ ← r.release.onSecond; Action.fail fault : Action (Code × Host) Region) Q E := by
  refine .bind (Q := fun _ st => st.1 = code) (.within fun st hst => ?_) fun _ => ?_
  · exact (r.release_calm st.2.memory.contents).weaken (fun _ h => h ▸ rfl) (fun _ _ _ => hst)
      fun _ _ h => h.elim
  · refine .fail fun st hst => ?_
    rcases st with ⟨code', host⟩
    rw [show code' = code from hst]
    exact h host

/-- Generating code goes through both runs and the allocation between them. In the end the
    region holds what the second run wrote, or the code was run as often as the fault
    says. -/
theorem generate_from (code : Code) {host : Host} (positive : 0 < host.memory.next) :
    Triple (fun st => st = (code, host)) generate
      (fun r st => Generation code host (.ok r) 2 ∧ st.1 = { code with runs := code.runs + 2 } ∧
        ∃ bytes m, code.program.output (code.runs + 1) (.placedAt r.address) = .ok bytes ∧
          bytes.length = r.size ∧ host.memory.Granted r.size m ∧
            st.2.memory = m.write r.address.toNat bytes)
      fun fault st => ∃ runs, Generation code host (.error fault) runs ∧
        st.1 = { code with runs := code.runs + runs } := by
  unfold generate
  refine .bind (Q := fun expected st => (∃ sized, expected = sized.length ∧
    code.program.output code.runs .forSizing = .ok sized) ∧
      st = ({ code with runs := code.runs + 1 }, host)) (.within fun st hst c hc => ?_)
        fun expected => ?_
  · -- The first run is only for the length, and gives the code alone.
    rcases Code.measure_ends code with ⟨hresult, hstate⟩
    rw [hc, hst, hresult, hstate]
    cases hrun : code.program.output code.runs .forSizing with
    | error fault => exact ⟨1, .unmeasured hrun, rfl⟩
    | ok sized => exact ⟨⟨sized, rfl, rfl⟩, rfl⟩
  refine .assuming (fun _ h => h.1) fun ⟨sized, hexpected, hsized⟩ => ?_
  rw [hexpected]
  refine .bind (Q := fun r st => Allocation host sized.length (.ok r) ∧
    st.1 = { code with runs := code.runs + 1 } ∧ host.memory.Granted sized.length st.2.memory)
      (.within fun st hst => ?_) fun r => ?_
  · -- The host is that of the beginning, because the first run did not touch it.
    rw [hst.2]
    exact (allocate_from host sized.length).weaken (fun _ h => h) (fun _ _ h => ⟨h.1, rfl, h.2⟩)
      fun _ _ h => ⟨1, .unallocated hsized h.1, rfl⟩
  refine .assuming (fun _ h => h.1) fun hr => ?_
  rcases hr.address with ⟨hbase, hsize, -, haddress⟩
  refine .bind (Q := fun result st =>
    result = code.program.output (code.runs + 1) (.placedAt r.address) ∧
      st.1 = { code with runs := code.runs + 2 } ∧ host.memory.Granted sized.length st.2.memory)
        (.attempt (.within fun st hst c hc => ?_)) fun result => ?_
  · -- Whatever the second run gives is kept for later, a fault too.
    rcases Code.assemble_ends c r.address with ⟨hresult, hstate⟩
    rw [hresult, hstate, hc, hst.2.1]
    split
    · next hrun => exact ⟨hrun.symm, rfl, hst.2.2⟩
    · next hrun => exact ⟨hrun.symm, rfl, hst.2.2⟩
  refine .assuming (fun _ h => h.1) fun hplaced => ?_
  cases result with
  | error fault =>
      have hend : Generation code host (.error fault) 2 := .unplaced hsized hr hplaced.symm
      exact (giveUp_from r fun _ => ⟨2, hend, rfl⟩).before fun _ h => h.2.1
  | ok bytes =>
      dsimp only
      split
      · next hlength =>
          -- Pages are never handed out at zero, so the bytes can be written.
          have hzero : host.nextBase ≠ 0 := by
            intro hnull
            rw [Region.address, hbase, hnull] at haddress
            exact Nat.ne_of_gt positive haddress.symm
          refine .bind (Q := fun _ st => st.1 = { code with runs := code.runs + 2 } ∧
            ∃ m, host.memory.Granted sized.length m ∧
              st.2.memory = m.write r.address.toNat bytes) (.within fun st hst => ?_) fun _ => ?_
          · have haddr : host.nextBase = r.address := by
              rw [Region.address, hbase]
              rfl
            refine (writeStart_from hbase hzero (hlength ▸ hr.fits) st.2.memory).weaken
              (fun s hs => congrArg Host.memory hs) (fun _ s hs => ?_) fun _ _ h => h.elim
            exact ⟨hst.2.1, st.2.memory, hst.2.2, haddr ▸ hs⟩
          · refine .ret fun st hst => ?_
            rcases hst with ⟨hcode, m, hgranted, hmemory⟩
            rw [hsize]
            exact ⟨.made hsized hr hplaced.symm hlength, hcode, bytes, m, hplaced.symm, hlength,
              hgranted, hmemory⟩
      · next hlength =>
          -- A region that does not fit its bytes is given up as well.
          have hend := Generation.resized hsized hr hplaced.symm hlength
          exact (giveUp_from r fun _ => ⟨2, hend, rfl⟩).before fun _ h => h.2.1

/-- Generating code leaves older memory intact, and a failure leaves no pages. -/
theorem generate_leaves (code : Code) {host : Host} (horderly : host.memory.Orderly)
    (haligned : host.memory.Aligned) :
    Triple (fun st => st = (code, host)) generate
      (fun r st => st.2.memory.extents.Perm (r.extents ++ host.memory.extents) ∧
        host.memory.Intact st.2.memory)
      fun _ st => st.2.memory.extents.Perm host.memory.extents ∧
        host.memory.Intact st.2.memory := by
  have hgenerate := (upkeep_prepared horderly haligned host.slot).tending.generate
  have hprepared := hgenerate.after (s := (code, host)) (.start host)
  have hends := generate_owns (code, host) (Host.ownsSince_self horderly)
  intro st hst
  rw [hst]
  split
  · next hok =>
      rw [hok] at hends
      exact ⟨hends.extents, hprepared.intact⟩
  · next hfault =>
      rw [hfault] at hends
      exact ⟨hends.extents, hprepared.intact⟩

end Region

end Hotpatch
