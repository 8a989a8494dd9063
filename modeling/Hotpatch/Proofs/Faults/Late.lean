import Hotpatch.Proofs.Triple
import Hotpatch.Region

/-!
# Faults Found Late

Faults that are found while encoding are raised by code alone. Nothing that asks
the host for something raises one, whether it is for pages, for protections, or to
store bytes, so such a fault says that the host was not asked to write anything.

## Main definitions

* `Action.FailsLate`: An action that raises no fault of encoding.

## Theorems

* `FailsLate.bind`, `FailsLate.bind_attempt`: Actions put together.
* `allocate_failsLate`, `write_failsLate`: Regions of executable memory.
-/

namespace Hotpatch

open Hotpatch.Action

namespace Action

variable {σ α β : Type}

/-- An action that raises no fault of encoding. -/
def FailsLate (act : Action σ α) : Prop :=
  Triple (fun _ => True) act (fun _ _ => True) fun fault _ => fault.isEncoding = false

namespace FailsLate

variable {act : Action σ α}

theorem bind {f : α → Action σ β} (h : FailsLate act) (hf : ∀ a, FailsLate (f a)) :
    FailsLate (act >>= f) :=
  Triple.bind h hf

theorem ret (a : α) : FailsLate (pure a : Action σ α) :=
  Triple.ret fun _ h => h

theorem fail {fault : Fault} (h : fault.isEncoding = false) :
    FailsLate (Action.fail fault : Action σ α) :=
  Triple.fail fun _ _ => h

theorem gets (f : σ → α) : FailsLate (Action.gets f) :=
  Triple.gets fun _ h => h

theorem modify (f : σ → σ) : FailsLate (Action.modify f) :=
  Triple.modify fun _ h => h

theorem log (n : Note) : FailsLate (Action.log n : Action σ Unit) :=
  Triple.log fun _ h => h

/-- An action whose fault is looked at before it is raised again. -/
theorem bind_attempt {f : Except Fault α → Action σ β} (h : FailsLate act)
    (hok : ∀ a, FailsLate (f (.ok a)))
    (herror : ∀ fault, fault.isEncoding = false → FailsLate (f (.error fault))) :
    FailsLate (act.attempt >>= f) := by
  refine Triple.bind (Triple.settle h) fun result => ?_
  cases result with
  | ok a => exact hok a
  | error fault =>
      -- What is known of the fault is no matter of the state, so it can be assumed.
      refine Triple.assuming (p := fault.isEncoding = false) (fun _ hs => hs) fun hlate => ?_
      exact Triple.before (herror fault hlate) fun _ _ => True.intro

end FailsLate

end Action

namespace Host

theorem allocatePages_failsLate (length : Nat) (protection : Protection) :
    FailsLate (allocatePages length protection) := by
  unfold allocatePages
  refine .bind (.gets _) fun host => ?_
  split
  · exact .bind (.modify _) fun _ => .fail rfl
  · split
    · exact .fail rfl
    · exact .bind (.modify _) fun _ => .ret _

theorem changeProtection_failsLate (address : Address) (length : Nat)
    (protection : Nat → Protection) : FailsLate (changeProtection address length protection) := by
  unfold changeProtection
  dsimp only
  split
  · exact Triple.fail_bind fun _ _ => rfl
  · refine .bind (.gets _) fun host => .bind (.modify _) fun _ => ?_
    split
    · exact .fail rfl
    · split
      · exact .modify _
      · exact .fail rfl

theorem store_failsLate (address : Address) (bytes : List UInt8) :
    FailsLate (store address bytes) := by
  unfold store
  split
  · exact .fail rfl
  · exact .modify _

end Host

namespace Region

theorem locate_failsLate (r : Region) (offset length : Nat) :
    FailsLate (Action.ofExcept (r.locate offset length) : Action Host Address) := by
  refine Triple.ofExcept (fun _ _ _ h => h) fun fault _ hf _ => ?_
  cases hbase : r.base with
  | none =>
      rw [locate_of_released hbase, Except.error.injEq] at hf
      rw [← hf]
      rfl
  | some base =>
      -- A region that is there refuses nothing but a range that does not fit it.
      simp only [locate, liveAddress, hbase, bind, Except.bind] at hf
      split at hf
      · exact absurd hf (by simp only [pure, Except.pure, reduceCtorEq, not_false_eq_true])
      · rw [← Except.error.inj hf]
        rfl

theorem write_failsLate (r : Region) (offset : Nat) (bytes : List UInt8) :
    FailsLate (r.write offset bytes) := by
  refine .bind (r.locate_failsLate offset bytes.length) fun address => ?_
  exact Host.store_failsLate address bytes

theorem release_failsLate (r : Region) : FailsLate r.release := by
  unfold release
  split
  · exact .ret r
  · exact .bind (.log _) fun _ => .bind (.modify _) fun _ => .ret _

theorem allocate_failsLate (size : Nat) : FailsLate (allocate size) := by
  unfold allocate
  dsimp only
  split
  · exact Triple.fail_bind fun _ _ => rfl
  · refine .bind (Host.allocatePages_failsLate size .readWrite) fun base => ?_
    -- If the pages cannot be made to run they are given back, and the fault stays the same.
    refine .bind_attempt (Host.changeProtection_failsLate base size _) (fun _ => ?_)
      fun fault hlate => ?_
    · exact .bind (.log _) fun _ => .ret _
    · exact .bind (.modify _) fun _ => .fail hlate

end Region

end Hotpatch
