import Hotpatch.Patch.Install
import Hotpatch.Proofs.Ownership.Host

/-!
# What Patches Write

The effect of patches on contents. A write to live code either lands as a whole
or changes nothing, whatever the protections, the barrier in force and the
failures arranged for it. So a patch that fails leaves contents as they were:
the second write that it then tries puts back bytes that are there already.

## Theorems

* `overwrite_writes`: A write to live code.
* `put_writes`: A write of a patch.
* `writeReplacement_writes`: The bytes of a patch enter memory.
* `uninstall_writes`: The bytes that a patch replaced return.
-/

namespace Hotpatch

open Hotpatch.Action

theorem Host.store_writes (m : Memory) (address : Address) (bytes : List UInt8) :
    Triple (fun host => m.Same host.memory) (Host.store address bytes)
      (fun _ host => (m.write address.toNat bytes).Same host.memory)
      fun _ host => m.Same host.memory := by
  unfold Host.store
  split
  · exact .fail fun _ h => h
  · exact .modify fun _ h => h.write address.toNat bytes

/-- A write of no bytes. -/
theorem Memory.same_write_nil (m : Memory) (address : Nat) : m.Same (m.write address []) := by
  refine ⟨rfl, funext fun a => ?_, rfl, rfl⟩
  refine Memory.contents_write_of_outside ?_
  rw [List.length_nil]
  omega

/-- A write to live code lands as a whole or changes nothing. -/
theorem LiveCode.overwrite_writes (m : Memory) (live : LiveCode) (bytes : List UInt8)
    (unprotected : Bool) :
    Triple (fun host => m.Same host.memory) (live.overwrite bytes unprotected)
      (fun _ host => (m.write live.address.toNat bytes).Same host.memory)
      fun _ host => m.Same host.memory := by
  unfold overwrite
  split
  · -- No bytes are not even asked for permission.
    next hempty =>
      rw [List.isEmpty_iff.mp hempty]
      exact .ret fun _ h => (Memory.same_write_nil m _).symm.trans h
  · have hstore := Host.store_writes m live.address bytes
    -- Lifting the protection or not makes no difference to what is written.
    have hwrite : Triple (fun host => m.Same host.memory)
        (if unprotected then Host.withWritable live.address bytes.length
            (Host.store live.address bytes)
          else Host.store live.address bytes)
        (fun _ host => (m.write live.address.toNat bytes).Same host.memory)
        fun _ host => m.Same host.memory := by
      split
      · exact Host.withWritable_triple (Host.stable_same m) (fun _ => Host.stable_same _)
          (fun _ => Host.stable_same m) (fun _ _ h => h) _ _ hstore
      · exact hstore
    refine .bind_log (.bind ?_ fun _ => .ret fun _ h => h)
    exact Host.bracketed_triple (Host.stable_same m) (fun _ => Host.stable_same _)
      (fun _ => Host.stable_same m) _ _ hwrite

namespace Patch

/-- A write of a patch leaves the patch alone. -/
theorem put_writes (m : Memory) (p : Patch) (bytes : List UInt8) :
    Triple (fun st : Patch × Host => st.1 = p ∧ m.Same st.2.memory) (put bytes)
      (fun _ st => st.1 = p ∧ (m.write p.site.toNat bytes).Same st.2.memory)
      fun _ st => st.1 = p ∧ m.Same st.2.memory := by
  unfold put
  refine .bind_known (a := p) (fun st h => h.1) ?_
  refine .bind (Q := fun _ st => st.1 = p ∧ (m.write p.site.toNat bytes).Same st.2.memory) ?_
    fun _ => .ret fun _ h => h
  -- The write is one of the host, beside which the patch stays what it is.
  refine .within fun st h => ?_
  refine (LiveCode.overwrite_writes m p.live bytes p.unprotected).weaken (fun host hs => ?_)
    (fun _ _ hs => ⟨h.1, hs⟩) fun _ _ hs => ⟨h.1, hs⟩
  rw [hs]
  exact h.2

/-- The bytes of a patch enter memory, and the patch keeps those that were there.
    If they cannot be written, patch and contents are as before. -/
theorem writeReplacement_writes (m : Memory) (p : Patch) (bytes : List UInt8) :
    Triple (fun st : Patch × Host => st.1 = p ∧ m.Same st.2.memory) (writeReplacement bytes)
      (fun _ st => st.1 = { p with saved := some (m.read p.site.toNat bytes.length) } ∧
        (m.write p.site.toNat bytes).Same st.2.memory)
      fun _ st => st.1 = p ∧ m.Same st.2.memory := by
  unfold writeReplacement
  refine .bind_known (a := p) (fun st h => h.1) ?_
  -- What is read is what was there.
  refine .bind (Q := fun covered st => covered = m.read p.site.toNat bytes.length ∧
    st.1 = p ∧ m.Same st.2.memory) ?_ fun covered => ?_
  · refine .within fun st h => ?_
    unfold LiveCode.read Host.load
    split
    · exact .fail fun host hs => ⟨h.1, hs ▸ h.2⟩
    · refine .gets fun host hs => ⟨?_, h.1, hs ▸ h.2⟩
      rw [hs]
      exact Memory.read_congr fun i _ => by rw [h.2.contents]
  · refine .assuming (fun _ h => h.1) fun hcovered => ?_
    refine .bind ((put_writes m p bytes).before fun _ h => h.2).settle fun result => ?_
    cases result with
    | ok _ =>
        -- What was covered is kept from here on, and was read before the write.
        refine .bind_modify (M := fun st => st.1 = { p with saved := some covered } ∧
          (m.write p.site.toNat bytes).Same st.2.memory) ?_ fun st h => ⟨?_, h.2⟩
        · exact .bind_gets fun _ => .log fun st h => hcovered ▸ h.1
        · rw [h.1]
    | error fault =>
        -- The second write changes nothing: the bytes are there.
        have hsame : m.Same (m.write p.site.toNat covered) :=
          ⟨rfl, hcovered ▸ m.write_read _ _, rfl, rfl⟩
        have hback := (put_writes m p covered).weaken (fun _ h => h)
          (fun _ st h => And.intro h.1 (hsame.trans h.2)) fun _ _ h => h
        refine .bind (Q := fun _ (st : Patch × Host) => st.1 = p ∧ m.Same st.2.memory)
          (.attempt (hback.before fun _ h => h)) fun second => ?_
        cases second with
        | ok _ => exact .fail fun _ h => h
        | error _ => exact .bind_log (.fail fun _ h => h)

/-- The bytes that a patch replaced return, and the patch keeps them no more. If
    they cannot be written, patch and contents are as before. -/
theorem uninstall_writes (m : Memory) {p : Patch} {saved : List UInt8}
    (hsaved : p.saved = some saved) :
    Triple (fun st : Patch × Host => st.1 = p ∧ m.Same st.2.memory) uninstall
      (fun _ st => st.1 = { p with saved := none } ∧
        (m.write p.site.toNat saved).Same st.2.memory)
      fun _ st => st.1 = p ∧ m.Same st.2.memory := by
  unfold uninstall
  refine .bind_known (a := p) (fun st h => h.1) ?_
  rw [hsaved]
  refine .bind (put_writes m p saved) fun _ => ?_
  -- Only after the bytes are back the patch forgets them.
  refine .bind_modify (.log fun _ h => h) fun st h => ⟨?_, h.2⟩
  rw [h.1]

end Patch

end Hotpatch
