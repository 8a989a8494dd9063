import Hotpatch.Proofs.Ownership.Host
import Hotpatch.Trampoline

/-!
# Ownership Of Regions

A live region owns one extent, and a released one owns none. Every way to make a
region either adds its extent to the account or, wherever it fails, leaves the
account as it was: pages whose protection could not be changed go back, and so
does the region of code that could not be generated or came out at another
length. Only the write into a new region goes unguarded, and that write cannot
fail.

## Main definitions

* `Region.extents`: What a region owns.

## Theorems

* `allocate_owns`, `release_owns`: A region enters the account and leaves it.
* `writeStart_owns`: The first write into a new region.
* `ofBytes_owns`, `generate_owns`, `build_owns`: Regions with code in them.
-/

namespace Hotpatch

open Hotpatch.Action

namespace Region

def extents (r : Region) : List Extent :=
  match r.base with
  | some base => [⟨base.toNat, wholePages r.size⟩]
  | none => []

theorem base_of_live {r : Region} (h : r.isReleased = false) : r.base = some r.address := by
  rcases r with ⟨_ | base, size⟩
  · exact absurd h.symm Bool.false_ne_true
  · rfl

/-- What a live region owns begins where it does and has room for all of it. -/
theorem extent_of_live {r : Region} (h : r.isReleased = false) :
    ⟨r.address.toNat, wholePages r.size⟩ ∈ r.extents := by
  rw [extents, base_of_live h]
  exact List.mem_singleton_self _

/-- A region that is younger than some memory. -/
def Young (origin : Memory) (r : Region) : Prop :=
  ∃ base, r.base = some base ∧ origin.next ≤ base.toNat

variable {origin : Memory} {floor : Nat} {owned : List Extent}

/-- A new region enters the account. Pages whose protection is not changed go
    back. -/
theorem allocate_owns (size : Nat) :
    Triple (Host.OwnsSince origin owned) (allocate size)
      (fun r host => host.OwnsSince origin (r.extents ++ owned) ∧ r.Fits 0 size ∧ r.Young origin)
      fun _ host => host.OwnsSince origin owned := by
  unfold allocate
  dsimp only
  split
  · exact .fail_bind fun _ h => h
  · refine .bind (Host.allocatePages_owns size .readWrite) fun base => ?_
    refine .assuming (fun _ h => h.2) fun ⟨hyoung, hword⟩ => ?_
    -- A length that was granted is one of a word, so all of the region can be written at once.
    have hfits : Fits ⟨some base, size⟩ 0 size := by
      rw [fits_iff, Nat.zero_add]
      exact ⟨hword, Nat.le_refl size⟩
    have hchange : Preserves (Host.OwnsSince origin (⟨base.toNat, wholePages size⟩ :: owned)) _ :=
      (Host.changeProtection_untouched base size fun _ => .readWriteExecute).preserves
        Host.stable_ownsSince
    refine .bind (.attempt (Q := fun _ => Host.OwnsSince origin (⟨base.toNat, wholePages size⟩ ::
      owned)) (Triple.before hchange fun _ h => h.1)) fun result => ?_
    cases result with
    | error fault =>
        -- The pages are in the account only until they are given back here.
        have hfree : Triple (Host.OwnsSince origin
            (⟨base.toNat, wholePages size⟩ :: owned)) _ _ _ :=
          Host.freePages_owns base (wholePages size)
        refine .bind (hfree.weaken (fun _ h => h) (fun _ _ h => h) fun _ _ h => h.elim) fun _ => ?_
        exact .fail fun _ h => h
    | ok _ =>
        refine .bind_log ?_
        exact .ret fun _ h => ⟨h, hfits, base, rfl, hyoung⟩

/-- A live region leaves the account when it is released. Nothing happens to the
    account when it was released before. -/
theorem release_owns (r : Region) :
    Triple (Host.OwnsSince origin (r.extents ++ owned)) r.release
      (fun r' host => host.OwnsSince origin (r'.extents ++ owned) ∧ r'.base = none)
      fun _ _ => False := by
  unfold release extents
  cases hbase : r.base with
  | none =>
      refine .ret fun _ h => ⟨?_, hbase⟩
      rw [hbase]
      exact h
  | some base =>
      -- The base is forgotten with the pages, so they cannot be given back again.
      refine .bind_log ?_
      refine .bind (Host.freePages_owns base _) fun _ => ?_
      exact .ret fun _ h => ⟨h, rfl⟩

/-- A region that was released owns nothing any more. -/
theorem release_gone (r : Region) :
    Triple (Host.Owns floor (r.extents ++ owned)) r.release
      (fun r' host => host.Owns floor owned ∧ r'.extents = []) fun _ _ => False := by
  refine .pointwise fun host howns => ?_
  have hrelease : Triple (Host.OwnsSince host.memory (r.extents ++ owned)) _ _ _ := r.release_owns
  refine hrelease.weaken (fun h hh => hh ▸ howns.since) (fun r' h hr => ?_) fun _ _ h => h
  -- Without a base there are no extents, so the account is what was beside the region.
  have hempty : r'.extents = [] := by
    rw [extents, hr.2]
  have howned := hr.1.owns howns.later
  rw [hempty] at howned
  exact ⟨howned, hempty⟩

theorem release_keeps (r : Region) :
    Triple (Host.Owns floor (r.extents ++ owned)) r.release
      (fun r' host => host.Owns floor (r'.extents ++ owned)) fun _ _ => False := by
  refine r.release_gone.weaken (fun _ h => h) (fun r' host h => ?_) fun _ _ h => h
  rw [h.2]
  exact h.1

/-- Bytes stored at the beginning of a region of the account. The region does not
    begin at zero, so the store is never refused. -/
theorem writeStart_owns {r : Region} (young : r.Young origin) {bytes : List UInt8}
    (fits : r.Fits 0 bytes.length) :
    Triple (Host.OwnsSince origin (r.extents ++ owned)) (r.write 0 bytes)
      (fun _ host => host.OwnsSince origin (r.extents ++ owned)) fun _ _ => False := by
  rcases young with ⟨base, hbase, hyoung⟩
  have hlocate : r.locate 0 bytes.length = .ok base :=
    locate_eq_ok.mpr ⟨base, hbase, fits, UInt64.add_zero base⟩
  unfold write
  rw [hlocate]
  refine .bind (Q := fun address host =>
    address = base ∧ host.OwnsSince origin (r.extents ++ owned)) (fun s h => ⟨rfl, h⟩) ?_
  · intro a
    refine .assuming (fun _ h => h.1) fun ha => ?_
    rw [ha]
    unfold Host.store
    split
    · -- A mapped region at zero would contradict the account.
      next hzero =>
        refine .fail fun host h => ?_
        have hmem : (⟨base.toNat, wholePages r.size⟩ : Extent) ∈ host.memory.extents := by
          rw [h.2.extents.mem_iff, extents, hbase]
          exact List.mem_cons_self
        have hpositive := (h.2.orderly.placed _ hmem).1
        rw [hzero] at hpositive
        exact absurd hpositive (Nat.lt_irrefl 0)
    · -- The region is younger than the memory that must not change.
      exact .modify fun host h => h.2.write hyoung bytes

/-- A region made from bytes. -/
theorem ofBytes_owns (bytes : List UInt8) :
    Triple (Host.OwnsSince origin owned) (ofBytes bytes)
      (fun r host => host.OwnsSince origin (r.extents ++ owned))
      fun _ host => host.OwnsSince origin owned := by
  unfold ofBytes
  refine .bind (allocate_owns bytes.length) fun r => ?_
  refine .assuming (fun _ h => h.2) fun ⟨hfits, hyoung⟩ => ?_
  refine .bind (Q := fun _ host => host.OwnsSince origin (r.extents ++ owned)) ?_ fun _ =>
    .ret fun _ h => h
  -- The first write into a new region never fails, so the region is never lost.
  exact (writeStart_owns hyoung hfits).weaken (fun _ h => h.1)
    (fun _ _ h => h) fun _ _ h => h.elim

/-- A region of generated code. However the second run of the code goes, the
    region is given back unless it holds what that run gave. -/
theorem generate_owns :
    Triple (fun st : Code × Host => st.2.OwnsSince origin owned) generate
      (fun r st => st.2.OwnsSince origin (r.extents ++ owned))
      fun _ st => st.2.OwnsSince origin owned := by
  have hgiveBack : ∀ (r : Region) (fault : Fault),
      Triple (fun st : Code × Host => st.2.OwnsSince origin (r.extents ++ owned))
        (do let _ ← r.release.onSecond; Action.fail fault : Action (Code × Host) Region)
        (fun r st => st.2.OwnsSince origin (r.extents ++ owned))
        fun _ st => st.2.OwnsSince origin owned := by
    intro r fault
    refine .bind (Q := fun _ st => st.2.OwnsSince origin owned) ?_ fun _ => .fail fun _ h => h
    refine (release_owns r).onSecond.weaken (fun _ h => h) (fun r' st h => ?_) fun _ _ h => h.elim
    have hempty : r'.extents = [] := by
      rw [extents, h.2]
    have howns := h.1
    rwa [hempty] at howns
  -- Until there is a region nothing is owned, and from then on it is given back
  -- at every way out but the last.
  unfold generate
  refine .bind (Q := fun _ st => st.2.OwnsSince origin owned)
    (.onFirst (fun _ _ h => h) fun _ _ h => h) fun expected => ?_
  refine .bind (allocate_owns expected).onSecond fun r => ?_
  refine .assuming (fun _ h => h.2) fun ⟨hfits, hyoung⟩ => ?_
  refine .bind (Q := fun _ st => st.2.OwnsSince origin (r.extents ++ owned))
    (.attempt (.before (.onFirst (fun _ _ h => h) fun _ _ h => h) fun _ h => h.1)) fun result => ?_
  cases result with
  | error fault => exact hgiveBack r fault
  | ok bytes =>
      dsimp only
      split
      · next hlength =>
          refine .bind (Q := fun _ st => st.2.OwnsSince origin (r.extents ++ owned)) ?_ fun _ =>
            .ret fun _ h => h
          rw [← hlength] at hfits
          exact (writeStart_owns hyoung hfits).onSecond.weaken (fun _ h => h) (fun _ _ h => h)
            fun _ _ h => h.elim
      · exact hgiveBack r _

end Region

/-- A trampoline owns the region of its stub. -/
theorem Trampoline.build_owns {origin : Memory} {owned : List Extent} (d : Direction)
    (arity : Nat) (target : Address) :
    Triple (Host.OwnsSince origin owned) (build d arity target)
      (fun t host => host.OwnsSince origin (t.region.extents ++ owned))
      fun _ host => host.OwnsSince origin owned := by
  unfold build
  refine .bind (Preserves.ofExcept _) fun template => ?_
  dsimp only
  split
  · exact .fail_bind fun _ h => h
  · refine .bind (Preserves.ofExcept _) fun code => ?_
    refine .bind (Region.ofBytes_owns code) fun region => ?_
    exact .bind_log (.ret fun _ h => h)

end Hotpatch
