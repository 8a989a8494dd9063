import Hotpatch.Barrier
import Hotpatch.Proofs.Memory.Contents
import Hotpatch.Proofs.Memory.Extents
import Hotpatch.Proofs.Triple

/-!
# Ownership Of Pages

Who is to give back which pages. An account of a host is a list of extents, and
the account is right if these are the mapped extents, in any order. Actions that
hand out pages add to the account, and actions that give pages back take from
it.

Next to the account stands what is left alone. Memory that is younger than some
point in time lies above all that was there before, so whatever is done with it
leaves the older contents as they were.

## Main definitions

* `Host.Owns`: An account of the mapped extents.
* `Host.OwnsSince`: An account, with the contents from a point in time on.
* `Host.Untouched`, `Host.Calm`: An action that changes no more than protections.

## Theorems

* `allocatePages_owns`, `freePages_owns`: Pages enter and leave an account.
* `Untouched.preserves`: What survives an untouched memory.
* `changeProtection_untouched`, `callBarrier_calm`: Actions that touch no memory.
* `bracketed_triple`, `withWritable_triple`: What brackets leave of an action.
-/

namespace Hotpatch

open Hotpatch.Action

namespace Host

/-- The mapped extents of a host are those of an account, and the pages that come
    next are not below some floor. -/
structure Owns (floor : Nat) (owned : List Extent) (host : Host) : Prop where
  orderly : host.memory.Orderly
  extents : host.memory.extents.Perm owned
  later : floor ≤ host.memory.next

/-- An account of a host which has left alone, since an earlier time, what was
    below the pages that came next then. -/
structure OwnsSince (origin : Memory) (owned : List Extent) (host : Host) : Prop extends
    Owns origin.next owned host where
  below : ∀ a < origin.next, host.memory.contents a = origin.contents a

variable {origin : Memory} {floor : Nat} {owned owned' : List Extent} {host host' : Host}

theorem Owns.perm (h : host.Owns floor owned) (hp : owned.Perm owned') :
    host.Owns floor owned' :=
  ⟨h.orderly, h.extents.trans hp, h.later⟩

theorem Owns.same (h : host.Owns floor owned) (hs : host.memory.Same host'.memory) :
    host'.Owns floor owned where
  orderly := h.orderly.congr hs.extents hs.next hs.unmapped
  extents := hs.extents ▸ h.extents
  later := hs.next ▸ h.later

theorem OwnsSince.same (h : host.OwnsSince origin owned) (hs : host.memory.Same host'.memory) :
    host'.OwnsSince origin owned :=
  ⟨h.toOwns.same hs, hs.contents ▸ h.below⟩

/-- An account is one since now. -/
theorem Owns.since (h : host.Owns floor owned) : host.OwnsSince host.memory owned :=
  ⟨⟨h.orderly, h.extents, Nat.le_refl _⟩, fun _ _ => rfl⟩

/-- A host whose memory is in order has an account of all that is mapped. -/
theorem ownsSince_self (orderly : host.memory.Orderly) :
    host.OwnsSince host.memory host.memory.extents where
  orderly := orderly
  extents := .refl _
  later := Nat.le_refl _
  below _ _ := rfl

/-- An account since a time is one with any floor from before. -/
theorem OwnsSince.owns (h : host.OwnsSince origin owned) (hfloor : floor ≤ origin.next) :
    host.Owns floor owned :=
  ⟨h.orderly, h.extents, Nat.le_trans hfloor h.later⟩

/-- A write is no matter of an account. -/
theorem Owns.write (h : host.Owns floor owned) (address : Nat) (bytes : List UInt8) :
    Owns floor owned { host with memory := host.memory.write address bytes } where
  orderly := h.orderly.congr rfl rfl rfl
  extents := h.extents
  later := h.later

theorem Owns.written (h : host.Owns floor owned) {address : Nat} {bytes : List UInt8}
    (hs : (host.memory.write address bytes).Same host'.memory) : host'.Owns floor owned :=
  (h.write address bytes).same hs

/-- A write to younger memory leaves the older alone. -/
theorem OwnsSince.write (h : host.OwnsSince origin owned) {address : Nat}
    (ha : origin.next ≤ address) (bytes : List UInt8) :
    OwnsSince origin owned { host with memory := host.memory.write address bytes } := by
  refine ⟨h.toOwns.write address bytes, fun a hlt => ?_⟩
  rw [Memory.contents_write_of_lt (by omega), h.below a hlt]

/-- A condition that only a change of memory, other than of protections, can
    break. -/
def Stable (P : Host → Prop) : Prop :=
  ∀ host host' : Host, P host → host.memory.Same host'.memory → P host'

theorem stable_owns : Stable (Owns floor owned) := by
  intro _ _ h hs
  exact h.same hs

theorem stable_ownsSince : Stable (OwnsSince origin owned) := by
  intro _ _ h hs
  exact h.same hs

theorem stable_same (m : Memory) : Stable fun host => m.Same host.memory := by
  intro _ _ h hs
  exact h.trans hs

/-- An action that changes no more of a memory than protections. -/
def Untouched {α : Type} (act : Action Host α) : Prop :=
  ∀ m : Memory, Preserves (fun host => m.Same host.memory) act

/-- An action that changes no more of a memory than protections, and never
    fails. -/
def Calm {α : Type} (act : Action Host α) : Prop :=
  ∀ m : Memory, Triple (fun host => m.Same host.memory) act
    (fun _ host => m.Same host.memory) fun _ _ => False

section Brackets

variable {α : Type} {P : Host → Prop} {Q : α → Host → Prop} {E : Fault → Host → Prop}
  {act : Action Host α}

/-- What survives that a memory is not touched. -/
theorem Untouched.preserves (h : Untouched act) (hP : Stable P) : Preserves P act := by
  -- The memory that is not touched is that of the very host the action begins with.
  refine .pointwise fun host hp => ?_
  refine (h host.memory).weaken ?_ (fun _ s hs => hP host s hp hs) fun _ s hs => hP host s hp hs
  intro s hs
  rw [hs]
  exact .refl host.memory

theorem Calm.triple (h : Calm act) (hP : Stable P) : Triple P act (fun _ => P) E := by
  refine .pointwise fun host hp => ?_
  refine (h host.memory).weaken ?_ (fun _ s hs => hP host s hp hs) fun _ _ hs => hs.elim
  intro s hs
  rw [hs]
  exact .refl host.memory

theorem installBarrier_calm (barrier : Option Barrier) : Calm (installBarrier barrier) := by
  intro m
  refine .bind_gets fun _ => ?_
  refine .bind_modify (M := fun host => m.Same host.memory) ?_ fun _ h => h.1
  exact .ret fun _ h => h

theorem runHook_calm (hook : Hook) : Calm (runHook hook) := by
  intro m
  cases hook with
  | nothing => exact .ret fun _ h => h
  | clear =>
      refine .bind (installBarrier_calm none m) fun _ => ?_
      exact .emit fun _ h => h
  | set name =>
      refine .bind_gets fun found => ?_
      cases found with
      | none => exact .ret fun _ h => h.1
      | some barrier =>
          have hinstall := installBarrier_calm (some barrier) m
          refine .bind (hinstall.before fun _ h => h.1) fun _ => ?_
          exact .emit fun _ h => h

theorem callBarrier_calm (barrier : Barrier) (side : Side) (address : Address) (length : Nat) :
    Calm (callBarrier barrier side address length) := by
  intro m
  refine .bind_gets fun _ => ?_
  refine .bind (Q := fun _ host => m.Same host.memory) (.emit fun _ h => h.1) fun _ => ?_
  exact runHook_calm _ m

theorem stable_ends (hQ : ∀ a, Stable (Q a)) (hE : ∀ fault, Stable (E fault))
    (result : Except Fault α) : Stable (Ends Q E result) := by
  cases result with
  | ok a => exact hQ a
  | error fault => exact hE fault

/-- What an action does in the brackets of the barrier is what it does without
    them. -/
theorem bracketed_triple (hP : Stable P) (hQ : ∀ a, Stable (Q a)) (hE : ∀ fault, Stable (E fault))
    (address : Address) (length : Nat) (h : Triple P act Q E) :
    Triple P (bracketed address length act) Q E := by
  unfold bracketed
  refine .bind_gets fun barrier => ?_
  cases barrier with
  | none => exact h.before fun _ hs => hs.1
  | some barrier =>
      have henter := (callBarrier_calm barrier .enter address length).triple (E := E) hP
      refine .bind (henter.before fun _ hs => hs.1) fun _ => ?_
      -- The answer or fault is kept while the barrier is called again.
      refine .bind h.settle fun result => ?_
      have hleave := (callBarrier_calm barrier .leave address length).triple (E := E)
        (stable_ends hQ hE result)
      exact .bind hleave fun _ => .reraise

/-- Changing protections touches no memory, whether it is done or refused. -/
theorem changeProtection_untouched (address : Address) (length : Nat)
    (protection : Nat → Protection) : Untouched (changeProtection address length protection) := by
  intro m
  unfold changeProtection
  dsimp only
  split
  · exact .fail_bind fun _ h => h
  · refine .bind_gets fun host => ?_
    -- What was arranged is no part of the memory.
    refine .bind_modify (M := fun host => m.Same host.memory) ?_ fun _ h => h.1
    split
    · exact .fail fun _ h => h
    · split
      · exact .modify fun _ h => h.trans ⟨rfl, rfl, rfl, rfl⟩
      · exact .fail fun _ h => h

/-- What an action does while a range can be written is what it does otherwise.
    Only the range may be refused before. -/
theorem withWritable_triple (hP : Stable P) (hQ : ∀ a, Stable (Q a))
    (hE : ∀ fault, Stable (E fault))
    (hPE : ∀ fault host, P host → E fault host) (address : Address) (length : Nat)
    (h : Triple P act Q E) : Triple P (withWritable address length act) Q E := by
  unfold withWritable
  refine .bind_gets fun saved => ?_
  have hchange :=
    (changeProtection_untouched address length fun _ => .readWriteExecute).preserves hP
  refine .bind (Q := fun _ => P) ?_ fun _ => ?_
  · exact hchange.weaken (fun _ hs => hs.1) (fun _ _ hs => hs) hPE
  · -- Giving the pages their protections back is no matter of what was done.
    refine .bind h.settle fun result => ?_
    refine .bind_modify (M := Ends Q E result) .reraise fun host hs => ?_
    exact stable_ends hQ hE result host _ hs ⟨rfl, rfl, rfl, rfl⟩

/-- Plain reads touch no memory. -/
theorem load_untouched (address : Address) (length : Nat) : Untouched (load address length) := by
  intro m
  unfold load
  split
  · exact .fail _
  · exact .gets _

end Brackets

/-- New pages enter the account. They are younger than all that was there, and there are not
    more of them than addresses. -/
theorem allocatePages_owns (length : Nat) (protection : Protection) :
    Triple (OwnsSince origin owned) (allocatePages length protection)
      (fun base host =>
        host.OwnsSince origin (⟨base.toNat, wholePages length⟩ :: owned) ∧
          origin.next ≤ base.toNat ∧ length < addressSpace)
      fun _ host => host.OwnsSince origin owned := by
  unfold allocatePages
  refine .bind_gets fun host => ?_
  split
  · -- A refusal that was arranged is used up, which is no matter of the memory.
    exact .bind_modify (.fail fun _ h => h) fun _ h => h.1.same (.refl _)
  · split
    · exact .fail fun _ h => h.1
    · next base memory hreserve =>
        rcases Memory.reserve_eq_some hreserve with ⟨hbase, hfits, hextents, -, hnext, -⟩
        have hpage : 0 < pageSize := Nat.le_of_ble_eq_true rfl
        have hwhole : length ≤ wholePages length := le_wholePages length
        have hlength : length < addressSpace := by omega
        have htoNat := Memory.toNat_of_reserve hreserve
        refine .bind_modify (M := fun host => host.OwnsSince origin
          (⟨base, wholePages length⟩ :: owned) ∧ origin.next ≤ base) (.ret ?_) ?_
        · intro s h
          rw [htoNat]
          exact ⟨h.1, h.2, hlength⟩
        · rintro s ⟨h, rfl⟩
          have hlater := h.later
          refine ⟨⟨⟨h.orderly.reserve hreserve, ?_, ?_⟩, fun a ha => ?_⟩,
            by simp only [id] at hbase; omega⟩
          · simp only [hextents]
            exact List.perm_append_comm.trans (h.extents.cons _)
          · simp only [id] at hbase hnext
            simp only
            omega
          · -- Clearing the new pages does not reach below them.
            simp only
            rw [Memory.reserve_contents hreserve (by simp only [id]; omega), ← h.below a ha]
            rfl

/-- Pages that are given back leave the account. -/
theorem freePages_owns (base : Address) (length : Nat) :
    Triple (OwnsSince origin (⟨base.toNat, length⟩ :: owned)) (freePages base)
      (fun _ host => host.OwnsSince origin owned) fun _ _ => False := by
  refine .modify fun host h => ⟨⟨?_, ?_, h.later⟩, h.below⟩
  · exact h.orderly.unmap h.extents
  · exact h.orderly.unmap_extents h.extents

end Host

end Hotpatch
