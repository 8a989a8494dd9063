import Hotpatch.Proofs.Ownership.Commands

/-!
# Ownership Through Runs

Every mapped extent has one owner, at every point of every run of a session. An
account that is right before a command is right after it, whether the command
succeeds or not, so it is right after any list of commands. Pages that no object
owns are those that objects left behind when they were dropped.

## Main definitions

* `Session.leaked`: What a run leaves mapped that no object owns.
* `Session.OneOwner`: Every mapped extent has one owner.

## Theorems

* `step_accounted`, `run_accounted`: The account of a session through commands.
* `Accounted.region_mapped`: The pages of a region.
* `oneOwner_of_run`: Every mapped extent has one owner, whatever was done.
-/

namespace Hotpatch

open Hotpatch.Action

namespace Session

def leaked (s : Session) : List Command → List Extent
  | [] => []
  | command :: rest => (s.step command).1.leaked rest ++ s.leaks command

variable {floor : Nat} {kept : String → Option (Address × List UInt8) → Prop}
  {owned : List Extent} {s : Session}

theorem step_accounted (hs : s.Accounted floor kept owned) (command : Command)
    (hsubject : ∀ id, command.subject? = some id → ∀ r, kept id r) :
    (s.step command).1.Accounted floor kept (s.leaks command ++ owned) := by
  by_cases hdrop : ∃ id, command = .drop id
  · rcases hdrop with ⟨id, hid⟩
    rw [hid]
    exact (perform_drop (hsubject id (hid ▸ rfl) none) hs).after rfl
  · -- No other command leaves anything behind.
    have hleaks : s.leaks command = [] := by
      cases command <;> first | rfl | exact absurd ⟨_, rfl⟩ hdrop
    rw [hleaks]
    exact (perform_accounted (fun id h => hdrop ⟨id, h⟩) hsubject).after hs

theorem run_accounted (commands : List Command) (hs : s.Accounted floor (fun _ _ => True) owned) :
    (s.run commands).1.Accounted floor (fun _ _ => True) (s.leaked commands ++ owned) := by
  induction commands generalizing s owned with
  | nil => exact hs
  | cons command rest ih =>
      -- What a command leaves behind is part of the account of all later ones.
      have hstep := step_accounted hs command fun _ _ _ => True.intro
      have hrest := ih hstep
      rw [← List.append_assoc] at hrest
      exact hrest

theorem start_accounted (loader : Loader) :
    (start loader).Accounted 0 (fun _ _ => True) [] where
  proper := ⟨.nil, fun _ => True.intro⟩
  owns := ⟨Memory.orderly_empty, .refl _, Nat.zero_le _⟩

/-- Every mapped extent has one owner, or is among those that were left behind.
    No pages are unmapped twice, and regions are what they claim to be. -/
structure OneOwner (leaked : List Extent) (s : Session) : Prop where
  /-- The mapped extents are those that the objects own, and those left behind. -/
  mapped : s.host.memory.extents.Perm (s.objects.extents ++ leaked)
  apart : s.host.memory.extents.Pairwise Extent.Apart
  once : s.host.memory.unmapped.Nodup
  gone : ∀ base ∈ s.host.memory.unmapped, ∀ e ∈ s.host.memory.extents, e.base ≠ base
  live : ∀ id o r, s.get? id = some o → o.memory? = some r → r.isReleased = false →
    r.address ≠ 0 ∧ s.host.memory.Covers r.address.toNat r.size
  released : ∀ id o r, s.get? id = some o → o.memory? = some r → r.isReleased = true →
    r.address = 0

/-- The pages of a live region are mapped. -/
theorem Accounted.region_mapped (hs : s.Accounted floor kept owned) {id : String} {o : Object}
    {r : Region} (hget : s.get? id = some o) (hr : o.memory? = some r)
    (hlive : r.isReleased = false) :
    ⟨r.address.toNat, wholePages r.size⟩ ∈ s.host.memory.extents := by
  -- The extent of the region is among those of its object.
  have hsplit := (Objects.extents_of_get? hs.proper.names hget).append_right owned
  rw [hs.owns.extents.mem_iff, hsplit.mem_iff, Object.extents_of_memory? hr]
  exact List.mem_append_left _ (List.mem_append_left _ (Region.extent_of_live hlive))

/-- What an account says of the regions of a session. -/
theorem Accounted.oneOwner (hs : s.Accounted floor kept owned) : s.OneOwner owned where
  mapped := hs.owns.extents
  apart := hs.owns.orderly.apart
  once := hs.owns.orderly.once
  gone base hb := (hs.owns.orderly.gone base hb).2
  live id o r hget hr hlive := by
    have hmem := hs.region_mapped hget hr hlive
    refine ⟨?_, _, hmem, Nat.le_refl _, Nat.add_le_add_left (le_wholePages r.size) _⟩
    -- Nothing is mapped at zero, so the address is not the one of a released region.
    intro hzero
    have hpositive := (hs.owns.orderly.placed _ hmem).1
    rw [hzero] at hpositive
    exact absurd hpositive (Nat.lt_irrefl 0)
  released id o r hget hr hgone := by
    rw [Region.isReleased, Option.isNone_iff_eq_none] at hgone
    rw [Region.address, hgone]
    rfl

/-- Every mapped extent has one owner, whatever was done. -/
theorem oneOwner_of_run (loader : Loader) (commands : List Command) :
    ((start loader).run commands).1.OneOwner ((start loader).leaked commands) := by
  have hrun := run_accounted commands (start_accounted loader)
  rw [List.append_nil] at hrun
  exact hrun.oneOwner

end Session

end Hotpatch
