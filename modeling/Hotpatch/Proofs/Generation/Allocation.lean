import Hotpatch.Proofs.Ownership.Region

/-!
# How An Allocation Ends

A new region is made in two requests, for pages and for their protection, and each can
be refused. The ends of an allocation are told apart by what the host was like before:
whether it has room for the pages, and how many failures are arranged for it. No two of
these ends can both be reached from one host.

What an allocation leaves of memory is known exactly as well. The pages of a region that
was made can be run. Pages whose protection was refused are gone again.

## Main definitions

* `Host.HasRoom`: A host that hands out pages for a length.
* `Region.Allocation`: How an allocation ends.
* `Memory.Granted`: A memory with the pages of a new region.

## Theorems

* `allocatePages_from`, `changeProtection_from`: The two requests.
* `allocate_from`: An allocation, and what it leaves of memory.
* `Allocation.unique`: One end for each host.
* `Allocation.address`: Where a region begins.
-/

namespace Hotpatch

open Hotpatch.Action

/-- A host that hands out pages for a length, because no failure is arranged and the length
    fits. -/
def Host.HasRoom (host : Host) (length : Nat) : Prop :=
  host.failingAllocations = 0 ∧ wholePages length ≤ largestExtent ∧
    host.memory.next + wholePages length + pageSize ≤ addressSpace

/-- Where the pages begin that are handed out next. -/
def Host.nextBase (host : Host) : Address :=
  UInt64.ofNat host.memory.next

/-- How the allocation of a region ends on a host. -/
inductive Region.Allocation (host : Host) (size : Nat) : Except Fault Region → Prop
  | empty (none : size = 0) : Allocation host size
      (.error (.badArgument "size" "executable memory must not be empty"))
  | noRoom (positive : 0 < size) (room : ¬ host.HasRoom size) : Allocation host size
      (.error (.outOfMemory size .systemCall))
  | refused (positive : 0 < size) (room : host.HasRoom size)
      (failing : host.Refusing) : Allocation host size
      (.error (.protectionRefused host.nextBase size .systemCall))
  | granted (positive : 0 < size) (room : host.HasRoom size)
      (willing : ¬ host.Refusing) : Allocation host size
      (.ok ⟨some host.nextBase, size⟩)

/-- From one host an allocation ends in one way. -/
theorem Region.Allocation.unique {host : Host} {size : Nat} {result result' : Except Fault Region}
    (h : Allocation host size result) (h' : Allocation host size result') : result = result' := by
  -- The guards of two different ends contradict each other.
  cases h with
  | empty none =>
      cases h' with
      | empty _ => rfl
      | _ => omega
  | noRoom positive room =>
      cases h' with
      | empty none => omega
      | noRoom _ _ => rfl
      | refused _ room' _ => exact absurd room' room
      | granted _ room' _ => exact absurd room' room
  | refused positive room failing =>
      cases h' with
      | empty none => omega
      | noRoom _ room' => exact absurd room room'
      | refused _ _ _ => rfl
      | granted _ _ willing => exact absurd failing willing
  | granted positive room willing =>
      cases h' with
      | empty none => omega
      | noRoom _ room' => exact absurd room room'
      | refused _ _ failing => exact absurd failing willing
      | granted _ _ _ => rfl

/-- A memory with the pages of a new region, which can be run. -/
def Memory.Granted (m : Memory) (size : Nat) (m' : Memory) : Prop :=
  ∃ reserved, m.reserve size .readWrite = some (m.next, reserved) ∧
    m' = reserved.protect m.next size fun _ => .readWriteExecute

/-- A memory whose next pages were handed out and are gone again, or that is as it was. -/
def Memory.Spent (m : Memory) (size : Nat) (m' : Memory) : Prop :=
  m' = m ∨ ∃ reserved, m.reserve size .readWrite = some (m.next, reserved) ∧
    m' = reserved.unmap m.next

namespace Host

variable {host : Host} {length : Nat} {protection : Protection}

/-- The pages that come next begin at an address. -/
theorem HasRoom.toNat_nextBase (h : host.HasRoom length) :
    host.nextBase.toNat = host.memory.next := by
  have hpage : 0 < pageSize := Nat.le_of_ble_eq_true rfl
  have hfits := h.2.2
  simp only [addressSpace] at hfits
  rw [nextBase, UInt64.toNat_ofNat']
  -- A page is left over at the end of the address space, so the base does not wrap.
  exact Nat.mod_eq_of_lt (by omega)

/-- A host with room has pages to hand out. -/
theorem reserve_of_hasRoom (h : host.HasRoom length) (protection : Protection) :
    ∃ m, host.memory.reserve length protection = some (host.memory.next, m) := by
  unfold Memory.reserve
  dsimp only
  rw [if_pos h.2]
  exact ⟨_, rfl⟩

/-- Pages are handed out if there is room, and nothing happens to memory otherwise. -/
theorem allocatePages_from (host : Host) (length : Nat) (protection : Protection) :
    Triple (fun h => h = host) (allocatePages length protection)
      (fun base h => host.HasRoom length ∧ base = host.nextBase ∧
        (h.Refusing ↔ host.Refusing) ∧
        host.memory.reserve length protection = some (host.memory.next, h.memory))
      fun fault h => ¬ host.HasRoom length ∧ fault = .outOfMemory length .systemCall ∧
        h.memory = host.memory := by
  unfold allocatePages
  refine .bind_known (a := host) (fun _ h => h) ?_
  split
  · next pending hpending =>
      -- An arranged failure is used up, and there is no room while one is left.
      have hnoRoom : ¬ host.HasRoom length := fun hroom =>
        absurd (hpending.symm.trans hroom.1) (Nat.succ_ne_zero pending)
      refine .bind_modify (M := fun h => h.memory = host.memory) (.fail fun h hh => ?_)
        fun h hh => hh ▸ rfl
      exact ⟨hnoRoom, rfl, hh⟩
  · next hnone =>
      split
      · next hreserve =>
          refine .fail fun h hh => ⟨fun hroom => ?_, rfl, congrArg Host.memory hh⟩
          rcases reserve_of_hasRoom hroom protection with ⟨m, hm⟩
          rw [hreserve] at hm
          exact absurd hm.symm (Option.some_ne_none _)
      · next base memory hreserve =>
          rcases Memory.reserve_eq_some hreserve with ⟨hbase, -⟩
          -- Pages were handed out, so the length was small enough.
          have hroom : host.HasRoom length := by
            refine ⟨hnone, ?_⟩
            unfold Memory.reserve at hreserve
            dsimp only at hreserve
            split at hreserve
            · next hfits => exact hfits
            · exact absurd hreserve.symm (Option.some_ne_none _)
          refine .bind_modify (M := fun h => h = { host with memory }) (.ret fun h hh => ?_)
            fun h hh => hh ▸ rfl
          rw [hh]
          exact ⟨hroom, congrArg UInt64.ofNat hbase, Iff.rfl, hbase ▸ hreserve⟩

/-- The protection of mapped pages changes unless a failure is arranged. -/
theorem changeProtection_from (host : Host) {address : Address} (hlength : length ≠ 0)
    (hcovers : host.memory.Covers address.toNat length) (protection : Nat → Protection) :
    Triple (fun h => h = host) (changeProtection address length protection)
      (fun _ h => ¬ host.Refusing ∧
        h.memory = host.memory.protect address.toNat length protection)
      fun fault h => host.Refusing ∧
        fault = .protectionRefused address length .systemCall ∧ h.memory = host.memory := by
  unfold changeProtection
  rw [if_neg hlength]
  dsimp only
  refine .bind_known (a := host) (fun _ h => h) ?_
  -- The request is counted off the arranged failures before it is refused or granted.
  refine .bind_modify (M := fun h => h.memory = host.memory) ?_ fun h hh => hh ▸ rfl
  rw [if_pos hcovers]
  split
  · next hrefusing => exact .fail fun h hh => ⟨hrefusing, rfl, hh⟩
  · next hwilling =>
      exact .modify fun h hh =>
        ⟨hwilling, congrArg (·.protect address.toNat length protection) hh⟩

end Host

namespace Region

/-- An allocation ends as the host it begins with says, and leaves memory with the pages of
    the region, or with nothing new. -/
theorem allocate_from (host : Host) (size : Nat) :
    Triple (fun h => h = host) (allocate size)
      (fun r h => Allocation host size (.ok r) ∧ host.memory.Granted size h.memory)
      fun fault h => Allocation host size (.error fault) ∧
        host.memory.Spent size h.memory := by
  unfold allocate
  dsimp only
  split
  · next hsize =>
      exact .fail_bind fun h hh => ⟨.empty hsize, .inl (congrArg Host.memory hh)⟩
  · next hsize =>
      have hpositive : 0 < size := Nat.pos_of_ne_zero hsize
      refine .bind ((Host.allocatePages_from host size .readWrite).weaken (fun _ h => h)
        (fun _ _ h => h) fun fault h hh => ?_) fun base => ?_
      · -- Without pages there is nothing to take back.
        rw [hh.2.1]
        exact ⟨.noRoom hpositive hh.1, .inl hh.2.2⟩
      · refine .assuming (fun _ h => And.intro h.1 h.2.1) fun ⟨hroom, hbase⟩ => ?_
        rw [hbase]
        have htoNat := hroom.toNat_nextBase
        refine .pointwise fun given hgiven => ?_
        rcases hgiven with ⟨-, -, hfailing, hreserve⟩
        -- The new pages are mapped, so only an arranged failure stands in the way.
        have hcovers : given.memory.Covers host.nextBase.toNat size := by
          rcases Memory.reserve_eq_some hreserve with ⟨-, -, hextents, -⟩
          refine ⟨⟨host.memory.next, wholePages size⟩, ?_, ?_, ?_⟩
          · rw [hextents]
            exact List.mem_append_right _ (List.mem_singleton_self _)
          · exact Nat.le_of_eq htoNat.symm
          · exact htoNat ▸ Nat.add_le_add_left (le_wholePages size) _
        refine .bind (Host.changeProtection_from given hsize hcovers _).settle fun result => ?_
        cases result with
        | error fault =>
            -- The pages are freed before the fault is passed on.
            refine .bind (Q := fun _ h => given.Refusing ∧
              fault = .protectionRefused host.nextBase size .systemCall ∧
                h.memory = given.memory.unmap host.memory.next) (.modify fun h hh => ?_) fun _ => ?_
            · rw [← htoNat]
              exact ⟨hh.1, hh.2.1, congrArg (·.unmap host.nextBase.toNat) hh.2.2⟩
            · refine .fail fun h hh => ?_
              rw [hh.2.1]
              exact ⟨.refused hpositive hroom (hfailing.mp hh.1), .inr ⟨_, hreserve, hh.2.2⟩⟩
        | ok _ =>
            refine .bind_log (.ret fun h hh => ?_)
            have hwilling : ¬ host.Refusing := fun hrefusing => hh.1 (hfailing.mpr hrefusing)
            refine ⟨.granted hpositive hroom hwilling, _, hreserve, ?_⟩
            rw [← htoNat]
            exact hh.2

/-- All of a region that was just allocated can be written at once. -/
theorem Allocation.fits {host : Host} {size : Nat} {r : Region}
    (h : Allocation host size (.ok r)) : r.Fits 0 size := by
  cases h with
  | granted positive room willing =>
      have hpage : 0 < pageSize := Nat.le_of_ble_eq_true rfl
      have hwhole : size ≤ wholePages size := le_wholePages size
      have hnext := room.2.2
      rw [fits_iff, Nat.zero_add]
      -- Its pages were below the end of the address space, so its size is too.
      exact ⟨by omega, Nat.le_refl size⟩

/-- Where a region that was just allocated begins. -/
theorem Allocation.address {host : Host} {size : Nat} {r : Region}
    (h : Allocation host size (.ok r)) :
    r.base = some host.nextBase ∧ r.size = size ∧ 0 < size ∧
      r.address.toNat = host.memory.next := by
  cases h with
  | granted positive room willing => exact ⟨rfl, rfl, positive, room.toNat_nextBase⟩

end Region

namespace Memory

variable {m m' : Memory} {size : Nat}

/-- The pages of a new region are mapped and can be run. -/
theorem Granted.protectionAt (h : m.Granted size m') {a : Nat} (hlow : m.next ≤ a)
    (hhigh : a < m.next + size) : m'.protectionAt a = some .readWriteExecute := by
  rcases h with ⟨reserved, hreserve, rfl⟩
  rcases reserve_eq_some hreserve with ⟨-, -, hextents, -⟩
  have hmapped : (reserved.protect m.next size fun _ => .readWriteExecute).Mapped a := by
    refine ⟨⟨m.next, wholePages size⟩, ?_, hlow, Nat.lt_of_lt_of_le hhigh ?_⟩
    · change _ ∈ reserved.extents
      rw [hextents]
      exact List.mem_append_right _ (List.mem_singleton_self _)
    · exact Nat.add_le_add_left (le_wholePages size) _
  rw [Memory.protectionAt, if_pos hmapped]
  exact congrArg some (if_pos (touches_of_lt hlow hhigh))

end Memory

end Hotpatch
