import Hotpatch.Proofs.Atomicity.Intact
import Hotpatch.Proofs.Generation.Allocation

/-!
# Pages And Their Protections

Between two commands every page has the protection that it was made with. Within a
command that is not so. New pages are first made writable, and can be run only in a
second step, which may fail. And the protection of pages that are written to is lifted
for the write.

So the protections are looked at only when a region is made or given up, and when a
write is over. Then old pages have what they had before, and new ones what the command
gives them.

## Main definitions

* `Memory.Settled`: Old pages as they were, and new ones as they were made.

## Theorems

* `Settled.grow`, `Settled.granted`, `Settled.spent`: New pages.
* `Settled.protectionAt`: The protection of an address.
* `tending_settled`: What is made by a command.
-/

namespace Hotpatch

open Hotpatch.Action

namespace Memory

/-- A memory in which the pages of an older one have the protections that they had, and
    new pages the protection that they were given. -/
structure Settled (origin : Memory) (given : Protection) (m : Memory) : Prop where
  later : origin.next ≤ m.next
  aligned : m.Aligned
  below : ∀ e ∈ m.extents, e.base + e.length < m.next
  known : ∀ e ∈ m.extents, e ∈ origin.extents ∨ origin.next ≤ e.base
  protection : ∀ a, m.Mapped a → m.protection (pageOf a) =
    if a < origin.next then origin.protection (pageOf a) else given

variable {origin m m' reserved : Memory} {given protection : Protection} {a length size : Nat}

/-- New pages end where others can begin. -/
theorem Aligned.reserve (haligned : m.Aligned)
    (hreserve : m.reserve length protection = some (m.next, reserved)) : reserved.Aligned := by
  have hchange : m.Change 0 reserved := .reserve hreserve
  exact haligned.change hchange

/-- Every page of a range that begins with a page holds a byte of the range. -/
theorem Aligned.touches (haligned : m.Aligned) (hlow : m.next ≤ a)
    (hhigh : a < m.next + wholePages size) : Touches m.next size (pageOf a) := by
  rcases haligned with ⟨count, hcount⟩
  refine ⟨Nat.div_le_div_right hlow, ?_⟩
  simp only [pageOf, pageSize, wholePages] at hcount hhigh ⊢
  omega

theorem Settled.self (horderly : m.Orderly) (haligned : m.Aligned) (given : Protection) :
    m.Settled given m where
  later := Nat.le_refl _
  aligned := haligned
  below e he := (horderly.placed e he).2
  known _ he := .inl he
  protection _ ha := (if_pos (horderly.lt_next ha)).symm

/-- A memory with the same pages, or with fewer. -/
theorem Settled.subset (h : Settled origin given m) (extents : ∀ e ∈ m'.extents, e ∈ m.extents)
    (next : m.next ≤ m'.next) (aligned : m'.Aligned)
    (old : ∀ page, page * pageSize < m.next → m'.protection page = m.protection page) :
    Settled origin given m' where
  later := Nat.le_trans h.later next
  aligned := aligned
  below e he := Nat.lt_of_lt_of_le (h.below e (extents e he)) next
  known e he := h.known e (extents e he)
  protection a ha := by
    rcases ha with ⟨e, he, hcontains⟩
    have hbelow : a < m.next := Nat.lt_trans hcontains.2 (h.below e (extents e he))
    rw [old _ (page_lt_next hbelow)]
    exact h.protection a ⟨e, extents e he, hcontains⟩

/-- A memory with new pages that have the protection that they are given. -/
theorem Settled.grow (h : Settled origin given m)
    (hreserve : m.reserve length protection = some (m.next, reserved))
    (extents : m'.extents = reserved.extents) (next : m'.next = reserved.next)
    (old : ∀ page, page * pageSize < m.next → m'.protection page = m.protection page)
    (new : ∀ a, m.next ≤ a → a < m.next + wholePages length → m'.protection (pageOf a) = given) :
    Settled origin given m' := by
  rcases reserve_eq_some hreserve with ⟨-, -, hextents, -, hnext, -⟩
  have hpage : 0 < pageSize := Nat.le_of_ble_eq_true rfl
  have hlater : m.next ≤ m'.next := by omega
  -- All extents are older ones but one, and that lies above them.
  have hmem : ∀ e ∈ m'.extents, e ∈ m.extents ∨ e = ⟨m.next, wholePages length⟩ := by
    intro e he
    rw [extents, hextents, List.mem_append, List.mem_singleton] at he
    exact he
  refine ⟨Nat.le_trans h.later hlater, ?_, fun e he => ?_, fun e he => ?_, fun a ha => ?_⟩
  · rw [Aligned, next]
    exact h.aligned.reserve hreserve
  · rcases hmem e he with he | rfl
    · exact Nat.lt_of_lt_of_le (h.below e he) hlater
    · simp only
      omega
  · rcases hmem e he with he | rfl
    · exact h.known e he
    · exact .inr h.later
  · rcases ha with ⟨e, he, hcontains⟩
    rcases hmem e he with he | rfl
    · have hbelow : a < m.next := Nat.lt_trans hcontains.2 (h.below e he)
      rw [old _ (page_lt_next hbelow)]
      exact h.protection a ⟨e, he, hcontains⟩
    · -- The address is new, also to the memory that is looked back to.
      rw [new a hcontains.1 hcontains.2, if_neg]
      exact Nat.not_lt.mpr (Nat.le_trans h.later hcontains.1)

/-- A range of new pages touches no older one. -/
theorem reserve_protection_old (haligned : m.Aligned)
    (hreserve : m.reserve length protection = some (m.next, reserved)) {page : Nat}
    (hpage : page * pageSize < m.next) : reserved.protection page = m.protection page := by
  rw [reserve_protection hreserve, if_neg (haligned.not_touches (Nat.le_refl _) hpage)]

/-- Pages of the environment have the protection that was asked for. -/
theorem Settled.reserve (h : Settled origin protection m)
    (hreserve : m.reserve length protection = some (m.next, m')) :
    Settled origin protection m' := by
  refine h.grow hreserve rfl rfl (fun _ => reserve_protection_old h.aligned hreserve)
    fun a hlow hhigh => ?_
  rw [reserve_protection hreserve, if_pos (touches_of_lt hlow hhigh)]

/-- Pages of a new region can be read, written and run, also beyond its last byte. -/
theorem Settled.granted (h : Settled origin .readWriteExecute m) (hgranted : m.Granted size m') :
    Settled origin .readWriteExecute m' := by
  rcases hgranted with ⟨reserved, hreserve, rfl⟩
  refine h.grow hreserve rfl rfl (fun page hpage => ?_) fun a hlow hhigh => ?_
  · -- The second step of the allocation changes no older page.
    rw [← reserve_protection_old h.aligned hreserve hpage]
    exact if_neg (h.aligned.not_touches (Nat.le_refl _) hpage)
  · exact if_pos (h.aligned.touches hlow hhigh)

/-- Pages that are gone again leave no trace. -/
theorem Settled.spent (h : Settled origin given m) (hspent : m.Spent size m') :
    Settled origin given m' := by
  rcases hspent with rfl | ⟨reserved, hreserve, rfl⟩
  · exact h
  · rcases reserve_eq_some hreserve with ⟨-, -, hextents, -, hnext, -⟩
    refine h.subset (fun e he => ?_) ?_ ?_ fun page hpage => ?_
    · -- What was added is what was taken away again.
      rcases List.mem_filter.mp he with ⟨hmem, hne⟩
      rw [hextents, List.mem_append, List.mem_singleton] at hmem
      rcases hmem with hmem | rfl
      · exact hmem
      · exact absurd rfl (of_decide_eq_true hne)
    · change m.next ≤ reserved.next
      omega
    · have haligned := h.aligned.reserve hreserve
      exact haligned
    · exact reserve_protection_old h.aligned hreserve hpage

/-- Pages that are given back are no matter of the others. -/
theorem Settled.unmap (h : Settled origin given m) (base : Nat) :
    Settled origin given (m.unmap base) := by
  refine h.subset (fun e he => ?_) (Nat.le_refl _) h.aligned fun _ _ => rfl
  exact (List.mem_filter.mp he).1

theorem Settled.write (h : Settled origin given m) (address : Nat) (bytes : List UInt8) :
    Settled origin given (m.write address bytes) := by
  refine h.subset (fun e he => ?_) (Nat.le_refl _) h.aligned fun _ _ => rfl
  exact he

/-- What is known of the protection of a mapped address. -/
theorem Settled.protectionAt (h : Settled origin given m) (ha : m.Mapped a) :
    (origin.Mapped a ∧ m.protectionAt a = origin.protectionAt a) ∨
      (origin.next ≤ a ∧ m.protectionAt a = some given) := by
  have hprotection := h.protection a ha
  rw [Memory.protectionAt, if_pos ha]
  by_cases hold : a < origin.next
  · rw [if_pos hold] at hprotection
    rcases ha with ⟨e, he, hcontains⟩
    -- An extent that holds an old address is an old one.
    have hmapped : origin.Mapped a := by
      rcases h.known e he with hknown | hnew
      · exact ⟨e, hknown, hcontains⟩
      · exact absurd (Nat.lt_of_lt_of_le hold (Nat.le_trans hnew hcontains.1)) (Nat.lt_irrefl a)
    rw [hprotection, Memory.protectionAt, if_pos hmapped]
    exact .inl ⟨hmapped, rfl⟩
  · rw [if_neg hold] at hprotection
    exact .inr ⟨Nat.le_of_not_lt hold, congrArg some hprotection⟩

end Memory

/-- What is made by a command has the protection of executable memory in the end. -/
theorem tending_settled (origin : Memory) :
    Tending 0 fun st => origin.Settled .readWriteExecute st.1.memory where
  event _ h := h
  host _ _ _ _ memory h := memory ▸ h
  unmapped _ _ base _ h := h.unmap base
  written _ _ address bytes _ h := h.write address bytes
  allocate size := by
    have hallocate : Triple (fun host : Host => origin.Settled .readWriteExecute host.memory)
        (Region.allocate size)
        (fun r host => origin.Settled .readWriteExecute host.memory ∧ r.Above 0)
        fun _ host => origin.Settled .readWriteExecute host.memory := by
      -- In the middle of it the new pages can only be written.
      refine .pointwise fun host h => ?_
      refine (Region.allocate_from host size).weaken (fun _ hh => hh) (fun r _ hr => ?_)
        fun _ _ hf => h.spent hf.2
      exact ⟨h.granted hr.2, _, hr.1.address.1, Nat.zero_le _⟩
    exact lift hallocate

end Hotpatch
