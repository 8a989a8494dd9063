import Hotpatch.Memory

/-!
# Contents Of Memory

Reads and writes against each other. A write is an overlay of the contents, and
a read is the list of the values on a range, so both can be compared address by
address.

## Main definitions

* `Memory.Same`: Two memories that differ in protections alone.

## Theorems

* `read_congr`: A read depends on its range alone.
* `read_write`: What was written is read back.
* `write_read`: Writing what is there changes nothing.
* `contents_write_of_outside`: A write leaves alone what is beside its range.
-/

namespace Hotpatch

namespace Memory

/-- Two memories that differ in protections alone. -/
structure Same (m m' : Memory) : Prop where
  extents : m'.extents = m.extents
  contents : m'.contents = m.contents
  next : m'.next = m.next
  unmapped : m'.unmapped = m.unmapped

theorem Same.refl (m : Memory) : m.Same m :=
  ⟨rfl, rfl, rfl, rfl⟩

theorem Same.symm {m m' : Memory} (h : m.Same m') : m'.Same m :=
  ⟨h.extents.symm, h.contents.symm, h.next.symm, h.unmapped.symm⟩

theorem Same.trans {m m' m'' : Memory} (h : m.Same m') (h' : m'.Same m'') : m.Same m'' where
  extents := h'.extents.trans h.extents
  contents := h'.contents.trans h.contents
  next := h'.next.trans h.next
  unmapped := h'.unmapped.trans h.unmapped

/-- Writes to the same range agree as their memories do. -/
theorem Same.write {m m' : Memory} (h : m.Same m') (base : Nat) (bytes : List UInt8) :
    (m.write base bytes).Same (m'.write base bytes) := by
  have hcontents : (m'.write base bytes).contents = (m.write base bytes).contents := by
    simp only [Memory.write, h.contents]
  exact ⟨h.extents, hcontents, h.next, h.unmapped⟩

variable {m m' : Memory} {base address length : Nat} {bytes : List UInt8}

/-- A read depends on its range alone. -/
theorem read_congr (h : ∀ i < length, m'.contents (address + i) = m.contents (address + i)) :
    m'.read address length = m.read address length := by
  refine List.map_inj_left.mpr fun i hi => ?_
  exact h i (List.mem_range.mp hi)

@[simp]
theorem getElem_read {i : Nat} (h : i < (m.read address length).length) :
    (m.read address length)[i] = m.contents (address + i) := by
  simp only [read, List.getElem_map, List.getElem_range]

/-- What was written is read back. -/
theorem read_write (m : Memory) (base : Nat) (bytes : List UInt8) :
    (m.write base bytes).read base bytes.length = bytes := by
  refine List.ext_getElem (length_read _ _ _) fun i _ hi => ?_
  rw [getElem_read, contents_write_add hi]

/-- A write leaves alone what is beside its range. -/
theorem contents_write_of_outside (h : address < base ∨ base + bytes.length ≤ address) :
    (m.write base bytes).contents address = m.contents address := by
  rcases h with hbefore | hafter
  · exact contents_write_of_lt hbefore
  · exact contents_write_of_le hafter

theorem contents_write_of_not_contains
    (h : ¬ (⟨base, bytes.length⟩ : Extent).Contains address) :
    (m.write base bytes).contents address = m.contents address := by
  refine contents_write_of_outside ?_
  simp only [Extent.Contains] at h
  omega

/-- Writing what is there changes nothing. -/
theorem write_read (m : Memory) (base length : Nat) :
    (m.write base (m.read base length)).contents = m.contents := by
  funext a
  -- Within the range the byte written is the byte read there.
  by_cases ha : base ≤ a ∧ a < base + length
  · have hi : a - base < (m.read base length).length := by
      rw [length_read]
      omega
    have hwritten : (m.write base _).contents (base + (a - base)) = _ := contents_write_add hi
    have haddress : base + (a - base) = a := by omega
    rw [haddress] at hwritten
    rw [hwritten, getElem_read, haddress]
  · -- Beside the range nothing is written.
    refine contents_write_of_outside ?_
    rw [length_read]
    omega

end Memory

end Hotpatch
