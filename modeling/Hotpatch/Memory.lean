import Hotpatch.Address

/-!
# Memory

The address space of the host: which pages are mapped, how they are protected,
and what they hold.

Pages are handed out in extents. Each extent begins where the last one ended,
after a page that stays unmapped, and an address is never handed out twice. So
extents do not touch, and a range is mapped as a whole exactly when it lies
within one of them.

Memory itself does not enforce protections. Whoever writes promises that the
range is writable, and lifting a protection is the means to keep that promise.

## Main definitions

* `Protection`: What may be done with a page.
* `Extent`: A range of mapped pages.
* `Memory`: The address space.
* `Memory.Mapped`: The addresses that belong to an extent.
* `Memory.Covers`: The ranges that are mapped as a whole.
* `Memory.reserve`, `Memory.unmap`: Mapping pages and unmapping them.
* `Memory.protect`: The protection of a range changed page by page.
* `Memory.read`, `Memory.write`: The bytes of a range.

## Theorems

* `Memory.length_read`: As many bytes as asked for.
* `Memory.contents_write_of_lt`, `Memory.contents_write_of_le`: A write leaves
  the bytes before and after its range alone.
* `Memory.contents_write_add`: A write sets the bytes of its range.
-/

namespace Hotpatch

/-- What may be done with a page. Every page can be read. -/
inductive Protection
  | readOnly
  | readExecute
  | readWrite
  | readWriteExecute
  deriving DecidableEq, Repr

/-- The bytes of a page, the unit of mapping and protection. -/
def pageSize : Nat := 4096

/-- The number of the page that holds an address. -/
def pageOf (address : Nat) : Nat :=
  address / pageSize

/-- A length in bytes as the length of the whole pages that hold it. -/
def wholePages (length : Nat) : Nat :=
  (length + (pageSize - 1)) / pageSize * pageSize

/-- The most bytes that are handed out at once. -/
def largestExtent : Nat := 0x4000000

/-- A range of mapped pages. -/
structure Extent where
  base : Nat
  length : Nat
  deriving DecidableEq, Repr

namespace Extent

/-- The addresses of an extent. -/
def Contains (e : Extent) (address : Nat) : Prop :=
  e.base ≤ address ∧ address < e.base + e.length

instance (e : Extent) (address : Nat) : Decidable (e.Contains address) :=
  inferInstanceAs (Decidable (_ ∧ _))

/-- The ranges that lie within an extent. -/
def Covers (e : Extent) (address length : Nat) : Prop :=
  e.base ≤ address ∧ address + length ≤ e.base + e.length

instance (e : Extent) (address length : Nat) : Decidable (e.Covers address length) :=
  inferInstanceAs (Decidable (_ ∧ _))

end Extent

/-- Whether a page holds some byte of a range. -/
def Touches (address length page : Nat) : Prop :=
  pageOf address ≤ page ∧ page * pageSize < address + length

instance (address length page : Nat) : Decidable (Touches address length page) :=
  inferInstanceAs (Decidable (_ ∧ _))

/-- A function on addresses with the values of an array laid over it. -/
def overlay (bytes : Array UInt8) (base : Nat) (under : Nat → UInt8) (address : Nat) :
    UInt8 :=
  if base ≤ address then
    match bytes[address - base]? with
    | some byte => byte
    | none => under address
  else under address

/-- A function on addresses with zeros laid over a range. -/
def cleared (base length : Nat) (under : Nat → UInt8) (address : Nat) : UInt8 :=
  if base ≤ address ∧ address < base + length then 0 else under address

/-- The address space of a host. Protections are by page number and mean
    something only for mapped pages, as contents do only for mapped addresses.
    New pages come from `next`. The requests to unmap are kept, for accounts of
    what was asked for; nothing is decided by them. -/
structure Memory where
  extents : List Extent
  protection : Nat → Protection
  contents : Nat → UInt8
  next : Nat
  /-- The bases that were asked to be unmapped, in order. -/
  unmapped : List Nat

namespace Memory

/-- An address space with nothing in it. -/
def empty : Memory :=
  ⟨[], fun _ => .readOnly, fun _ => 0, 0x10000000, []⟩

/-- The addresses that belong to an extent. -/
def Mapped (m : Memory) (address : Nat) : Prop :=
  ∃ e ∈ m.extents, e.Contains address

instance (m : Memory) (address : Nat) : Decidable (m.Mapped address) :=
  inferInstanceAs (Decidable (∃ e ∈ m.extents, _))

/-- The ranges that are mapped as a whole. -/
def Covers (m : Memory) (address length : Nat) : Prop :=
  ∃ e ∈ m.extents, e.Covers address length

instance (m : Memory) (address length : Nat) : Decidable (m.Covers address length) :=
  inferInstanceAs (Decidable (∃ e ∈ m.extents, _))

/-- The protection of the page that holds an address, if it is mapped. -/
def protectionAt (m : Memory) (address : Nat) : Option Protection :=
  if m.Mapped address then some (m.protection (pageOf address)) else none

/-- The pages of a range with protections of their own. -/
def protect (m : Memory) (address length : Nat) (protection : Nat → Protection) : Memory :=
  { m with
    protection := fun page =>
      if Touches address length page then protection page else m.protection page }

def read (m : Memory) (address length : Nat) : List UInt8 :=
  (List.range length).map fun i => m.contents (address + i)

/-- The memory with bytes written to a range. -/
def write (m : Memory) (address : Nat) (bytes : List UInt8) : Memory :=
  { m with contents := overlay bytes.toArray address m.contents }

/-- New pages of zeros for a length, unless it is more than is handed out at
    once or the address space is used up. -/
def reserve (m : Memory) (length : Nat) (protection : Protection) : Option (Nat × Memory) :=
  let whole := wholePages length
  if whole ≤ largestExtent ∧ m.next + whole + pageSize ≤ addressSpace then
    let m' := m.protect m.next whole fun _ => protection
    some (m.next,
      { m' with
        extents := m.extents ++ [⟨m.next, whole⟩]
        contents := cleared m.next whole m.contents
        next := m.next + whole + pageSize })
  else none

/-- The memory without the extent that begins at an address. -/
def unmap (m : Memory) (base : Nat) : Memory :=
  { m with
    extents := m.extents.filter fun e => e.base ≠ base
    unmapped := m.unmapped ++ [base] }

@[simp]
theorem length_read (m : Memory) (address length : Nat) :
    (m.read address length).length = length := by
  simp only [read, List.length_map, List.length_range]

/-- A write leaves the bytes before its range alone. -/
theorem contents_write_of_lt {m : Memory} {base address : Nat} {bytes : List UInt8}
    (h : address < base) : (m.write base bytes).contents address = m.contents address := by
  simp only [write, overlay, Nat.not_le.mpr h, if_false]

theorem contents_write_of_le {m : Memory} {base address : Nat} {bytes : List UInt8}
    (h : base + bytes.length ≤ address) :
    (m.write base bytes).contents address = m.contents address := by
  have beyond : bytes.toArray[address - base]? = none := by
    simp only [List.getElem?_toArray, List.getElem?_eq_none_iff]
    omega
  simp only [write, overlay, beyond, ite_self]

/-- A write sets the bytes of its range. -/
theorem contents_write_add {m : Memory} {base i : Nat} {bytes : List UInt8}
    (h : i < bytes.length) : (m.write base bytes).contents (base + i) = bytes[i] := by
  simp only [write, overlay, Nat.le_add_right, if_true, Nat.add_sub_cancel_left,
    List.getElem?_toArray, List.getElem?_eq_getElem h]

end Memory

end Hotpatch
