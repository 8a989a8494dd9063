import Hotpatch.Proofs.Memory.Contents
import Hotpatch.Proofs.Ownership.Region

/-!
# Accesses Within Bounds

A region is read and written at an offset, and only as far as it reaches. Words are added
for it in three places: offset and length for the check, which refuses a sum that wraps,
base and offset for the address of the access, and base and size for the question whether
an address belongs to the region. The last two are not checked. That they do not wrap
either is because no region reaches the end of the address space, and that an access is
never at null because no region begins there. So all three come down to sums of natural
numbers, the bounds decide alone, and whether an address belongs to a region is the same
question as whether its byte can be read.

## Main definitions

* `Region.Admits`: The accesses within the bounds of a live region.
* `Region.Seated`: A region away from both ends of the address space.
* `Region.Guarded`: Accesses that the bounds decide.
* `Region.Wrote`: What a write to a region leaves.

## Theorems

* `Seated.fits_iff_admits`, `Seated.toNat_add`, `Seated.toNat_end`: The sums of words.
* `Seated.read_eq`, `Seated.write_eq`: Accesses that are admitted.
* `read_refused`, `write_refused`: Accesses that are not.
* `Seated.guarded`, `Seated.wrote`: All accesses.
-/

namespace Hotpatch

namespace Region

/-- An access to bytes of a live region that are all within it. -/
def Admits (r : Region) (offset length : Nat) : Prop :=
  r.isReleased = false ∧ offset + length ≤ r.size

/-- The addresses of an access. -/
def range (r : Region) (offset length : Nat) : Extent :=
  ⟨r.address.toNat + offset, length⟩

/-- Why an access is refused. -/
def refusal (r : Region) : Fault :=
  if r.isReleased then .released r.size
  else .badArgument "offset" "range exceeds executable memory"

/-- A region that begins after the null address and ends before the last one, as long as
    it is live. -/
def Seated (r : Region) : Prop :=
  r.isReleased = false → 0 < r.address.toNat ∧ r.address.toNat + r.size < addressSpace

/-- Accesses that the bounds of a region decide. -/
structure Guarded (r : Region) (host : Host) : Prop where
  reads : ∀ offset length, (r.read offset length host).result.isOk ↔ r.Admits offset length
  writes : ∀ offset bytes, (r.write offset bytes host).result.isOk ↔ r.Admits offset bytes.length
  answers : ∀ offset length, r.Admits offset length → (r.read offset length host).result =
    .ok (host.memory.read (r.address.toNat + offset) length)
  /-- A released region refuses every access, be it of no bytes. -/
  released : r.isReleased → ∀ offset length bytes,
    (r.read offset length host).result = .error (.released r.size) ∧
      (r.write offset bytes host).result = .error (.released r.size)
  /-- Reading changes nothing, and neither does a write that is refused. -/
  unread : ∀ offset length, (r.read offset length host).state = host
  unwritten : ∀ offset bytes fault, (r.write offset bytes host).result = .error fault →
    (r.write offset bytes host).state = host
  contains : ∀ a, r.Contains a ↔ r.isReleased = false ∧ r.address ≤ a ∧
    (r.read (a.toNat - r.address.toNat) 1 host).result.isOk

/-- What a write to a region leaves: the bytes in their place, which is within the region,
    and everything else of the host as it was. -/
structure Wrote (r : Region) (offset : Nat) (bytes : List UInt8) (host host' : Host) :
    Prop where
  within : ∀ a, (r.range offset bytes.length).Contains a →
    r.address.toNat ≤ a ∧ a < r.address.toNat + r.size
  written : ∀ i (hi : i < bytes.length),
    host'.memory.contents (r.address.toNat + offset + i) = bytes[i]
  others : ∀ a, ¬ (r.range offset bytes.length).Contains a →
    host'.memory.contents a = host.memory.contents a
  rest : host' =
    { host with memory := { host.memory with contents := host'.memory.contents } }

variable {r : Region} {offset length : Nat} {bytes : List UInt8} {host : Host}

/-- The sum that is checked is a word if the access is within a region that is seated. -/
theorem Seated.fits_iff_admits (hr : r.Seated) (hlive : r.isReleased = false) :
    r.Fits offset length ↔ r.Admits offset length := by
  have hend := (hr hlive).2
  rw [fits_iff, Admits, and_iff_right hlive]
  exact and_iff_right_of_imp fun hin => by omega

/-- An access that is admitted is at its offset. -/
theorem Seated.locate_eq (hr : r.Seated) (h : r.Admits offset length) :
    r.locate offset length = .ok (r.address + UInt64.ofNat offset) := by
  have hbase : r.base = some r.address := base_of_live h.1
  have hfits : r.Fits offset length := (hr.fits_iff_admits h.1).mpr h
  exact locate_eq_ok.mpr ⟨r.address, hbase, hfits, rfl⟩

theorem locate_of_not_admits (h : ¬ r.Admits offset length) :
    r.locate offset length = .error r.refusal := by
  cases hreleased : r.isReleased with
  | true =>
      rw [locate_of_released (Option.isNone_iff_eq_none.mp hreleased), refusal, if_pos hreleased]
  | false =>
      -- A sum that wraps is refused like one that is too large.
      have hbeyond : ¬ r.Fits offset length := fun hfits => h ⟨hreleased, (fits_iff.mp hfits).2⟩
      simp only [locate, liveAddress, base_of_live hreleased, bind, Except.bind, if_neg hbeyond,
        refusal, hreleased, Bool.false_eq_true, if_false]
      rfl

/-- An access that is not admitted is refused, and nothing happens. -/
theorem read_refused (h : ¬ r.Admits offset length) (host : Host) :
    r.read offset length host = ⟨.error r.refusal, host, []⟩ := by
  rw [read, locate_of_not_admits h]
  rfl

theorem write_refused (h : ¬ r.Admits offset bytes.length) (host : Host) :
    r.write offset bytes host = ⟨.error r.refusal, host, []⟩ := by
  rw [write, locate_of_not_admits h]
  rfl

/-- The address of an access that is admitted does not wrap. -/
theorem Seated.toNat_add (hr : r.Seated) (h : r.Admits offset length) :
    (r.address + UInt64.ofNat offset).toNat = r.address.toNat + offset := by
  -- The region ends before the last address, so neither the offset nor the sum wraps.
  have hend := (hr h.1).2
  have hin := h.2
  simp only [addressSpace] at hend
  have hoffset : (UInt64.ofNat offset).toNat = offset := by
    rw [UInt64.toNat_ofNat']
    exact Nat.mod_eq_of_lt (by omega)
  rw [UInt64.toNat_add, hoffset]
  exact Nat.mod_eq_of_lt (by omega)

/-- The end of a region that is seated does not wrap. -/
theorem Seated.toNat_end (hr : r.Seated) (hlive : r.isReleased = false) :
    (r.address + UInt64.ofNat r.size).toNat = r.address.toNat + r.size := by
  have hnothing : r.Admits r.size 0 := ⟨hlive, Nat.le_refl r.size⟩
  exact hr.toNat_add hnothing

theorem Seated.ne_null (hr : r.Seated) (h : r.Admits offset length) :
    r.address + UInt64.ofNat offset ≠ 0 := by
  intro hnull
  have hnat := hr.toNat_add h
  have hpositive := (hr h.1).1
  rw [hnull, UInt64.toNat_zero] at hnat
  omega

/-- What is read of a region is what memory holds there. -/
theorem Seated.read_eq (hr : r.Seated) (h : r.Admits offset length) (host : Host) :
    r.read offset length host =
      ⟨.ok (host.memory.read (r.address.toNat + offset) length), host, []⟩ := by
  rw [read, hr.locate_eq h, ← hr.toNat_add h]
  change Host.load _ _ host = _
  rw [Host.load, if_neg (hr.ne_null h)]
  rfl

theorem Seated.write_eq (hr : r.Seated) (h : r.Admits offset bytes.length) (host : Host) :
    r.write offset bytes host =
      ⟨.ok (), { host with memory := host.memory.write (r.address.toNat + offset) bytes }, []⟩ := by
  rw [write, hr.locate_eq h, ← hr.toNat_add h]
  change Host.store _ _ host = _
  rw [Host.store, if_neg (hr.ne_null h)]
  rfl

theorem Seated.read_isOk (hr : r.Seated) (offset length : Nat) (host : Host) :
    (r.read offset length host).result.isOk ↔ r.Admits offset length := by
  by_cases h : r.Admits offset length
  · rw [hr.read_eq h]
    exact iff_of_true rfl h
  · rw [read_refused h]
    exact iff_of_false Bool.false_ne_true h

theorem Seated.write_isOk (hr : r.Seated) (offset : Nat) (bytes : List UInt8) (host : Host) :
    (r.write offset bytes host).result.isOk ↔ r.Admits offset bytes.length := by
  by_cases h : r.Admits offset bytes.length
  · rw [hr.write_eq h]
    exact iff_of_true rfl h
  · rw [write_refused h]
    exact iff_of_false Bool.false_ne_true h

/-- An address belongs to a region if its byte is one of those that may be accessed. -/
theorem Seated.contains_iff_admits (hr : r.Seated) {a : Address} :
    r.Contains a ↔ r.isReleased = false ∧ r.address ≤ a ∧
      r.Admits (a.toNat - r.address.toNat) 1 := by
  cases hlive : r.isReleased with
  | true =>
      -- A released region is told by its address, which is null.
      have hnull : r.address = 0 := by
        rw [address, Option.isNone_iff_eq_none.mp hlive, Option.getD_none]
      exact iff_of_false (fun h => h.1 hnull) fun h => absurd h.1.symm Bool.false_ne_true
  | false =>
      -- For a live region both bounds are words that are what their numbers say.
      have hnull : r.address ≠ 0 := by
        intro hzero
        have hpositive := (hr hlive).1
        rw [hzero] at hpositive
        exact Nat.lt_irrefl 0 hpositive
      rw [Contains, Admits, and_iff_right hnull, and_iff_right rfl, and_iff_right hlive,
        UInt64.lt_iff_toNat_lt, hr.toNat_end hlive, UInt64.le_iff_toNat_le]
      omega

/-- The bounds of a region decide its accesses. -/
theorem Seated.guarded (hr : r.Seated) (host : Host) : r.Guarded host where
  reads offset length := hr.read_isOk offset length host
  writes offset bytes := hr.write_isOk offset bytes host
  answers offset length h := congrArg Outcome.result (hr.read_eq h host)
  released hreleased offset length bytes := by
    -- Nothing is admitted, and what is not admitted is refused for the same reason.
    have hrefused : ∀ count, ¬ r.Admits offset count := fun count h =>
      absurd (h.1.symm.trans hreleased) Bool.false_ne_true
    rw [read_refused (hrefused _), write_refused (hrefused _), refusal, if_pos hreleased]
    exact ⟨rfl, rfl⟩
  unread offset length := by
    by_cases h : r.Admits offset length
    · rw [hr.read_eq h]
    · rw [read_refused h]
  unwritten offset bytes fault hfault := by
    by_cases h : r.Admits offset bytes.length
    · -- A write that is admitted does not fail.
      rw [hr.write_eq h] at hfault
      exact absurd hfault (by simp only [reduceCtorEq, not_false_eq_true])
    · rw [write_refused h]
  contains a := by
    rw [hr.contains_iff_admits, hr.read_isOk]

/-- A write that is admitted leaves its bytes, and all else as it was. -/
theorem Seated.wrote (hr : r.Seated) (h : r.Admits offset bytes.length) (host : Host) :
    r.Wrote offset bytes host (r.write offset bytes host).state := by
  rw [hr.write_eq h]
  refine ⟨fun a ha => ?_, fun i hi => Memory.contents_write_add hi,
    fun a ha => Memory.contents_write_of_not_contains ha, rfl⟩
  have hin := h.2
  simp only [range, Extent.Contains] at ha
  omega

end Region

end Hotpatch
