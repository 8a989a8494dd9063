import Hotpatch.Code
import Hotpatch.Host

/-!
# Executable Memory

Regions of memory that hold generated code. A region is freed once; after that
it still knows its size, and every use of it is refused.

Nobody executes the code of a region before its address is known, so writes to
a region do not pass the barrier.

## Main definitions

* `Region`: A region, live or released.
* `Region.allocate`: A new region of zeros.
* `Region.generate`: A new region that holds generated code.
* `Region.ofBytes`: A new region that holds given bytes.
* `Region.Fits`: The ranges within the bounds of a region.
* `Region.read`, `Region.write`: Access within the bounds of the region.
* `Region.release`: The end of a region.

## Theorems

* `Region.fits_iff`: The bounds as inequalities.
* `Region.locate_eq_ok`: What an access is admitted for, and where it is.
* `Region.locate_of_released`: A released region refuses every access.
-/

namespace Hotpatch

/-- A region of executable memory of a given size, without a base once it is
    released. -/
structure Region where
  base : Option Address
  size : Nat
  deriving DecidableEq, Repr

namespace Region

/-- Where the region begins; zero once it is released. -/
def address (r : Region) : Address :=
  r.base.getD 0

def isReleased (r : Region) : Bool :=
  r.base.isNone

/-- Where the region begins, as long as it is live. -/
def liveAddress (r : Region) : Except Fault Address :=
  match r.base with
  | some base => .ok base
  | none => .error (.released r.size)

/-- A range of which the end is a word, and not beyond the size of the region. -/
def Fits (r : Region) (offset length : Nat) : Prop :=
  ∃ last ∈ checkedAdd offset length, last ≤ r.size

instance (r : Region) (offset length : Nat) : Decidable (r.Fits offset length) :=
  inferInstanceAs (Decidable (∃ last ∈ checkedAdd offset length, _))

/-- The bounds as inequalities. The first follows from the second if the size is a
    word. -/
theorem fits_iff {r : Region} {offset length : Nat} :
    r.Fits offset length ↔ offset + length < addressSpace ∧ offset + length ≤ r.size := by
  unfold Fits
  constructor
  · rintro ⟨last, hlast, hin⟩
    rcases checkedAdd_eq_some.mp hlast with ⟨hword, rfl⟩
    exact ⟨hword, hin⟩
  · rintro ⟨hword, hin⟩
    exact ⟨_, checkedAdd_eq_some.mpr ⟨hword, rfl⟩, hin⟩

/-- The address at an offset, if as many bytes as asked for follow it within
    the region. -/
def locate (r : Region) (offset length : Nat) : Except Fault Address := do
  let base ← r.liveAddress
  if r.Fits offset length then
    return base + UInt64.ofNat offset
  else
    throw (.badArgument "offset" "range exceeds executable memory")

/-- An access is admitted within the bounds of a live region. -/
theorem locate_eq_ok {r : Region} {offset length : Nat} {address : Address} :
    r.locate offset length = .ok address ↔
      ∃ base, r.base = some base ∧ r.Fits offset length ∧
        base + UInt64.ofNat offset = address := by
  unfold locate liveAddress
  cases r.base with
  | none => simp only [bind, Except.bind, reduceCtorEq, false_and, exists_false]
  | some base =>
      simp only [bind, Except.bind, Option.some.injEq, exists_eq_left']
      split
      · next hfits => simp only [pure, Except.pure, Except.ok.injEq, hfits, true_and]
      · next hfits =>
          simp only [throw, throwThe, MonadExceptOf.throw, reduceCtorEq, hfits, false_and]

/-- A released region refuses every access. -/
theorem locate_of_released {r : Region} (h : r.base = none) (offset length : Nat) :
    r.locate offset length = .error (.released r.size) := by
  simp only [locate, liveAddress, h]
  rfl

/-- Whether an address lies in the region. The end of the region is a sum of words, which
    wraps like any other. -/
def Contains (r : Region) (address : Address) : Prop :=
  r.address ≠ 0 ∧ r.address ≤ address ∧ address < r.address + UInt64.ofNat r.size

instance (r : Region) (address : Address) : Decidable (r.Contains address) :=
  inferInstanceAs (Decidable (_ ∧ _ ∧ _))

def text (r : Region) : String :=
  "ExecutableMemory \x7b address: " ++ hexadecimal r.address.toNat ++ ", size: "
    ++ toString r.size ++ " \x7d"

/-- A new region of zeros that can be read, written and executed. If its
    protection cannot be changed its pages go back. -/
def allocate (size : Nat) : Action Host Region := do
  if size = 0 then
    Action.fail (.badArgument "size" "executable memory must not be empty")
  let base ← Host.allocatePages size .readWrite
  match (← (Host.changeProtection base size fun _ => .readWriteExecute).attempt) with
  | .error fault =>
    Host.freePages base
    Action.fail fault
  | .ok () =>
    Action.log (.allocated size base)
    return ⟨some base, size⟩

/-- Frees the region. Releasing it again does nothing. -/
def release (r : Region) : Action Host Region := do
  match r.base with
  | none => return r
  | some base =>
    Action.log (.releasing r.size base)
    Host.freePages base
    return { r with base := none }

def write (r : Region) (offset : Nat) (bytes : List UInt8) : Action Host Unit := do
  let address ← Action.ofExcept (r.locate offset bytes.length)
  Host.store address bytes

def read (r : Region) (offset length : Nat) : Action Host (List UInt8) := do
  let address ← Action.ofExcept (r.locate offset length)
  Host.load address length

def readAll (r : Region) : Action Host (List UInt8) :=
  r.read 0 r.size

/-- A new region that holds given bytes. -/
def ofBytes (bytes : List UInt8) : Action Host Region := do
  let r ← allocate bytes.length
  r.write 0 bytes
  return r

/-- A new region that holds generated code. The code is run twice, to learn its
    length and then for its place, and has to be as long both times. -/
def generate : Action (Code × Host) Region := do
  let expected ← Code.measure.onFirst
  let r ← (allocate expected).onSecond
  match (← (Code.assemble r.address).onFirst.attempt) with
  | .error fault =>
    let _ ← r.release.onSecond
    Action.fail fault
  | .ok bytes =>
    if bytes.length = expected then
      (r.write 0 bytes).onSecond
      return r
    else
      let _ ← r.release.onSecond
      Action.fail (.lengthChanged expected bytes.length)

end Region

end Hotpatch
