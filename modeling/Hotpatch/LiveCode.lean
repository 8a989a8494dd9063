import Hotpatch.Barrier
import Hotpatch.Region

/-!
# Live Code

Code that is resident somewhere and may be running. To this library it is no
more than an address, and it owns nothing. `LiveCode.overwrite` is the only way
in which bytes enter live code, so every such write is in the brackets of the
barrier.

## Main definitions

* `branchTarget`: An address as a place to branch to.
* `LiveCode`: Resident code.
* `LiveCode.inModule`: Code at an offset into a module.
* `LiveCode.overwrite`, `LiveCode.overwriteWith`: Writes.
* `LiveCode.read`: The bytes that stand there.
* `Routine`: Code that is resident or owned.

## Theorems

* `LiveCode.overwrite_nil`: An empty write does nothing at all.
-/

namespace Hotpatch

/-- An address as a place to branch to. There is no code at zero. -/
def branchTarget (address : Address) : Except Fault Address :=
  if address = 0 then .error (.nullAddress "branch target") else .ok address

structure LiveCode where
  address : Address
  deriving DecidableEq, Repr

namespace LiveCode

/-- Code at an offset into a module. -/
def inModule (r : Resolver) (name : String) (offset : Address) : Action Host LiveCode := do
  return ⟨← Host.onLoader (r.locate name offset)⟩

/-- Writes bytes over the code and answers how many. If the range may not be
    writable, its protection is lifted for the write, inside the brackets of
    the barrier. -/
def overwrite (live : LiveCode) (bytes : List UInt8) (unprotected : Bool) :
    Action Host Nat :=
  if bytes.isEmpty then return 0
  else do
    let length := bytes.length
    let store := Host.store live.address bytes
    Action.log (.copying length live.address)
    Host.bracketed live.address length <|
      if unprotected then Host.withWritable live.address length store else store
    return length

def read (live : LiveCode) (length : Nat) : Action Host (List UInt8) :=
  Host.load live.address length

/-- Writes code over the code, generated for its address. The range has to be
    writable. -/
def overwriteWith (live : LiveCode) : Action (Code × Host) Nat := do
  let bytes ← (Code.assemble live.address).onFirst
  (live.overwrite bytes false).onSecond

/-- An empty write does nothing at all, whatever the address. -/
theorem overwrite_nil (live : LiveCode) (unprotected : Bool) :
    live.overwrite [] unprotected = Action.ret 0 :=
  rfl

end LiveCode

/-- Code that is resident, or owned together with its memory. -/
inductive Routine
  | resident (live : LiveCode)
  | owned (region : Region)
  deriving DecidableEq, Repr

namespace Routine

/-- Where the routine begins; zero if its memory was released. -/
def address : Routine → Address
  | resident live => live.address
  | owned region => region.address

/-- The routine as a place to branch to. -/
def branchTarget : Routine → Except Fault Address
  | resident live => Hotpatch.branchTarget live.address
  | owned region => region.liveAddress

def region? : Routine → Option Region
  | resident _ => none
  | owned region => some region

/-- Frees the memory that the routine owns, if any. -/
def release : Routine → Action Host Routine
  | resident live => return resident live
  | owned region => return owned (← region.release)

end Routine

end Hotpatch
