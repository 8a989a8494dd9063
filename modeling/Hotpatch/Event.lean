import Hotpatch.Memory
import Hotpatch.Stub.Template
import Hotpatch.X86.Branch

/-!
# Events

What an operation lets the outside see besides its answer: notes for a log,
the calls of write barriers, and the files that the loader was asked to open.
Events stand in the order in which they happened. Like faults they are data,
and a note's wording is in one place.

A barrier is free to look at all of memory when it is called, so the event of a
call carries the memory as it was then. What a barrier reports of it, the first
byte's protection and the bytes of the range, is read off that.

## Main definitions

* `Note`: A line of the log.
* `Note.level`, `Note.message`: Its level and its text.
* `Hook`, `Barrier`: Write barriers, and what they do when they are called.
* `Event`: A note, a call of a barrier, or a request to the loader.
-/

namespace Hotpatch

/-- How much a note matters. -/
inductive Level
  | trace
  | debug
  | warn
  deriving DecidableEq, Repr

/-- A line of the log. -/
inductive Note
  | measured (length : Nat)
  | assembled (length : Nat) (base : Address)
  | allocated (size : Nat) (base : Address)
  | releasing (size : Nat) (base : Address)
  | copying (length : Nat) (address : Address)
  /-- A patch was installed whose replacement is empty. -/
  | nothingToWrite (site : Address)
  /-- The bytes under a patch that failed to install could not be put back. -/
  | restoreFailed (site : Address) (fault : Fault)
  | installed (description : String)
  | uninstalled (site : Address)
  /-- A patch that is going away could not be uninstalled. -/
  | uninstallFailed (site : Address) (fault : Fault)
  /-- The code behind a branch that could not be removed is kept for good. -/
  | leaking (size : Nat) (kind : Branch) (base : Address)
  | generated (kind : Branch) (base : Address)
  | built (direction : Direction) (arity : Nat) (base target : Address)
  | resolved (name : String) (base : Address)
  deriving DecidableEq, Repr

namespace Note

def level : Note → Level
  | measured _ | assembled _ _ | nothingToWrite _ => .trace
  | restoreFailed _ _ | uninstallFailed _ _ | leaking _ _ _ => .warn
  | _ => .debug

def message : Note → String
  | measured length => "measured " ++ toString length ++ " bytes"
  | assembled length base =>
    "materialized " ++ toString length ++ " bytes at " ++ hexadecimal base.toNat
  | allocated size base =>
    "allocated " ++ toString size ++ " bytes of executable memory at "
      ++ hexadecimal base.toNat
  | releasing size base =>
    "releasing " ++ toString size ++ " bytes of executable memory at "
      ++ hexadecimal base.toNat
  | copying length address =>
    "copying " ++ toString length ++ " bytes to " ++ hexadecimal address.toNat
  | nothingToWrite site =>
    "patch at " ++ hexadecimal site.toNat ++ " has nothing to write"
  | restoreFailed site fault =>
    "failed to restore " ++ hexadecimal site.toNat ++ " after failed install: "
      ++ fault.message
  | installed description => "installed patch " ++ description
  | uninstalled site => "uninstalled patch at " ++ hexadecimal site.toNat
  | uninstallFailed site fault =>
    "failed to uninstall patch at " ++ hexadecimal site.toNat ++ " on drop: "
      ++ fault.message
  | leaking size kind base =>
    "leaking " ++ toString size ++ " byte " ++ kind.name ++ " intercept at "
      ++ hexadecimal base.toNat ++ " still targeted by live code"
  | generated kind base =>
    "generated " ++ kind.name ++ " intercept at " ++ hexadecimal base.toNat
  | built direction arity base target =>
    "built " ++ direction.name ++ "/" ++ toString arity ++ " trampoline at "
      ++ hexadecimal base.toNat ++ " for " ++ hexadecimal target.toNat
  | resolved name base =>
    "resolved module " ++ name ++ " at " ++ hexadecimal base.toNat

end Note

/-- What a barrier does to the barrier in force when it is called. -/
inductive Hook
  | nothing
  | clear
  | set (name : String)
  deriving DecidableEq, Repr

/-- Which side of a write a barrier is called on. -/
inductive Side
  | enter
  | leave
  deriving DecidableEq, Repr

/-- A write barrier: it is called before and after every write to live code. -/
structure Barrier where
  name : String
  onEnter : Hook
  onLeave : Hook
  deriving DecidableEq, Repr

namespace Barrier

def hook (b : Barrier) : Side → Hook
  | .enter => b.onEnter
  | .leave => b.onLeave

end Barrier

/-- A call of a barrier for a range of live code, and the memory it saw. -/
structure BarrierCall where
  side : Side
  barrier : Barrier
  address : Address
  length : Nat
  seen : Memory

namespace BarrierCall

/-- The protection of the first byte of the range, unless it is unmapped. -/
def protection (c : BarrierCall) : Option Protection :=
  c.seen.protectionAt c.address.toNat

/-- The bytes of the range, unless it is unmapped. -/
def bytes (c : BarrierCall) : Option (List UInt8) :=
  c.protection.map fun _ => c.seen.read c.address.toNat c.length

end BarrierCall

/-- Something an operation lets the outside see. -/
inductive Event
  | note (n : Note)
  | barrier (call : BarrierCall)
  /-- A barrier's hook put another barrier in force, or none. -/
  | replaced (previous : Option String)
  | opened (file : String)

end Hotpatch
