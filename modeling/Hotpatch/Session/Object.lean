import Hotpatch.Patch.Install
import Hotpatch.Trampoline

/-!
# Objects

What the user of a session holds on to: pages, regions, resident code, routines,
trampolines and patches. An object that owns memory gives it back at its end.

## Main definitions

* `Object`: Something a session keeps under a name.
* `Object.branchTarget`: The object as a place to branch to.
* `Object.drop`: The end of an object.
-/

namespace Hotpatch

/-- Something a session keeps under a name. -/
inductive Object
  | page (base : Address) (length : Nat)
  | region (r : Region)
  | resident (live : LiveCode)
  | routine (r : Routine)
  | trampoline (t : Trampoline)
  | patch (p : Patch)

namespace Object

def region? : Object → Option Region
  | region r => some r
  | _ => none

def resident? : Object → Option LiveCode
  | resident live => some live
  | _ => none

def routine? : Object → Option Routine
  | routine r => some r
  | _ => none

def patch? : Object → Option Patch
  | patch p => some p
  | _ => none

/-- The object turned into a routine: a region into one that owns it,
    resident code into one that owns nothing. -/
def toRoutine? : Object → Option Routine
  | region r => some (.owned r)
  | resident live => some (.resident live)
  | _ => none

/-- The object as a place to branch to. Pages are no code. -/
def branchTarget : Object → Option (Except Fault Address)
  | page _ _ => none
  | region r => some r.liveAddress
  | resident live => some (Hotpatch.branchTarget live.address)
  | routine r => some r.branchTarget
  | trampoline t => some t.region.liveAddress
  | patch p => some (Hotpatch.branchTarget p.site)

/-- The end of an object. What it owns goes back to the host. -/
def drop : Object → Action Host Unit
  | page base _ => Host.freePages base
  | region r => do let _ ← r.release
  | resident _ => return
  | routine r => do let _ ← r.release
  | trampoline t => do let _ ← t.region.release
  | patch p => p.drop

end Object

end Hotpatch
