import Hotpatch.Session.Objects

/-!
# Commands

What a session can be told to do, and what it answers. Objects are named by the
user. A command that names no object of the kind it needs, or that wants to give
a new object a name that is taken, is refused, which is no fault of the host.

## Main definitions

* `Site`: Where code is patched.
* `Design`: What a new patch writes.
* `Command`: One step of a session.
* `Command.failProtections`: An arrangement by count.
* `Answer`: What a step answers when it succeeds.
* `Reply`: All that a step lets the outside see.
-/

namespace Hotpatch

/-- Where code is patched. -/
inductive Site
  | absolute (address : Address)
  | inModule (resolver : Resolver) (name : String) (offset : Address)

/-- What a new patch writes. -/
inductive Design
  | literal (bytes : List UInt8)
  /-- Code that is generated in place. -/
  | inPlace (program : Program)
  /-- A branch to code that is generated in memory of its own. -/
  | branchInto (kind : Branch) (program : Program)
  | branchTo (kind : Branch) (target : Address)
  | branchToObject (kind : Branch) (id : String)

/-- Which stub a trampoline is built from. -/
inductive Bridge
  | direct (direction : Direction)
  | fastcallEntry
  | stdcallEntry

/-- One step of a session. -/
inductive Command
  -- the environment
  | mapPages (id : String) (length : Nat) (protection : Protection)
  | protection (address : Address)
  | failAllocations (count : Nat)
  /-- Says of each change of protection to come, in order, whether it fails. -/
  | arrangeProtections (refusals : Nat → Bool)
  | peek (address : Address) (length : Nat)
  | poke (address : Address) (bytes : List UInt8)
  | flush (address : Address) (length : Nat)
  | guard (address : Address) (length : Nat) (probes : List Address)
  -- executable memory
  | allocate (id : String) (size : Nat)
  | ofBytes (id : String) (bytes : List UInt8)
  | generate (id : String) (program : Program)
  | write (id : String) (offset : Nat) (bytes : List UInt8)
  | read (id : String) (offset length : Nat)
  | contains (id : String) (address : Address)
  | release (id : String)
  -- live code
  | resident (id : String) (site : Site)
  | overwrite (id : String) (bytes : List UInt8)
  | overwriteWith (id : String) (program : Program)
  | inspect (id : String) (length : Nat)
  | assemble (id : String) (program : Program)
  | routine (id source : String)
  | routineRelease (id : String)
  -- trampolines
  | trampoline (id : String) (bridge : Bridge) (arity : Nat) (target : Address)
  -- patches
  | patch (id : String) (design : Design) (site : Site) (unprotected : Bool)
  | install (id : String)
  | uninstall (id : String)
  | target (id : String)
  -- write barriers
  | defineBarrier (barrier : Barrier)
  | setBarrier (name : String)
  | clearBarrier
  -- any object
  | drop (id : String)
  | info (id : String)

/-- The next changes of protection fail, as many as are told. -/
def Command.failProtections (count : Nat) : Command :=
  .arrangeProtections fun n => decide (n < count)

/-- What is known about an object: the object itself, and the bytes of its code
    where it has any that are live. -/
structure Info where
  object : Object
  code : Option (Except Fault (List UInt8))

/-- What a step answers when it succeeds. -/
inductive Answer
  /-- A name in the command does not stand for what the command needs. -/
  | refused
  | done
  | address (a : Address)
  | count (n : Nat)
  | bytes (bs : List UInt8)
  | flag (b : Bool)
  | protection (p : Option Protection)
  | name (n : Option String)
  /-- The protections at some addresses: before a range was made writable, while
      it was, and after. -/
  | guarded (before : List (Option Protection))
      (inside : Except Fault (List (Option Protection)))
      (after : List (Option Protection))
  | info (i : Info)
  /-- The outcome of a command that runs a program of the user's, and how often
      it did so. -/
  | ran (runs : Nat) (outcome : Except Fault Answer)

/-- All that a step lets the outside see: its answer or fault, and its events. -/
structure Reply where
  result : Except Fault Answer
  trace : List Event

end Hotpatch
