import Hotpatch.Host

/-!
# Write Barriers

Overwriting code that another thread executes can let that thread fetch half an
instruction. So every write to live code is bracketed: the barrier in force is
called before the write and after it, and usually stops the other threads in
between.

The barrier that was in force when a write began gets both calls, whatever its
own hooks or the write do to the barrier in force. And it gets the second call
also if the write fails, so no bracket stays open.

## Main definitions

* `Host.installBarrier`: Another barrier in force, or none.
* `Host.callBarrier`: One call of a barrier.
* `Host.bracketed`: An action in the brackets of the barrier in force.
-/

namespace Hotpatch

namespace Host

/-- Puts another barrier in force, or none, and names the one before. -/
def installBarrier (barrier : Option Barrier) : Action Host (Option String) := do
  let previous ← Action.gets (·.barrier)
  Action.modify fun host => { host with barrier }
  return previous.map (·.name)

/-- Does what a hook says, if the barrier that it names exists. -/
def runHook : Hook → Action Host Unit
  | .nothing => return
  | .clear => do
    let previous ← installBarrier none
    Action.emit (.replaced previous)
  | .set name => do
    match (← Action.gets fun host => host.barriers.lookup name) with
    | none => return
    | some barrier =>
      let previous ← installBarrier (some barrier)
      Action.emit (.replaced previous)

/-- Calls a barrier on one side of a write. It sees the memory as it is then. -/
def callBarrier (barrier : Barrier) (side : Side) (address : Address) (length : Nat) :
    Action Host Unit := do
  let seen ← Action.gets (·.memory)
  Action.emit (.barrier { side, barrier, address, length, seen })
  runHook (barrier.hook side)

/-- An action in the brackets of the barrier that is in force when it begins. -/
def bracketed {α : Type} (address : Address) (length : Nat) (act : Action Host α) :
    Action Host α := do
  match (← Action.gets (·.barrier)) with
  | none => act
  | some barrier =>
    callBarrier barrier .enter address length
    let result ← act.attempt
    callBarrier barrier .leave address length
    Action.ofExcept result

end Host

end Hotpatch
