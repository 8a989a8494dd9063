import Hotpatch.Action
import Hotpatch.Program

/-!
# Generated Code

A program together with the number of times it was run. Code that goes to
memory of its own is run twice: once to learn its length, without a place, and
once for the place it was then given.

## Main definitions

* `Code`: A program and its runs.
* `Code.output`: The bytes of a run, which is counted.
* `Code.measure`: The length of the code.
* `Code.assemble`: The code for a place.
-/

namespace Hotpatch

/-- A program and the number of times it was run. -/
structure Code where
  program : Program
  runs : Nat := 0

namespace Code

/-- The bytes of a run against a writer. The run is counted, also if it
    fails. -/
def output (w : Writer) : Action Code (List UInt8) := do
  let code ← Action.gets id
  Action.modify fun code => { code with runs := code.runs + 1 }
  Action.ofExcept (code.program.output code.runs w)

/-- The length of the code, found by a sizing pass. -/
def measure : Action Code Nat := do
  let bytes ← output .forSizing
  Action.log (.measured bytes.length)
  return bytes.length

/-- The code for a place. -/
def assemble (base : Address) : Action Code (List UInt8) := do
  let bytes ← output (.placedAt base)
  Action.log (.assembled bytes.length base)
  return bytes

end Code

end Hotpatch
