import Hotpatch.Region
import Hotpatch.Stub.Relocation

/-!
# Trampolines

Stubs that are ready to run: a template that was relocated to its target, in
memory of its own.

## Main definitions

* `Trampoline`: A stub and the memory that it owns.
* `Trampoline.build`: A stub for a direction, a number of parameters, a target.
* `Trampoline.fastcallEntry`, `Trampoline.stdcallEntry`: The stubs for a function's type.
* `signatureArities`: The parameter counts of the function types there are.
-/

namespace Hotpatch

/-- The parameter counts of the function types that a stub can be asked for.
    The higher ones have no stub. -/
def signatureArities : List Nat :=
  List.range 7

/-- A stub and the memory that it owns. -/
structure Trampoline where
  region : Region
  target : Address
  direction : Direction
  arity : Nat
  deriving DecidableEq, Repr

namespace Trampoline

/-- Builds a stub that forwards `arity` words to `target`. The number of
    parameters is checked first, then the target, and memory comes last. -/
def build (direction : Direction) (arity : Nat) (target : Address) :
    Action Host Trampoline := do
  let template ← Action.ofExcept (direction.template arity)
  if target = 0 then
    Action.fail (.nullAddress "FastCallWrapper target")
  let code ← Action.ofExcept (relocate template target)
  let region ← Region.ofBytes code
  Action.log (.built direction arity region.address target)
  return ⟨region, target, direction, arity⟩

/-- The fastcall entry of a stdcall function with `arity` parameters. -/
def fastcallEntry (arity : Nat) (function : Address) : Action Host Trampoline :=
  build .fastcallToStdcall arity function

/-- The stdcall entry of a fastcall function with `arity` parameters. -/
def stdcallEntry (arity : Nat) (function : Address) : Action Host Trampoline :=
  build .stdcallToFastcall arity function

def address (t : Trampoline) : Address :=
  t.region.address

def text (t : Trampoline) : String :=
  "FastCallWrapper \x7b address: " ++ hexadecimal t.address.toNat ++ ", target: "
    ++ hexadecimal t.target.toNat ++ ", direction: " ++ t.direction.name
    ++ ", arity: " ++ toString t.arity ++ " \x7d"

end Trampoline

end Hotpatch
