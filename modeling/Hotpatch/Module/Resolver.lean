import Hotpatch.Module.Loader

/-!
# Module Resolvers

Ways to find out where a module begins. The system's resolver asks the loader;
a table serves modules that the loader does not know about, such as images
mapped by hand.

## Main definitions

* `Resolver`: A way to find modules.
* `Resolver.base`: Where a module begins.
* `Resolver.locate`: An address at an offset into a module.
-/

namespace Hotpatch

/-- A way to find modules. -/
inductive Resolver
  | system
  | table (bases : List (String × Address))

namespace Resolver

/-- Where a module begins. -/
def base (name : String) : Resolver → Action Loader Address
  | system => do
    if name.isEmpty then
      Action.fail (.badArgument "name" "module name must not be empty")
    else
      let base ← Loader.resolve name
      Action.log (.resolved name base)
      return base
  | table bases =>
    match bases.lookup name with
    | some base => return base
    | none => Action.fail (.noModule name)

/-- An address at an offset into a module. The sum wraps. -/
def locate (r : Resolver) (name : String) (offset : Address) : Action Loader Address := do
  return (← r.base name) + offset

end Resolver

end Hotpatch
