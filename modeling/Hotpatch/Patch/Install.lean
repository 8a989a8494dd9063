import Hotpatch.Patch.Basic

/-!
# Installing Patches

The life of a patch. Every operation acts on the patch and the host together,
because a failed operation may have changed either: an intercept that was
generated stays generated when the branch to it cannot be written.

A write that fails is followed by a second write of the bytes that were there
before, in case some of it had landed. A patch that goes away while it is
installed uninstalls itself. If that fails, its branch is still live, so the
code that it leads to is kept for good.

## Main definitions

* `Target.resolve`: The address of a target, generated if need be.
* `Source.payload`: The bytes that a patch writes.
* `Patch.install`, `Patch.uninstall`: Writing them, and putting back the others.
* `Patch.target`: The target of a branch, generated if need be.
* `Patch.drop`: The end of a patch.
-/

namespace Hotpatch

/-- The address of the target of a branch. An intercept is generated if it is
    still pending; if that fails it stays pending. -/
def Target.resolve (kind : Branch) : Action (Target × Host) Address := do
  match (← Action.gets Prod.fst) with
  | .fixed address => Action.ofExcept (branchTarget address)
  | .intercept _ (some region) => Action.ofExcept region.liveAddress
  | .intercept code none => do
    let region ← Region.generate.within (fun state => (code, state.2))
      fun _ part => (.intercept part.1 none, part.2)
    Action.log (.generated kind region.address)
    Action.modify fun state => (state.1.withMemory region, state.2)
    return region.address

/-- The bytes that a patch at `site` writes. -/
def Source.payload (site : Address) : Action (Source × Host) (List UInt8) := do
  match (← Action.gets Prod.fst) with
  | .literal bytes => return bytes
  | .inPlace code =>
    (Code.assemble site).within (fun _ => code) fun state code => (.inPlace code, state.2)
  | .branch kind target => do
    let address ← (Target.resolve kind).within (fun state => (target, state.2))
      fun _ part => (.branch kind part.1, part.2)
    Action.ofExcept (kind.encode address site false)

namespace Patch

/-- An action on the source of a patch and on the host. -/
def onSource {α : Type} (act : Action (Source × Host) α) : Action (Patch × Host) α :=
  .within (fun state => (state.1.source, state.2))
    (fun state part => ({ state.1 with source := part.1 }, part.2)) act

/-- Writes bytes at the patched address. -/
def put (bytes : List UInt8) : Action (Patch × Host) Unit := do
  let patch ← Action.gets Prod.fst
  let _ ← (patch.live.overwrite bytes patch.unprotected).onSecond

/-- Records what the patch replaced, or that it replaced nothing. -/
def setSaved (saved : Option (List UInt8)) : Action (Patch × Host) Unit :=
  .modify fun state => ({ state.1 with saved }, state.2)

/-- Writes the replacement and keeps the bytes that it covers. If the write
    fails these are written back. -/
def writeReplacement (bytes : List UInt8) : Action (Patch × Host) Unit := do
  let live := (← Action.gets Prod.fst).live
  let covered ← (live.read bytes.length).onSecond
  match (← (put bytes).attempt) with
  | .ok () =>
    setSaved (some covered)
    Action.log (.installed (← Action.gets fun state => state.1.description))
  | .error fault =>
    match (← (put covered).attempt) with
    | .ok () => Action.fail fault
    | .error second =>
      Action.log (.restoreFailed live.address second)
      Action.fail fault

/-- Installs the patch. An installed patch, and one that has nothing to write,
    stay as they are. -/
def install : Action (Patch × Host) Unit := do
  let patch ← Action.gets Prod.fst
  if patch.isInstalled then
    return
  else
    let bytes ← onSource (Source.payload patch.site)
    if bytes.isEmpty then
      Action.log (.nothingToWrite patch.site)
    else
      writeReplacement bytes

/-- Puts back the bytes that the patch replaced. If that fails the patch stays
    installed. -/
def uninstall : Action (Patch × Host) Unit := do
  let patch ← Action.gets Prod.fst
  match patch.saved with
  | none => Action.fail (.notInstalled patch.site)
  | some saved =>
    put saved
    setSaved none
    Action.log (.uninstalled patch.site)

/-- The target of a branch, generated if need be; nothing for other patches. -/
def target : Action (Patch × Host) (Option Address) := do
  match (← Action.gets fun state => state.1.source) with
  | .branch kind target => do
    let address ← onSource <| (Target.resolve kind).within (fun state => (target, state.2))
      fun _ part => (.branch kind part.1, part.2)
    return some address
  | _ => return none

/-- The memory of the patch's intercept, once it is generated. -/
def intercept? (patch : Patch) : Option Region :=
  patch.source.target?.bind Target.memory?

def freeIntercept (patch : Patch) : Action Host Unit := do
  match patch.intercept? with
  | some region =>
    let _ ← region.release
  | none => return

/-- Says that the intercept of the patch is kept, if it has one. -/
def keepIntercept (patch : Patch) : Action Host Unit :=
  match patch.source with
  | .branch kind (.intercept _ (some region)) =>
    Action.log (.leaking region.size kind region.address)
  | _ => return

/-- The end of the patch. It is uninstalled first. Its intercept is freed,
    unless the branch to it could not be removed. -/
def drop (patch : Patch) : Action Host Unit := do
  if patch.isInstalled then
    let uninstalled := uninstall.within (fun host => (patch, host)) fun _ state => state.2
    match (← uninstalled.attempt) with
    | .ok () => patch.freeIntercept
    | .error fault =>
      Action.log (.uninstallFailed patch.site fault)
      patch.keepIntercept
  else
    patch.freeIntercept

end Patch

end Hotpatch
