import Hotpatch.Module.Resolver

/-!
# The Host

The process in which code is patched: its memory, its loader, the write barrier
in force, and the failures that were arranged for its next requests. A failure
that is arranged strikes a request before the request is looked at. An operation
asks for pages once at most, so a count of failures says when it does not get
them. Protections it may change more than once, and any of the changes may fail.

## Main definitions

* `Host`: The process.
* `Host.allocatePages`, `Host.freePages`: Requests for memory.
* `Host.Refusing`: The next change of protection fails.
* `Host.changeProtection`: A request to change protections.
* `Host.withWritable`: An action while a range can be written.
* `Host.load`, `Host.store`: Plain access to memory.

## Theorems

* `Host.store_null`: Nothing is ever written to the null address.
-/

namespace Hotpatch

/-- The process in which code is patched. -/
structure Host where
  memory : Memory
  loader : Loader
  /-- How many of the next allocations fail. -/
  failingAllocations : Nat
  /-- For each of the changes of protection to come, in order, whether it fails. -/
  refusals : Nat → Bool
  /-- The barriers there are, by name. -/
  barriers : List (String × Barrier)
  /-- The barrier in force. -/
  barrier : Option Barrier

namespace Host

/-- A host at its start, with a loader. -/
def start (loader : Loader) : Host :=
  ⟨.empty, loader, 0, fun _ => false, [], none⟩

def onLoader {α : Type} (act : Action Loader α) : Action Host α :=
  .within Host.loader (fun host loader => { host with loader }) act

/-- A change of the memory. -/
def modifyMemory (f : Memory → Memory) : Action Host Unit :=
  .modify fun host => { host with memory := f host.memory }

/-- New pages for a length. -/
def allocatePages (length : Nat) (protection : Protection) : Action Host Address := do
  let host ← Action.gets id
  match host.failingAllocations with
  | pending + 1 =>
    Action.modify fun host => { host with failingAllocations := pending }
    Action.fail (.outOfMemory length .systemCall)
  | 0 =>
    match host.memory.reserve length protection with
    | none => Action.fail (.outOfMemory length .systemCall)
    | some (base, memory) =>
      Action.modify fun host => { host with memory }
      return UInt64.ofNat base

/-- Unmaps the pages of an allocation. -/
def freePages (base : Address) : Action Host Unit :=
  modifyMemory (·.unmap base.toNat)

/-- The next change of protection was arranged to fail. -/
def Refusing (host : Host) : Prop :=
  host.refusals 0 = true

instance (host : Host) : Decidable host.Refusing :=
  inferInstanceAs (Decidable (_ = _))

/-- Gives the pages of a range protections of their own. A range of no bytes is
    refused outright; one that is not mapped is refused by the host. What was
    arranged for this change is used up by it. -/
def changeProtection (address : Address) (length : Nat) (protection : Nat → Protection) :
    Action Host Unit := do
  if length = 0 then
    Action.fail (.protectionRefused address length .invalidParameter)
  let host ← Action.gets id
  Action.modify fun host => { host with refusals := fun n => host.refusals (n + 1) }
  if host.Refusing then
    Action.fail (.protectionRefused address length .systemCall)
  else if host.memory.Covers address.toNat length then
    modifyMemory (·.protect address.toNat length protection)
  else
    Action.fail (.protectionRefused address length .systemCall)

/-- An action while a range can be read, written and executed. However the
    action ends, every page then gets back the protection it had. -/
def withWritable {α : Type} (address : Address) (length : Nat) (act : Action Host α) :
    Action Host α := do
  let saved ← Action.gets (·.memory.protection)
  changeProtection address length fun _ => .readWriteExecute
  let result ← act.attempt
  modifyMemory (·.protect address.toNat length saved)
  Action.ofExcept result

def load (address : Address) (length : Nat) : Action Host (List UInt8) :=
  if address = 0 then Action.fail (.nullAddress "read_bytes")
  else Action.gets (·.memory.read address.toNat length)

def store (address : Address) (bytes : List UInt8) : Action Host Unit :=
  if address = 0 then Action.fail (.nullAddress "copy_bytes")
  else modifyMemory (·.write address.toNat bytes)

/-- Nothing is ever written to the null address. -/
theorem store_null (bytes : List UInt8) :
    store 0 bytes = Action.fail (.nullAddress "copy_bytes") :=
  rfl

end Host

end Hotpatch
