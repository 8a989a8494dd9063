import Hotpatch.Session.Command

/-!
# Sessions

A session is a host and the objects that the user holds. It takes one command
after the other and always goes on, whether a command succeeds or not.

A new object is kept only if making it succeeded. An object that changes is kept
in its new state also if the command failed, because a failed operation may have
changed it.

## Main definitions

* `Session`: A host and the objects on it.
* `Session.perform`: One command as an action.
* `Session.step`: The session after a command, and the reply.
* `Session.run`: The replies to a list of commands.
-/

namespace Hotpatch

/-- A host and the objects that the user holds. -/
structure Session where
  host : Host
  objects : Objects

namespace Session

/-- A session on a host with a loader, without objects. -/
def start (loader : Loader) : Session :=
  ⟨.start loader, []⟩

/-- The session with an object kept under a name. -/
def insert (s : Session) (id : String) (o : Object) : Session :=
  { s with objects := s.objects.insert id o }

/-- The session without the object of a name. -/
def erase (s : Session) (id : String) : Session :=
  { s with objects := s.objects.erase id }

def get? (s : Session) (id : String) : Option Object :=
  s.objects.get? id

def onHost {α : Type} (act : Action Host α) : Action Session α :=
  .within Session.host (fun s host => { s with host }) act

/-- An action that makes an object for a name, which has to be free. -/
def withFree (id : String) (act : Action Session Answer) : Action Session Answer := do
  match (← Action.gets (·.get? id)) with
  | none => act
  | some _ => return .refused

/-- Makes an object and keeps it under a name. The answer is its address. -/
def keep {α : Type} (id : String) (make : Action Host α) (object : α → Object)
    (address : α → Address) : Action Session Answer :=
  withFree id do
    let a ← onHost make
    Action.modify (·.insert id (object a))
    return .address (address a)

/-- An action that uses the object of a name, as far as `view` sees it. -/
def withObject {α : Type} (id : String) (view : Object → Option α)
    (act : α → Action Session Answer) : Action Session Answer := do
  match (← Action.gets fun s => (s.get? id).bind view) with
  | some a => act a
  | none => return .refused

/-- An action on the patch of a name and on the host. -/
def onPatch (id : String) (act : Action (Patch × Host) Answer) : Action Session Answer :=
  withObject id Object.patch? fun p =>
    act.within (fun s => (p, s.host)) fun s part =>
      { s.insert id (.patch part.1) with host := part.2 }

/-- An action on code of the user's. The answer is made from its result, and
    also says how often the code was run. -/
def onCode {α : Type} (program : Program) (act : Action (Code × Host) α)
    (answer : α → Action Session Answer) : Action Session Answer := do
  let (result, runs) ← onHost <|
    (do return (← act.attempt, (← Action.gets Prod.fst).runs) : Action (Code × Host) _).within
      (fun host => ({ program }, host)) fun _ part => part.2
  match result with
  | .error fault => return .ran runs (.error fault)
  | .ok a => return .ran runs (.ok (← answer a))

def locate : Site → Action Host Address
  | .absolute address => return address
  | .inModule resolver name offset => do
    return (← LiveCode.inModule resolver name offset).address

/-- What a new patch writes. A target that is no place to branch to is refused
    before anything else is looked at. -/
def source (s : Session) : Design → Option (Except Fault Source)
  | .literal bytes => some (.ok (.literal bytes))
  | .inPlace program => some (.ok (.inPlace { program }))
  | .branchInto kind program => some (.ok (.branch kind (.pending program)))
  | .branchTo kind target => some ((Target.ofAddress target).map (.branch kind))
  | .branchToObject kind id => do
    let target ← (s.get? id).bind Object.branchTarget
    return (target.bind Target.ofAddress).map (.branch kind)

def bridge (arity : Nat) (target : Address) : Bridge → Action Host Trampoline
  | .direct direction => Trampoline.build direction arity target
  | .fastcallEntry => Trampoline.fastcallEntry arity target
  | .stdcallEntry => Trampoline.stdcallEntry arity target

def protections (probes : List Address) : Action Host (List (Option Protection)) :=
  Action.gets fun host => probes.map fun a => host.memory.protectionAt a.toNat

/-- What is known about an object. -/
def describe (o : Object) : Action Host Info := do
  match o with
  | .trampoline t => return ⟨o, some (← t.region.readAll.attempt)⟩
  | .patch p =>
    match p.intercept? with
    | some region => return ⟨o, some (← region.readAll.attempt)⟩
    | none => return ⟨o, none⟩
  | _ => return ⟨o, none⟩

/-- One command as an action. -/
def perform : Command → Action Session Answer
  | .mapPages id length protection =>
    keep id (Host.allocatePages length protection)
      (fun base => .page base (wholePages length)) fun base => base
  | .protection address =>
    .gets fun s => .protection (s.host.memory.protectionAt address.toNat)
  | .failAllocations count => do
    onHost (.modify fun host => { host with failingAllocations := count })
    return .done
  | .arrangeProtections refusals => do
    onHost (.modify fun host => { host with refusals })
    return .done
  | .peek address length => do
    return .bytes (← onHost (Host.load address length))
  | .poke address bytes => do
    onHost (Host.store address bytes)
    return .done
  -- Code that was written is seen by the processor without more ado.
  | .flush _ _ => return .done
  -- Protections are looked at before the guard, under it and after it.
  | .guard address length probes => do
    let before ← onHost (protections probes)
    let inside ← onHost (Host.withWritable address length (protections probes)).attempt
    let after ← onHost (protections probes)
    return .guarded before inside after
  | .allocate id size => keep id (Region.allocate size) .region Region.address
  | .ofBytes id bytes => keep id (Region.ofBytes bytes) .region Region.address
  | .generate id program =>
    withFree id <| onCode program Region.generate fun r => do
      Action.modify (·.insert id (.region r))
      return .address r.address
  | .write id offset bytes =>
    withObject id Object.region? fun r => do
      onHost (r.write offset bytes)
      return .done
  | .read id offset length =>
    withObject id Object.region? fun r => do
      return .bytes (← onHost (r.read offset length))
  | .contains id address =>
    withObject id Object.region? fun r => return .flag (decide (r.Contains address))
  -- The object stays under its name, and knows that it has no memory any more.
  | .release id =>
    withObject id Object.region? fun r => do
      let r ← onHost r.release
      Action.modify (·.insert id (.region r))
      return .done
  | .resident id site =>
    keep id (do return ⟨← locate site⟩) .resident LiveCode.address
  | .overwrite id bytes =>
    withObject id Object.resident? fun live => do
      return .count (← onHost (live.overwrite bytes false))
  | .overwriteWith id program =>
    withObject id Object.resident? fun live =>
      onCode program live.overwriteWith fun count => return .count count
  | .inspect id length =>
    withObject id Object.resident? fun live => do
      return .bytes (← onHost (live.read length))
  | .assemble id program =>
    withObject id Object.resident? fun live =>
      onCode program (Code.assemble live.address).onFirst fun bytes => return .bytes bytes
  -- The source becomes the routine, so its own name is free for it.
  | .routine id source =>
    withObject source Object.toRoutine? fun r => do
      match (← Action.gets fun s => (s.erase source).get? id) with
      | none =>
        Action.modify fun s => (s.erase source).insert id (.routine r)
        return .address r.address
      | some _ => return .refused
  | .routineRelease id =>
    withObject id Object.routine? fun r => do
      let r ← onHost r.release
      Action.modify (·.insert id (.routine r))
      return .flag r.region?.isSome
  | .trampoline id kind arity target =>
    keep id (bridge arity target kind) .trampoline Trampoline.address
  -- Who names no object is refused before the site is looked for.
  | .patch id design site unprotected => do
    match (← Action.gets (·.source design)) with
    | none => return .refused
    | some result =>
      let source ← Action.ofExcept result
      keep id (do return .place (← locate site) source unprotected) .patch Patch.site
  | .install id => onPatch id (do Patch.install; return .done)
  | .uninstall id => onPatch id (do Patch.uninstall; return .done)
  | .target id => onPatch id (do
      match (← Patch.target) with
      | some address => return .address address
      | none => return .refused)
  | .defineBarrier barrier => do
    onHost (.modify fun host =>
      { host with barriers := (barrier.name, barrier) :: host.barriers })
    return .done
  | .setBarrier name => do
    match (← Action.gets (·.host.barriers.lookup name)) with
    | none => return .refused
    | some barrier => return .name (← onHost (Host.installBarrier (some barrier)))
  | .clearBarrier => do
    return .name (← onHost (Host.installBarrier none))
  -- The name is free at once, even if the end of the object fails half-way.
  | .drop id =>
    withObject id some fun o => do
      Action.modify (·.erase id)
      onHost o.drop
      return .done
  | .info id =>
    withObject id some fun o => do
      return .info (← onHost (describe o))

/-- The session after a command, and the reply to it. -/
def step (s : Session) (command : Command) : Session × Reply :=
  let o := perform command s
  (o.state, ⟨o.result, o.trace⟩)

/-- The replies to a list of commands, and the session after them. -/
def run (s : Session) : List Command → Session × List Reply
  | [] => (s, [])
  | command :: rest =>
    let (s, reply) := s.step command
    let (s, replies) := s.run rest
    (s, reply :: replies)

end Session

end Hotpatch
