import Hotpatch.Patch.Install
import Hotpatch.Proofs.Bracketing.Overwrite
import Hotpatch.Proofs.Memory.Extents
import Hotpatch.Trampoline

/-!
# What Is Done Without The Barrier

Almost all that a session does is done without the barrier: memory is mapped and
unmapped, protections change, bytes are stored in memory that nobody runs yet, and
notes are taken. A condition that none of this can break is kept by everything that
makes code and memory for it.

Making new things goes further. New pages are above all that there was before, and
whatever is done with them, or undone when something fails, is done there. So a
condition is also kept if only a change of older memory can break it.

A condition need not even be kept all the time while a region is made. For all that
builds on regions it is enough if it is kept in the end.

## Main definitions

* `Memory.Change`: A memory after one thing was done to it.
* `Upkeep`: A condition that only the barrier or a change of older memory can break.
* `Tending`: A condition that is kept by what is made, as a whole.
* `Region.Above`: A region that is above a floor.

## Theorems

* `Upkeep.allocate`, `Upkeep.tending`: Regions.
* `Tending.ofBytes`, `Tending.generate`: Regions that hold something.
* `Tending.build`: Trampolines.
* `Tending.resolve`, `Tending.payload`, `Tending.target`: The targets of branches.
-/

namespace Hotpatch

open Hotpatch.Action

/-- A memory after one thing was done to it, or nothing. Pages are handed out, and all
    else is done above some floor. -/
inductive Memory.Change (floor : Nat) (m : Memory) : Memory → Prop
  | same : Change floor m m
  | reserve {length : Nat} {protection : Protection} {base : Nat} {m' : Memory}
      (reserved : m.reserve length protection = some (base, m')) : Change floor m m'
  | unmap (base : Nat) (above : floor ≤ base) : Change floor m (m.unmap base)
  | protect (address length : Nat) (protection : Nat → Protection) (above : floor ≤ address) :
      Change floor m (m.protect address length protection)
  | write (address : Nat) (bytes : List UInt8) (above : floor ≤ address) :
      Change floor m (m.write address bytes)

/-- An event that has nothing to do with barriers. -/
def Event.IsQuiet : Event → Prop
  | .note _ => True
  | .opened _ => True
  | _ => False

/-- A quiet event leaves a quiet trace quiet. -/
theorem Event.IsQuiet.append {events : List Event} {event : Event} (quiet : event.IsQuiet)
    (h : ∀ event ∈ events, event.IsQuiet) : ∀ event' ∈ events ++ [event], event'.IsQuiet := by
  intro event' hmem
  rcases List.mem_append.mp hmem with hmem | hmem
  · exact h event' hmem
  · rw [List.mem_singleton.mp hmem]
    exact quiet

/-- A condition on a host and on events that only a call of a barrier can break, or
    another barrier in force, or a change of memory below some floor. New pages are
    above the floor. -/
structure Upkeep (floor : Nat) (C : Host × List Event → Prop) : Prop where
  later {host : Host} {events : List Event} (h : C (host, events)) : floor ≤ host.memory.next
  event {host : Host} {events : List Event} {event : Event} (quiet : event.IsQuiet)
    (h : C (host, events)) : C (host, events ++ [event])
  host (host : Host) {host' : Host} {events : List Event} (slot : host'.slot = host.slot)
    (memory : host.memory.Change floor host'.memory) (h : C (host, events)) : C (host', events)

/-- A live region that begins above a floor. -/
def Region.Above (floor : Nat) (r : Region) : Prop :=
  ∃ base, r.base = some base ∧ floor ≤ base.toNat

/-- A condition on a host and on events that is kept when a region is made, when pages
    above some floor are given back, and when bytes are stored above it. -/
structure Tending (floor : Nat) (C : Host × List Event → Prop) : Prop where
  event {host : Host} {events : List Event} {event : Event} (quiet : event.IsQuiet)
    (h : C (host, events)) : C (host, events ++ [event])
  host (host : Host) {host' : Host} {events : List Event} (slot : host'.slot = host.slot)
    (memory : host'.memory = host.memory) (h : C (host, events)) : C (host', events)
  unmapped (host : Host) {events : List Event} (base : Nat) (above : floor ≤ base)
    (h : C (host, events)) : C ({ host with memory := host.memory.unmap base }, events)
  written (host : Host) {events : List Event} (address : Nat) (bytes : List UInt8)
    (above : floor ≤ address) (h : C (host, events)) :
    C ({ host with memory := host.memory.write address bytes }, events)
  allocate (size : Nat) : Gives C id (Region.Above floor) (Region.allocate size)

namespace Upkeep

variable {floor : Nat} {C : Host × List Event → Prop} {σ α : Type} {part : σ → Host}

/-- Plain reads change nothing. -/
theorem load_keeps (address : Address) (length : Nat) : Keeps C id (Host.load address length) := by
  unfold Host.load
  split
  · exact .fail _
  · exact .gets _

theorem read_keeps (r : Region) (offset length : Nat) : Keeps C id (r.read offset length) := by
  refine .bind (.ofExcept _) fun address => ?_
  exact load_keeps address length

/-- A run of code touches nothing of a host. It is counted, and the count is the code's own. -/
theorem output_keeps (host : Host) (w : Writer) :
    Keeps C (fun _ : Code => host) (Code.output w) := by
  refine .bind (.gets _) fun code => ?_
  refine .bind (.modify fun _ => rfl) fun _ => ?_
  exact .ofExcept _

/-- Code that is run beside a host, and noted when it has run. -/
theorem noted_keeps (host : Host) (w : Writer) (note : List UInt8 → Note)
    (hlog : ∀ n, Keeps C (fun _ : Code => host) (Action.log n)) (f : List UInt8 → α) :
    Keeps C (fun _ : Code => host) (do
      let bytes ← Code.output w
      Action.log (note bytes)
      return f bytes) := by
  refine .bind (output_keeps host w) fun bytes => ?_
  exact .bind (hlog (note bytes)) fun _ => .ret _

theorem onSource_keeps {act : Action (Source × Host) α} (h : Keeps C Prod.snd act) :
    Keeps C Prod.snd (Patch.onSource act) := by
  refine .within h ?_ ?_
  · intro _
    rfl
  · intro _ _
    rfl

/-- A release takes a note and gives pages back. -/
theorem release_keeps {r : Region} (hlog : ∀ n, Keeps C id (Action.log n))
    (hfree : ∀ base, r.base = some base → Keeps C id (Host.freePages base)) :
    Keeps C id r.release := by
  unfold Region.release
  split
  · exact .ret r
  · next base hbase =>
      refine .bind (hlog _) fun _ => ?_
      exact .bind (hfree base hbase) fun _ => .ret _

/-- A quiet event is added to those that there are. -/
theorem emit_keeps {event : Event}
    (h : ∀ host events, C (host, events) → C (host, events ++ [event])) :
    Keeps C part (Action.emit event : Action σ Unit) := by
  rw [Keeps, traced_emit]
  exact .modify fun st hst => h (part st.1) st.2 hst

/-- A change of the host adds no events. -/
theorem modify_keeps {f : Host → Host} (h : ∀ host events, C (host, events) → C (f host, events)) :
    Keeps C id (Action.modify f) := by
  rw [Keeps, traced_modify]
  exact .modify fun st hst => h st.1 st.2 hst

section Making

variable (hC : Upkeep floor C)

include hC

theorem log (n : Note) : Keeps C part (Action.log n : Action σ Unit) := by
  refine emit_keeps fun host events h => ?_
  exact hC.event True.intro h

theorem modify {f : Host → Host} (slot : ∀ host, (f host).slot = host.slot)
    (memory : ∀ host : Host, host.memory.Change floor (f host).memory) :
    Keeps C id (Action.modify f) := by
  refine modify_keeps fun host events h => ?_
  exact hC.host host (slot host) (memory host) h

/-- New pages are above the floor, as all that comes next. -/
theorem allocatePages (length : Nat) (protection : Protection) :
    Gives C id (fun base => floor ≤ base.toNat) (Host.allocatePages length protection) := by
  unfold Host.allocatePages
  rw [Gives, traced_bind, traced_gets]
  -- The new memory was made from the host as it still is.
  refine .bind_gets fun host => ?_
  split
  · -- A refusal that was arranged is used up, and memory stays the same.
    rw [traced_bind, traced_modify, traced_fail]
    exact .bind_modify (M := C) (.fail fun _ h => h) fun st h => hC.host st.1 rfl .same h.1
  · split
    · rw [traced_fail]
      exact .fail fun _ h => h.1
    · next base memory reserved =>
        have hbase : base = host.memory.next := (Memory.reserve_eq_some reserved).1
        have htoNat := Memory.toNat_of_reserve reserved
        rw [traced_bind, traced_modify, traced_pure]
        refine .bind_modify (M := fun st => C st ∧ floor ≤ base) (.ret fun st h => ?_)
          fun st h => ?_
        · rw [htoNat]
          exact h
        · rcases h with ⟨h, hhost⟩
          -- What is next was above the floor before, and that is where the pages begin.
          have hlater : floor ≤ st.1.memory.next := hC.later h
          subst hhost
          refine ⟨hC.host st.1 rfl (.reserve reserved) h, ?_⟩
          rw [hbase]
          exact hlater

theorem changeProtection {address : Address} (above : floor ≤ address.toNat) (length : Nat)
    (protection : Nat → Protection) :
    Keeps C id (Host.changeProtection address length protection) := by
  unfold Host.changeProtection
  dsimp only
  split
  · exact .fail_bind _ _
  · -- A request is counted before it is known whether it will be granted.
    have hused := hC.modify (f := fun host =>
      { host with refusals := fun n => host.refusals (n + 1) })
      (fun _ => rfl) fun _ => .same
    refine .bind (.gets _) fun host => .bind hused fun _ => ?_
    split
    · exact .fail _
    · split
      · exact hC.modify (fun _ => rfl) fun _ => .protect _ _ _ above
      · exact .fail _

/-- A new region is above the floor, and so is all that was done to make it. -/
theorem allocate (size : Nat) : Gives C id (Region.Above floor) (Region.allocate size) := by
  unfold Region.allocate
  dsimp only
  split
  · exact .bind (.fail _) fun _ h => False.elim h
  · refine .bind (hC.allocatePages size .readWrite) fun base habove => ?_
    refine .bind_keeps (.attempt (hC.changeProtection habove size _)) fun result => ?_
    cases result with
    | error fault =>
        -- Pages that cannot be made to run are given back, and were above the floor.
        have hfree : Keeps C id (Host.freePages base) :=
          hC.modify (fun _ => rfl) fun _ => .unmap _ habove
        exact .bind_keeps hfree fun _ => .fail fault
    | ok _ => exact .bind_keeps (hC.log _) fun _ => .ret ⟨base, rfl, habove⟩

/-- All that builds on regions keeps the condition. -/
theorem tending : Tending floor C where
  event := hC.event
  host host _ _ slot memory h := hC.host host slot (memory ▸ .same) h
  unmapped host _ base above h := hC.host host rfl (.unmap base above) h
  written host _ address bytes above h := hC.host host rfl (.write address bytes above) h
  allocate := hC.allocate

end Making

end Upkeep

namespace Tending

open Upkeep

variable {floor : Nat} {C : Host × List Event → Prop} {σ α : Type} {part : σ → Host}
  (hC : Tending floor C)

include hC

theorem emit {event : Event} (quiet : event.IsQuiet) :
    Keeps C part (Action.emit event : Action σ Unit) := by
  refine emit_keeps fun host events h => ?_
  exact hC.event quiet h

theorem log (n : Note) : Keeps C part (Action.log n : Action σ Unit) :=
  hC.emit True.intro

theorem modify {f : Host → Host} (slot : ∀ host, (f host).slot = host.slot)
    (memory : ∀ host : Host, (f host).memory = host.memory) : Keeps C id (Action.modify f) := by
  refine modify_keeps fun host events h => ?_
  exact hC.host host (slot host) (memory host) h

/-- An action on the loader touches neither memory nor barriers. -/
theorem onLoader {act : Action Loader α} (h : ∀ host, Keeps C (fun _ : Loader => host) act) :
    Keeps C id (Host.onLoader act) := by
  rw [Keeps, Host.onLoader, traced_within]
  refine .within fun st hst => ?_
  -- The condition is about the host, so it is put back around the loader after each step.
  have hback : ∀ part : Loader × List Event, C (st.1, part.2) →
      C ({ st.1 with loader := part.1 }, part.2) :=
    fun part hpart => hC.host st.1 rfl rfl hpart
  refine (h st.1).triple.weaken (fun part hpart => ?_) (fun _ => hback) fun _ => hback
  rw [hpart]
  exact hst

section Loading

variable (host : Host)

theorem load (file : String) : Keeps C (fun _ : Loader => host) (Loader.load file) := by
  unfold Loader.load
  split
  · exact .ret false
  · -- To open a file is an event, but none that a barrier takes part in.
    refine .bind (hC.emit True.intro) fun _ => .bind (.gets _) fun found => ?_
    cases found with
    | none => exact .ret false
    | some images => exact .bind (.modify fun _ => rfl) fun _ => .ret true

theorem openFirst (name : String) (files : List String) :
    Keeps C (fun _ : Loader => host) (Loader.openFirst name files) := by
  induction files with
  | nil => exact .fail _
  | cons file rest ih =>
      refine .bind (hC.load host file) fun opened => ?_
      split
      · -- The file was opened, but the name may still be that of no module.
        refine .bind (.gets _) fun found => ?_
        cases found with
        | none => exact ih
        | some base => exact .ret base
      · exact ih

theorem locateModule (r : Resolver) (name : String) (offset : Address) :
    Keeps C (fun _ : Loader => host) (r.locate name offset) := by
  refine .bind ?_ fun _ => .ret _
  cases r with
  | table bases =>
      simp only [Resolver.base]
      split
      · exact .ret _
      · exact .fail _
  | system =>
      simp only [Resolver.base]
      split
      · exact .fail _
      · -- Files are opened only for a name that is not resident.
        have hresolve : Keeps C (fun _ : Loader => host) (Loader.resolve name) := by
          refine .bind (.gets _) fun found => ?_
          cases found with
          | none => exact hC.openFirst host name _
          | some base => exact .ret base
        refine .bind hresolve fun base => ?_
        exact .bind (hC.log _) fun _ => .ret base

end Loading

theorem freePages {base : Address} (above : floor ≤ base.toNat) :
    Keeps C id (Host.freePages base) := by
  refine modify_keeps fun host events h => ?_
  exact hC.unmapped host base.toNat above h

theorem store {address : Address} (above : floor ≤ address.toNat) (bytes : List UInt8) :
    Keeps C id (Host.store address bytes) := by
  unfold Host.store
  split
  · exact .fail _
  · refine modify_keeps fun host events h => ?_
    exact hC.written host address.toNat bytes above h

theorem release {r : Region} (above : ∀ base, r.base = some base → floor ≤ base.toNat) :
    Keeps C id r.release := by
  refine release_keeps hC.log fun base hbase => ?_
  exact hC.freePages (above base hbase)

theorem write {r : Region} {offset : Nat} {bytes : List UInt8}
    (above : ∀ address, r.locate offset bytes.length = .ok address → floor ≤ address.toNat) :
    Keeps C id (r.write offset bytes) := by
  unfold Region.write
  cases hlocate : r.locate offset bytes.length with
  | error fault => exact .fail_bind fault _
  | ok address =>
      have hstore := hC.store (above address hlocate) bytes
      exact .bind_gives (.ret rfl) fun a ha => (ha : address = a) ▸ hstore

/-- The first write into a region that is above the floor. -/
theorem writeStart {r : Region} (habove : r.Above floor) (bytes : List UInt8) :
    Keeps C id (r.write 0 bytes) := by
  refine hC.write fun address hlocate => ?_
  -- At offset zero the address is the base.
  rcases habove with ⟨base, hbase, habove⟩
  rcases Region.locate_eq_ok.mp hlocate with ⟨b, hb, -, rfl⟩
  rw [Option.some.inj (hb.symm.trans hbase), show base + UInt64.ofNat 0 = base from
    UInt64.add_zero base]
  exact habove

theorem ofBytes (bytes : List UInt8) : Keeps C id (Region.ofBytes bytes) := by
  refine .bind_gives (hC.allocate bytes.length) fun r habove => ?_
  have hwrite := hC.writeStart habove bytes
  exact .bind hwrite fun _ => .ret r

theorem assemble (base : Address) :
    Keeps C Prod.snd ((Code.assemble base).onFirst : Action (Code × Host) (List UInt8)) := by
  refine .onFirst fun host => ?_
  exact noted_keeps host _ _ hC.log _

/-- A region of generated code, which is given back if the code cannot be placed. -/
theorem generate : Keeps C Prod.snd Region.generate := by
  unfold Region.generate
  refine .bind (.onFirst fun host => ?_) fun expected => ?_
  · exact noted_keeps host _ _ hC.log _
  refine .bind_gives (.onSecond (hC.allocate expected)) fun r habove => ?_
  -- The region is new on every path from here, so it may be written and given back.
  have hgiveBack : ∀ fault, Keeps C Prod.snd
      (do let _ ← r.release.onSecond; Action.fail fault : Action (Code × Host) Region) := by
    intro fault
    refine .bind (.onSecond (hC.release fun base hbase => ?_)) fun _ => .fail fault
    rcases habove with ⟨base', hbase', habove⟩
    rw [hbase, Option.some.injEq] at hbase'
    rw [hbase']
    exact habove
  refine .bind (.attempt (hC.assemble r.address)) fun result => ?_
  cases result with
  | error fault => exact hgiveBack fault
  | ok bytes =>
      -- The second run may give more or fewer bytes than the first, which is a fault as well.
      dsimp only
      split
      · exact .bind (.onSecond (hC.writeStart habove bytes)) fun _ => .ret r
      · exact hgiveBack _

theorem build (d : Direction) (arity : Nat) (target : Address) :
    Keeps C id (Trampoline.build d arity target) := by
  unfold Trampoline.build
  refine .bind (.ofExcept _) fun template => ?_
  dsimp only
  split
  · exact .fail_bind _ _
  · refine .bind (.ofExcept _) fun code => .bind (hC.ofBytes code) fun region => ?_
    exact .bind (hC.log _) fun _ => .ret _

theorem resolve (kind : Branch) : Keeps C Prod.snd (Target.resolve kind) := by
  unfold Target.resolve
  refine .bind (.gets _) fun target => ?_
  split
  · exact .ofExcept _
  · exact .ofExcept _
  · -- Only a pending target does something: its code is generated, and is its own from then on.
    refine .bind (.within hC.generate (fun _ => rfl) fun _ _ => rfl) fun region => ?_
    refine .bind (hC.log _) fun _ => ?_
    exact .bind (.modify fun _ => rfl) fun _ => .ret _

theorem payload (site : Address) : Keeps C Prod.snd (Source.payload site) := by
  unfold Source.payload
  refine .bind (.gets _) fun source => ?_
  split
  · exact .ret _
  · refine .beside (fun host => ?_) fun _ _ => rfl
    exact noted_keeps host _ _ hC.log _
  · have hresolve := hC.resolve
    refine .bind (.within (hresolve _) (fun _ => rfl) fun _ _ => rfl) fun _ => ?_
    exact .ofExcept _

theorem target : Keeps C Prod.snd Patch.target := by
  unfold Patch.target
  refine .bind (.gets _) fun source => ?_
  split
  · refine .bind (onSource_keeps ?_) fun _ => .ret _
    exact .within (hC.resolve _) (fun _ => rfl) fun _ _ => rfl
  · exact .ret none

end Tending

end Hotpatch
