import Hotpatch.Proofs.Access.Run
import Hotpatch.Proofs.Stub.Construction

/-!
# Trampolines Through Runs

Wherever a session has come to, a trampoline that it builds has the code that its
direction, its number of parameters and its target call for. Neither the host nor the
trampolines that were built before have a part in that, since templates are never
changed.

The code stays as long as no command writes to it. Building more trampolines never does,
so any number of them can be built in any order, and each has the code that it would have
alone.

## Main definitions

* `Bridge.direction`: Which way the stub of a command leads.
* `Command.BuildsTrampoline`: A command that builds a trampoline.
* `Session.Provides`: A session with a trampoline whose code stays.

## Theorems

* `step_trampoline_ok`: A command that builds a trampoline.
* `run_trampolines_get?`: Objects stay while trampolines are built.
* `trampolines_of_run`: Building a trampoline after any commands.
-/

namespace Hotpatch

open Hotpatch.Action

/-- Which way the stub of a command leads. -/
def Bridge.direction : Bridge → Direction
  | .direct d => d
  | .fastcallEntry => .fastcallToStdcall
  | .stdcallEntry => .stdcallToFastcall

/-- A command that builds a trampoline, or tries to. -/
def Command.BuildsTrampoline : Command → Prop
  | .trampoline _ _ _ _ => True
  | _ => False

namespace Session

variable {s : Session} {id : String} {o : Object} {b : Bridge} {arity : Nat} {target : Address}
  {t : Trampoline} {commands : List Command}

theorem bridge_eq (arity : Nat) (target : Address) (b : Bridge) :
    bridge arity target b = Trampoline.build b.direction arity target := by
  cases b <;> rfl

/-- What is made for a name that is free enters under it. -/
theorem keep_state {α : Type} {make : Action Host α} {object : α → Object}
    {address : α → Address} {a : α} (hfree : s.get? id = none)
    (hmade : (make s.host).result = .ok a) :
    (keep id make object address s).state =
      Session.insert { s with host := (make s.host).state } id (object a) := by
  have hfound : (Action.gets (fun s : Session => s.get? id) s).result = .ok none :=
    congrArg Except.ok hfree
  have hkeep : (keep id make object address s).state = _ :=
    congrArg Outcome.state (bind_ok hfound)
  have honHost : (onHost make s).result = .ok a := hmade
  exact hkeep.trans (congrArg Outcome.state (bind_ok honHost))

/-- A trampoline that is built enters under its name, if the name is free. -/
theorem step_trampoline_ok (hfree : s.get? id = none)
    (ht : (Trampoline.build b.direction arity target s.host).result = .ok t) :
    (s.step (.trampoline id b arity target)).1 =
      Session.insert { s with host := (Trampoline.build b.direction arity target s.host).state }
        id (.trampoline t) := by
  rw [← bridge_eq] at ht ⊢
  exact keep_state hfree ht

/-- What is made takes no name that is taken. -/
theorem keep_get? {α : Type} (make : Action Host α) (object : α → Object)
    (address : α → Address) (other : String) :
    Preserves (fun s : Session => s.get? id = some o) (keep other make object address) := by
  refine .bind_gets fun found => ?_
  cases found with
  | some _ => exact .ret fun _ hs => hs.1
  | none =>
      -- The name was found free, so it is not the one that is held.
      refine .assuming (fun s hs heq => ?_) fun (hother : id ≠ other) => ?_
      · rw [← heq, hs.1] at hs
        exact Option.some_ne_none o hs.2
      · have honHost : Preserves (fun s : Session => s.get? id = some o) (onHost make) := by
          refine .within fun _ hs => ?_
          exact Triple.trivial.weaken (fun _ h => h) (fun _ _ _ => hs) fun _ _ _ => hs
        have hinsert : ∀ a, Preserves (fun s : Session => s.get? id = some o)
            (Action.modify fun s => s.insert other (object a)) := by
          refine fun a => .modify fun s hs => ?_
          exact (Objects.get?_insert_of_ne hother (object a) s.objects).trans hs
        have hnew : Preserves (fun s : Session => s.get? id = some o) _ :=
          .bind honHost fun a => .bind (hinsert a) fun _ => .ret (Answer.address (address a))
        exact Triple.before hnew fun _ hs => hs.1

/-- Objects stay as they are while trampolines are built. -/
theorem run_trampolines_get? (hbuilds : ∀ command ∈ commands, command.BuildsTrampoline)
    (hget : s.get? id = some o) : (s.run commands).1.get? id = some o := by
  induction commands generalizing s with
  | nil => exact hget
  | cons command rest ih =>
      have hfirst := hbuilds command List.mem_cons_self
      refine ih (fun c hc => hbuilds c (List.mem_cons_of_mem command hc)) ?_
      cases command with
      | trampoline other b arity target => exact (keep_get? _ _ _ other).after hget
      | _ => exact hfirst.elim

/-- Building trampolines writes to nothing that was there. -/
theorem keepOff_of_trampolines (hbuilds : ∀ command ∈ commands, command.BuildsTrampoline)
    (e : Extent) (s : Session) : s.KeepOff e commands := by
  induction commands generalizing s with
  | nil => exact True.intro
  | cons command rest ih =>
      have hfirst := hbuilds command List.mem_cons_self
      refine ⟨fun a _ ⟨e', hwritten, _⟩ => ?_,
        ih (fun c hc => hbuilds c (List.mem_cons_of_mem command hc)) _⟩
      cases command with
      | trampoline other b arity target =>
          -- A trampoline goes into new pages, which is no write to old ones.
          exact Option.not_mem_none e' hwritten
      | _ => exact hfirst.elim

/-- A session with a trampoline whose code stays. -/
structure Provides (s : Session) (id : String) (t : Trampoline) (code : List UInt8) :
    Prop where
  held : s.get? id = some (.trampoline t)
  /-- The code is there after commands that do not write to it. -/
  lasting : ∀ later, s.KeepOff (t.region.range 0 t.region.size) later →
    (t.region.readAll (s.run later).1.host).result = .ok code
  /-- However many trampolines are built, this one stays as it is. -/
  beside : ∀ later, (∀ command ∈ later, command.BuildsTrampoline) →
    (s.run later).1.get? id = some (.trampoline t) ∧
      (t.region.readAll (s.run later).1.host).result = .ok code

/-- The code of a trampoline that an object of a session has stays. -/
theorem Accounted.provides {floor : Nat} {owned : List Extent} {code : List UInt8}
    (hs : s.Accounted floor (fun _ _ => True) owned) (hbounded : s.host.memory.Bounded)
    (hget : s.get? id = some (.trampoline t))
    (hcode : (t.region.readAll s.host).result = .ok code) : s.Provides id t code where
  held := hget
  lasting later hoff := (hs.read_run hbounded hget rfl later hoff).trans hcode
  beside later hbuilds := by
    have hoff := keepOff_of_trampolines hbuilds (t.region.range 0 t.region.size) s
    refine ⟨run_trampolines_get? hbuilds hget, ?_⟩
    exact (hs.read_run hbounded hget rfl later hoff).trans hcode

/-- Building a trampoline, wherever a session has come to. It ends as its arguments and the
    host say. If there is one its code is the template with the target in its one field,
    which is the same for every session, and stays. -/
theorem trampolines_of_run (loader : Loader) (commands : List Command) (d : Direction)
    (arity : Nat) (target : Address) :
    (arity ≤ maxArity → ∀ code, d.Fills arity target code ↔ code = d.stub arity target) ∧
      Trampoline.Constructed d arity target ((start loader).run commands).1.host ∧
      ∀ id b t, b.direction = d → ((start loader).run commands).1.get? id = none →
        (Trampoline.build d arity target ((start loader).run commands).1.host).result = .ok t →
          (((start loader).run commands).1.step (.trampoline id b arity target)).1.Provides id t
            (d.stub arity target) := by
  have hs := run_accounted commands (start_accounted loader)
  have hbounded := run_memory Memory.Bounded.change commands (start_bounded loader)
  have haligned := run_aligned commands (start_aligned loader)
  have hconstructed := Trampoline.constructed_of_orderly d arity target hs.owns.orderly haligned
  refine ⟨fun h _ => d.fills_iff h, hconstructed, ?_⟩
  rintro id b t rfl hfree ht
  have hstate := step_trampoline_ok hfree ht
  -- The step that builds it leaves a session as good as the one before.
  have hafter := step_accounted hs (.trampoline id b arity target) fun _ _ _ => True.intro
  have hbounded' := step_memory Memory.Bounded.change hbounded (.trampoline id b arity target)
  refine hafter.provides hbounded' ?_ ?_
  · rw [hstate]
    exact Objects.get?_insert_self id _ _
  · rw [hstate]
    exact (hconstructed.holds t ht).2

/-- A session in which a trampoline was built. -/
def afterEntry : Session :=
  ((start ⟨[], []⟩).run [.trampoline "entry" .stdcallEntry 1 0x401000]).1

/-- The next trampoline, for a target whose bytes are those of the placeholder. -/
def ambiguous : Trampoline :=
  ⟨⟨some 0x10002000, 46⟩, 0xF0F0F0F0, .fastcallToStdcall, 3⟩

/-- The code of the second trampoline is right after a third was built. -/
theorem trampolines_of_ambiguous :
    Direction.fastcallToStdcall.Fills 3 0xF0F0F0F0
        (Direction.fastcallToStdcall.stub 3 0xF0F0F0F0) ∧
      (ambiguous.region.readAll
        ((afterEntry.step (.trampoline "ambiguous" .fastcallEntry 3 0xF0F0F0F0)).1.run
          [.trampoline "last" (.direct .fastcallToStdcall) 3 0xF0]).1.host).result =
            .ok (Direction.fastcallToStdcall.stub 3 0xF0F0F0F0) := by
  rcases trampolines_of_run ⟨[], []⟩ [.trampoline "entry" .stdcallEntry 1 0x401000]
    .fastcallToStdcall 3 0xF0F0F0F0 with ⟨hfills, -, hprovides⟩
  have hprovided := hprovides "ambiguous" .fastcallEntry ambiguous rfl rfl rfl
  refine ⟨(hfills (by decide) _).mpr rfl, (hprovided.beside _ fun command hcommand => ?_).2⟩
  rw [List.mem_singleton.mp hcommand]
  exact True.intro

end Session

end Hotpatch
