import Hotpatch.Proofs.Upkeep.Making
import Hotpatch.Session

/-!
# Commands And The Barrier

Five commands may write to live code, and three are about the barrier itself. All
others keep every condition that only the barrier can break, whether they succeed or
fail. The five keep such a condition if it is kept by writes to live code.

A command meets memory that is older than it in six ways: it hands out pages as they are
asked for, lifts protections, gives pages back, stores bytes at an address, writes to a
region, or writes to live code. A condition that is broken by changes of older memory has
to be kept through these. All else a command does is done to what it makes itself.

## Main definitions

* `Command.WritesLive`: The commands that may write to live code.
* `Command.SetsBarrier`: The commands about the barrier itself.
* `Command.Sustains`: What a command does to older memory keeps a condition.

## Theorems

* `Upkeep.keep`, `Upkeep.onPatch`, `Upkeep.onCode`: The shapes of commands.
* `Tending.install`, `Tending.uninstall`, `Tending.dropPatch`: The life of a patch.
* `Tending.perform`: The commands of a session, for what they do to older memory.
* `Upkeep.sustains`, `Upkeep.perform`: Older memory that may change.
-/

namespace Hotpatch

open Hotpatch.Action

/-- The commands that may write to live code. -/
def Command.WritesLive : Command → Prop
  | .install _ => True
  | .uninstall _ => True
  | .drop _ => True
  | .overwrite _ _ => True
  | .overwriteWith _ _ => True
  | _ => False

/-- The commands about the barrier itself. -/
def Command.SetsBarrier : Command → Prop
  | .defineBarrier _ => True
  | .setBarrier _ => True
  | .clearBarrier => True
  | _ => False

namespace Upkeep

variable {C : Host × List Event → Prop} {σ α : Type}

theorem describe_keeps (o : Object) : Keeps C id (Session.describe o) := by
  have hread : ∀ r : Region, Keeps C id
      (do return (⟨o, some (← r.readAll.attempt)⟩ : Info)) := by
    intro r
    exact .bind (.attempt (read_keeps r 0 r.size)) fun _ => .ret _
  cases o with
  | trampoline t => exact hread t.region
  | patch p =>
      simp only [Session.describe]
      split
      · next region _ => exact hread region
      · exact .ret _
  | _ => exact .ret _

theorem freeIntercept_keeps (hrelease : ∀ r : Region, Keeps C id r.release) (p : Patch) :
    Keeps C id p.freeIntercept := by
  unfold Patch.freeIntercept
  split
  · exact .bind (hrelease _) fun _ => .ret _
  · exact .ret _

theorem keepIntercept_keeps (hlog : ∀ n, Keeps C id (Action.log n)) (p : Patch) :
    Keeps C id p.keepIntercept := by
  unfold Patch.keepIntercept
  split
  · exact hlog _
  · exact .ret _

section Shapes

variable {id : String} {next : Action Session Answer}

theorem onHost {act : Action Host α} (h : Keeps C (fun host => host) act) :
    Keeps C Session.host (Session.onHost act) :=
  .within h (fun _ => rfl) fun _ _ => rfl

/-- A command that is answered by what the host answers. -/
theorem answer {act : Action Host α} (h : Keeps C (fun host => host) act) (f : α → Answer) :
    Keeps C Session.host (do return f (← Session.onHost act)) :=
  (onHost h).bind fun _ => .ret _

theorem withFree (h : Keeps C Session.host next) :
    Keeps C Session.host (Session.withFree id next) := by
  refine .bind (.gets _) fun found => ?_
  cases found with
  | none => exact h
  | some _ => exact .ret _

/-- Objects are no part of the host, so one that enters or leaves keeps the condition. -/
theorem modifyObjects {f : Session → Session} (h : ∀ s, (f s).host = s.host) (a : Answer) :
    Keeps C Session.host (do Action.modify f; return a) :=
  .bind (.modify h) fun _ => .ret _

theorem keep {make : Action Host α} {object : α → Object} {address : α → Address}
    (h : Keeps C (fun host => host) make) :
    Keeps C Session.host (Session.keep id make object address) := by
  refine withFree (.bind (onHost h) fun a => ?_)
  exact modifyObjects (fun _ => rfl) (.address (address a))

theorem withObject {view : Object → Option α} {next : α → Action Session Answer}
    (h : ∀ a, Keeps C Session.host (next a)) :
    Keeps C Session.host (Session.withObject id view next) := by
  refine .bind (.gets _) fun found => ?_
  cases found with
  | none => exact .ret _
  | some a => exact h a

/-- An object that gives back what it owns, and stays under its name. -/
theorem giveBack {view : Object → Option α} {give : α → Action Host α} {object : α → Object}
    (answer : α → Answer) (h : ∀ a, Keeps C (fun host => host) (give a)) :
    Keeps C Session.host (Session.withObject id view fun a => do
      let a' ← Session.onHost (give a)
      Action.modify (·.insert id (object a'))
      return answer a') := by
  refine withObject fun a => .bind (onHost (h a)) fun a' => ?_
  exact modifyObjects (fun _ => rfl) (answer a')

theorem onPatch {act : Action (Patch × Host) Answer} (h : Keeps C Prod.snd act) :
    Keeps C Session.host (Session.onPatch id act) := by
  refine withObject fun p => ?_
  exact .within h (fun _ => rfl) fun _ _ => rfl

theorem onCode {program : Program} {act : Action (Code × Host) α}
    {answer : α → Action Session Answer} (h : Keeps C Prod.snd act)
    (hanswer : ∀ a, Keeps C Session.host (answer a)) :
    Keeps C Session.host (Session.onCode program act answer) := by
  have hrun : Keeps C Prod.snd (do return (← act.attempt, (← Action.gets Prod.fst).runs) :
      Action (Code × Host) (Except Fault α × Nat)) :=
    .bind (.attempt h) fun _ => .bind (.gets _) fun _ => .ret _
  refine .bind (onHost (.within hrun (fun _ => rfl) fun _ _ => rfl)) fun out => ?_
  rcases out with ⟨fault | a, runs⟩
  · exact .ret _
  · exact .bind (hanswer a) fun _ => .ret _

end Shapes

/-- Protections are lifted and put back, which is a change of memory like any other. -/
theorem withWritable (hC : Upkeep 0 C) {act : Action Host α} (address : Address) (length : Nat)
    (h : Keeps C id act) : Keeps C id (Host.withWritable address length act) := by
  refine .bind (.gets _) fun saved => ?_
  refine .bind (hC.changeProtection (Nat.zero_le _) length _) fun _ => ?_
  refine .bind (.attempt h) fun result => .bind ?_ fun _ => .ofExcept _
  exact hC.modify (fun _ => rfl) fun _ => .protect _ _ _ (Nat.zero_le _)

/-- A write of a patch is a write to live code. -/
theorem put_keeps (hlive : ∀ live bytes unprotected,
    Keeps C id (LiveCode.overwrite live bytes unprotected)) (bytes : List UInt8) :
    Keeps C Prod.snd (Patch.put bytes) := by
  refine .bind (.gets _) fun p => ?_
  refine .bind (.onSecond ?_) fun _ => .ret _
  exact hlive p.live bytes p.unprotected

end Upkeep

/-- What a command does to memory that is older than it keeps a condition. -/
structure Command.Sustains (command : Command) (C : Host × List Event → Prop) : Prop where
  map : ∀ {name length protection}, command = .mapPages name length protection →
    Keeps C id (Host.allocatePages length protection)
  guard : ∀ {address length probes}, command = .guard address length probes →
    Keeps C id (Host.withWritable address length (Session.protections probes))
  free : ∀ base, Keeps C id (Host.freePages base)
  poke : ∀ {address bytes}, command = .poke address bytes → Keeps C id (Host.store address bytes)
  write : ∀ {name offset bytes}, command = .write name offset bytes →
    ∀ r : Region, Keeps C id (r.write offset bytes)
  live : command.WritesLive → ∀ live bytes unprotected,
    Keeps C id (LiveCode.overwrite live bytes unprotected)

namespace Tending

open Upkeep

variable {floor : Nat} {C : Host × List Event → Prop} {σ α : Type} (hC : Tending floor C)

include hC

theorem locate (site : Site) : Keeps C id (Session.locate site) := by
  cases site with
  | absolute address => exact .ret address
  | inModule resolver name offset =>
      have hload : Keeps C id (Host.onLoader (resolver.locate name offset)) :=
        hC.onLoader fun host => hC.locateModule host resolver name offset
      exact .bind (.bind hload fun _ => .ret _) fun _ => .ret _

theorem bridge (arity : Nat) (target : Address) (b : Bridge) :
    Keeps C id (Session.bridge arity target b) := by
  cases b with
  | direct direction => exact hC.build direction arity target
  | fastcallEntry => exact hC.build _ arity target
  | stdcallEntry => exact hC.build _ arity target

section Freeing

variable (hfree : ∀ base, Keeps C id (Host.freePages base))

include hfree

theorem releaseRegion (r : Region) : Keeps C id r.release := by
  refine release_keeps hC.log fun base _ => ?_
  exact hfree base

theorem freeIntercept (p : Patch) : Keeps C id p.freeIntercept :=
  freeIntercept_keeps (hC.releaseRegion hfree) p

theorem releaseRoutine (r : Routine) : Keeps C id r.release := by
  cases r with
  | resident live => exact .ret _
  | owned region => exact .bind (hC.releaseRegion hfree region) fun _ => .ret _

end Freeing

section Writes

variable (hlive : ∀ live bytes unprotected,
  Keeps C id (LiveCode.overwrite live bytes unprotected))

include hlive

theorem overwriteWith (live : LiveCode) : Keeps C Prod.snd live.overwriteWith := by
  refine .bind (hC.assemble live.address) fun bytes => ?_
  exact .onSecond (hlive live bytes false)

theorem writeReplacement (bytes : List UInt8) :
    Keeps C Prod.snd (Patch.writeReplacement bytes) := by
  unfold Patch.writeReplacement
  refine .bind (.gets _) fun p => .bind (.onSecond (load_keeps _ _)) fun covered => ?_
  refine .bind (.attempt (put_keeps hlive bytes)) fun result => ?_
  cases result with
  | ok _ =>
      have hnote : Keeps C Prod.snd (do
          Action.log (.installed (← Action.gets fun state => state.1.description)) :
          Action (Patch × Host) Unit) :=
        .bind (.gets _) fun _ => hC.log _
      exact .bind (.modify fun _ => rfl) fun _ => hnote
  | error fault =>
      -- A first write that failed is followed by a second, and that is live code again.
      refine .bind (.attempt (put_keeps hlive covered)) fun second => ?_
      cases second with
      | ok _ => exact .fail fault
      | error _ => exact .bind (hC.log _) fun _ => .fail fault

theorem install : Keeps C Prod.snd Patch.install := by
  unfold Patch.install
  refine .bind (.gets _) fun p => ?_
  split
  · exact .ret _
  · refine .bind (onSource_keeps (hC.payload p.site)) fun bytes => ?_
    split
    · exact hC.log _
    · exact hC.writeReplacement hlive bytes

theorem uninstall : Keeps C Prod.snd Patch.uninstall := by
  unfold Patch.uninstall
  refine .bind (.gets _) fun p => ?_
  split
  · exact .fail _
  · next saved _ =>
      refine .bind (put_keeps hlive saved) fun _ => ?_
      exact .bind (.modify fun _ => rfl) fun _ => hC.log _

variable (hfree : ∀ base, Keeps C id (Host.freePages base))

include hfree

theorem dropPatch (p : Patch) : Keeps C id p.drop := by
  unfold Patch.drop
  split
  · have huninstall : Keeps C id (Patch.uninstall.within (fun host : Host => (p, host))
        fun _ state => state.2) :=
      .within (hC.uninstall hlive) (fun _ => rfl) fun _ _ => rfl
    refine .bind (.attempt huninstall) fun result => ?_
    cases result with
    | ok _ => exact hC.freeIntercept hfree p
    | error fault =>
        -- The branch is still there, so what it leads to is left where it is.
        exact .bind (hC.log _) fun _ => keepIntercept_keeps hC.log p
  · exact hC.freeIntercept hfree p

omit hlive

/-- The end of an object. Only an installed patch writes to live code at its end. -/
theorem dropObject {o : Object} (hlive : ∀ p, o = .patch p → p.isInstalled = true →
      ∀ live bytes unprotected, Keeps C id (LiveCode.overwrite live bytes unprotected)) :
    Keeps C id o.drop := by
  cases o with
  | page base length => exact hfree base
  | region r => exact .bind (hC.releaseRegion hfree r) fun _ => .ret _
  | resident live => exact .ret _
  | routine r => exact .bind (hC.releaseRoutine hfree r) fun _ => .ret _
  | trampoline t => exact .bind (hC.releaseRegion hfree t.region) fun _ => .ret _
  | patch p =>
      by_cases hinstalled : p.isInstalled = true
      · exact hC.dropPatch (hlive p rfl hinstalled) hfree p
      · simp only [Object.drop, Patch.drop, if_neg hinstalled]
        exact hC.freeIntercept hfree p

end Writes

section Commands

variable {id : String}

/-- A change of the host that is about what it will refuse. -/
theorem arrange {f : Host → Host} (slot : ∀ host, (f host).slot = host.slot)
    (memory : ∀ host : Host, (f host).memory = host.memory) :
    Keeps C Session.host (do Session.onHost (.modify f); return Answer.done) :=
  answer (hC.modify slot memory) fun _ => .done

/-- A new patch is only described, and its site found. -/
theorem patch (design : Design) (site : Site) (unprotected : Bool) :
    Keeps C Session.host (Session.perform (.patch id design site unprotected)) := by
  refine .bind (.gets _) fun found => ?_
  cases found with
  | none => exact .ret _
  | some result =>
      refine .bind (.ofExcept _) fun source => keep ?_
      exact .bind (hC.locate site) fun _ => .ret _

theorem targetOf : Keeps C Session.host (Session.perform (.target id)) := by
  refine onPatch (.bind hC.target fun found => ?_)
  cases found with
  | none => exact .ret _
  | some address => exact .ret _

omit hC

/-- An object becomes a routine without the host. -/
theorem routine_keeps (source : String) :
    Keeps C Session.host (Session.perform (.routine id source)) := by
  refine withObject fun r => .bind (.gets _) fun found => ?_
  cases found with
  | none => exact modifyObjects (fun _ => rfl) (.address r.address)
  | some _ => exact .ret _

/-- Protections are looked at before, while the range is writable, and after. -/
theorem guard_keeps {address : Address} {length : Nat} {probes : List Address}
    (h : Keeps C (fun host => host)
      (Host.withWritable address length (Session.protections probes))) :
    Keeps C Session.host (Session.perform (.guard address length probes)) := by
  have hprobe : Keeps C (fun host => host) (Session.protections probes) := .gets _
  refine .bind (onHost hprobe) fun before => ?_
  refine .bind (onHost (.attempt h)) fun inside => ?_
  exact answer hprobe _

end Commands

/-- Every command but those about barriers keeps a condition that is kept by what is made,
    if it is kept by what the command does to older memory. -/
theorem perform {command : Command} (hbarrier : ¬ command.SetsBarrier)
    (h : command.Sustains C) : Keeps C Session.host (Session.perform command) := by
  cases command with
  -- the environment
  | mapPages id length protection => exact keep (h.map rfl)
  | protection address => exact .gets _
  | failAllocations count | arrangeProtections refusals =>
      exact hC.arrange (fun _ => rfl) fun _ => rfl
  | peek address length => exact answer (load_keeps address length) _
  | poke address bytes => exact answer (h.poke rfl) _
  | flush address length => exact .ret _
  | guard address length probes => exact guard_keeps (h.guard rfl)
  -- executable memory
  | allocate id size => exact keep (hC.allocate size).keeps
  | ofBytes id bytes => exact keep (hC.ofBytes bytes)
  | generate id program =>
      refine withFree (onCode hC.generate fun r => ?_)
      exact modifyObjects (fun _ => rfl) (.address r.address)
  | write id offset bytes =>
      refine withObject fun r => ?_
      exact answer (h.write rfl r) _
  | read id offset length =>
      refine withObject fun r => ?_
      exact answer (read_keeps r offset length) _
  | contains id address => exact withObject fun r => .ret _
  | release id => exact giveBack _ fun r => hC.releaseRegion h.free r
  -- live code
  | resident id site =>
      refine keep ?_
      exact .bind (hC.locate site) fun _ => .ret _
  | overwrite id bytes =>
      refine withObject fun live => ?_
      exact answer (h.live True.intro live bytes false) _
  | overwriteWith id program =>
      refine withObject fun live => ?_
      exact onCode (hC.overwriteWith (h.live True.intro) live) fun _ => .ret _
  | inspect id length =>
      refine withObject fun live => ?_
      exact answer (load_keeps live.address length) _
  | assemble id program =>
      refine withObject fun live => ?_
      exact onCode (hC.assemble live.address) fun _ => .ret _
  | routine id source => exact routine_keeps source
  | routineRelease id => exact giveBack _ fun r => hC.releaseRoutine h.free r
  | trampoline id b arity target => exact keep (hC.bridge arity target b)
  -- patches
  | patch id design site unprotected => exact hC.patch design site unprotected
  | install id =>
      have hinstall := hC.install (h.live True.intro)
      exact onPatch (hinstall.bind fun _ => .ret _)
  | uninstall id =>
      have huninstall := hC.uninstall (h.live True.intro)
      exact onPatch (huninstall.bind fun _ => .ret _)
  | target id => exact hC.targetOf
  -- write barriers
  | defineBarrier _ | setBarrier _ | clearBarrier => exact absurd True.intro hbarrier
  -- any object
  | drop id =>
      -- The object leaves its name first, and its end is then a matter of the host alone.
      refine withObject fun o => .bind (.modify fun _ => rfl) fun _ => ?_
      have hdrop := hC.dropObject h.free fun p (_ : o = .patch p) _ => h.live True.intro
      exact answer hdrop _
  | info id =>
      refine withObject fun o => ?_
      exact answer (describe_keeps o) _

end Tending

namespace Upkeep

variable {C : Host × List Event → Prop} (hC : Upkeep 0 C) {command : Command}

include hC

/-- If no change of memory breaks a condition, only writes to live code are left. -/
theorem sustains (hlive : command.WritesLive → ∀ live bytes unprotected,
    Keeps C id (LiveCode.overwrite live bytes unprotected)) : command.Sustains C where
  map _ := (hC.allocatePages _ _).keeps
  guard _ := hC.withWritable _ _ (.gets _)
  free _ := hC.tending.freePages (Nat.zero_le _)
  poke _ := hC.tending.store (Nat.zero_le _) _
  write _ _ := hC.tending.write fun _ _ => Nat.zero_le _
  live := hlive

/-- Every command but those about barriers keeps a condition that only writes to live
    code can break, if such writes keep it or the command makes none. -/
theorem perform (hbarrier : ¬ command.SetsBarrier)
    (hlive : command.WritesLive → ∀ live bytes unprotected,
      Keeps C id (LiveCode.overwrite live bytes unprotected)) :
    Keeps C Session.host (Session.perform command) := by
  have hsustains : command.Sustains C := hC.sustains hlive
  exact hC.tending.perform hbarrier hsustains

end Upkeep

end Hotpatch
