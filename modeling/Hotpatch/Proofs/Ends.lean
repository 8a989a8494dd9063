import Hotpatch.Proofs.Traced
import Hotpatch.Session

/-!
# How Commands End

A command is an action on a part of the session, with the objects of the session put
back in order around it. Rules for the shapes of commands say how the whole ends from
how the part ends, be it with an answer or with a fault, next to the events on the
way.

A command that runs code of the user's never fails itself. The fault of the code is
then a part of the answer, and is looked for there.

## Main definitions

* `Reply.fault?`: The fault that a command reports.
* `Session.Concludes`: How an action on a session ends.

## Theorems

* `onHost_ends`, `withObject_ends`, `onPatch_ends`, `onCode_ends`: The shapes of
  commands.
* `keep_ends`: A new object.
* `step_concludes`: A command as a step.
-/

namespace Hotpatch

open Hotpatch.Action

/-- The fault of code of the user's, if the answer reports one. -/
def Answer.fault? : Answer → Option Fault
  | .ran _ (.error fault) => some fault
  | _ => none

/-- The fault that a command reports. -/
def Reply.fault? (r : Reply) : Option Fault :=
  match r.result with
  | .error fault => some fault
  | .ok answer => answer.fault?

namespace Session

variable {s : Session} {α : Type} {id : String}

/-- How an action on a session ends, with an answer or with a fault, and after which
    events. -/
def Concludes (s : Session) (act : Action Session α) (Q : α → Session × List Event → Prop)
    (E : Fault → Session × List Event → Prop) : Prop :=
  Triple (fun st => st = (s, [])) act.traced Q E

variable {Q : Answer → Session × List Event → Prop} {E : Fault → Session × List Event → Prop}

/-- How a command ends is how its step ends. -/
theorem step_concludes {command : Command} (h : s.Concludes (perform command) Q E) :
    match (s.step command).2.result with
    | .ok answer => Q answer ((s.step command).1, (s.step command).2.trace)
    | .error fault => E fault ((s.step command).1, (s.step command).2.trace) := by
  unfold Concludes at h
  have hend := trace_of_traced h
  have hresult : (s.step command).2.result = (perform command s).result := rfl
  rw [hresult]
  split at hend
  · next answer hanswer =>
      rw [hanswer]
      exact hend
  · next fault hfault =>
      rw [hfault]
      exact hend

/-- An action on the host leaves the objects alone. -/
theorem onHost_ends {act : Action Host α} {Q : α → Session × List Event → Prop}
    (h : Triple (fun st => st = (s.host, [])) act.traced
      (fun a st => Q a ({ s with host := st.1 }, st.2))
      fun fault st => E fault ({ s with host := st.1 }, st.2)) :
    s.Concludes (onHost act) Q E := by
  rw [Concludes, onHost, traced_within]
  refine .within fun st hst => ?_
  rw [hst]
  exact h

/-- A command that needs a free name. -/
theorem withFree_ends {act : Action Session Answer} (hrefused : Q .refused (s, []))
    (h : s.Concludes act Q E) : s.Concludes (withFree id act) Q E := by
  rw [Concludes, withFree, traced_bind, traced_gets]
  refine .bind_gets fun found => ?_
  cases found with
  | none => exact Triple.before h fun _ hst => hst.1
  | some _ =>
      dsimp only
      rw [traced_pure]
      exact .ret fun st hst => hst.1 ▸ hrefused

/-- A new object enters under its name if it could be made. -/
theorem keep_ends {make : Action Host α} {object : α → Object} {address : α → Address}
    (hrefused : Q .refused (s, []))
    (h : Triple (fun st => st = (s.host, [])) make.traced
      (fun a st => Q (.address (address a))
        (Session.insert { s with host := st.1 } id (object a), st.2))
      fun fault st => E fault ({ s with host := st.1 }, st.2)) :
    s.Concludes (keep id make object address) Q E := by
  refine withFree_ends hrefused ?_
  -- What is asked of the end is asked of the host with the object already entered.
  have hmake := onHost_ends (Q := fun a st =>
    Q (.address (address a)) (st.1.insert id (object a), st.2)) h
  rw [Concludes, traced_bind]
  refine .bind hmake fun a => ?_
  rw [traced_bind, traced_modify, traced_pure]
  exact .bind_modify (.ret fun _ hst => hst) fun _ hst => hst

/-- A command on the object of a name, as far as the command sees it. -/
theorem withObject_ends {view : Object → Option α} {next : α → Action Session Answer}
    (hrefused : (s.get? id).bind view = none → Q .refused (s, []))
    (h : ∀ a, (s.get? id).bind view = some a → s.Concludes (next a) Q E) :
    s.Concludes (withObject id view next) Q E := by
  rw [Concludes, withObject, traced_bind, traced_gets]
  -- The session is the one that is known, so what is found in it is known too.
  refine .bind_known (a := (s.get? id).bind view) (fun st hst => hst ▸ rfl) ?_
  cases hfound : (s.get? id).bind view with
  | none =>
      dsimp only
      rw [traced_pure]
      exact .ret fun st hst => hst ▸ hrefused hfound
  | some a => exact h a hfound

/-- A command on the patch of a name, which takes the place of the patch. -/
theorem onPatch_ends {act : Action (Patch × Host) Answer}
    (hrefused : (s.get? id).bind Object.patch? = none → Q .refused (s, []))
    (h : ∀ p, (s.get? id).bind Object.patch? = some p →
      Triple (fun st => st = ((p, s.host), [])) act.traced
        (fun a st => Q a ({ s.insert id (.patch st.1.1) with host := st.1.2 }, st.2))
        fun fault st => E fault ({ s.insert id (.patch st.1.1) with host := st.1.2 }, st.2)) :
    s.Concludes (onPatch id act) Q E := by
  refine withObject_ends hrefused fun p hp => ?_
  rw [Concludes, traced_within]
  refine .within fun st hst => ?_
  rw [hst]
  exact h p hp

/-- A command that runs code of the user's on the host. Its fault is answered. -/
theorem onCode_ends {program : Program} {act : Action (Code × Host) α}
    {answer : α → Action Session Answer}
    (h : Triple (fun st => st = (({ program }, s.host), [])) act.traced
      (fun a st => Triple (fun st' => st' = ({ s with host := st.1.2 }, st.2)) (answer a).traced
        (fun b st' => ∀ runs, Q (.ran runs (.ok b)) st') E)
      fun fault st => ∀ runs, Q (.ran runs (.error fault)) ({ s with host := st.1.2 }, st.2)) :
    s.Concludes (onCode program act answer) Q E := by
  rw [Concludes, onCode, traced_bind]
  refine .bind (onHost_ends (Q := fun out => Ends
    (fun a st => Triple (fun st' => st' = st) (answer a).traced
      (fun b st' => ∀ runs, Q (.ran runs (.ok b)) st') E)
    (fun fault st => ∀ runs, Q (.ran runs (.error fault)) st) out.1) ?_) fun out => ?_
  · -- The code is run beside the host, and how that ended is an answer, with the runs.
    rw [traced_within]
    refine .within fun st hst => ?_
    rw [hst, traced_bind, traced_attempt]
    refine .bind h.settle fun result => ?_
    rw [traced_bind, traced_gets]
    refine .bind_gets fun _ => ?_
    rw [traced_pure]
    refine .ret fun st' hst' => ?_
    cases result with
    | ok a => exact hst'.1
    | error fault => exact hst'.1
  · rcases out with ⟨fault | a, runs⟩
    · -- A fault is answered as it is.
      dsimp only
      rw [traced_pure]
      exact .ret fun _ hst => hst runs
    · -- What was made is handed on, and the answer to that is the answer of the command.
      dsimp only
      rw [traced_bind]
      refine .pointwise fun st hst => ?_
      have hanswer : Triple (fun st' => st' = st) (answer a).traced
          (fun b st' => ∀ runs, Q (.ran runs (.ok b)) st') E := hst
      refine .bind (hanswer.before fun _ hst' => hst') fun b => ?_
      rw [traced_pure]
      exact .ret fun _ hst' => hst' runs

end Session

end Hotpatch
