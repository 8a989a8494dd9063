import Hotpatch.LiveCode
import Hotpatch.Proofs.Memory.Contents
import Hotpatch.Proofs.Traced

/-!
# Writes To Live Code

A write to live code, with all that it leaves behind. Apart from which arranged
failures are left, nothing about it is open: if it lands, memory is what it was with
the bytes written and nothing else, and if it fails memory is what it was. In either
case the barrier that was in force is called before and after, and which barrier is
in force then is up to its hooks.

Protections that were lifted for the write are put back within the brackets, so
both calls of the barrier see the same protections.

## Main definitions

* `BarrierSlot`: The barriers there are, and the one in force.
* `BarrierSlot.afterWrite`: The barrier in force after a write.
* `BarrierSlot.bracket`: The calls of a barrier for a write.
* `Host.At`: A host of which all is known that matters to a write.

## Theorems

* `callBarrier_at`, `bracketed_at`: A call, and what is in the brackets of two.
* `withWritable_lands`: Protections that are lifted for a while.
* `overwrite_at`, `overwrite_from`: A write to live code.
-/

namespace Hotpatch

open Hotpatch.Action

/-- The barriers there are, and the one in force. -/
structure BarrierSlot where
  barriers : List (String × Barrier)
  inForce : Option Barrier

namespace BarrierSlot

/-- What is in force after a hook was run. -/
def after (slot : BarrierSlot) : Hook → BarrierSlot
  | .nothing => slot
  | .clear => { slot with inForce := none }
  | .set name =>
    match slot.barriers.lookup name with
    | none => slot
    | some barrier => { slot with inForce := some barrier }

/-- What is in force after a write in the brackets of the barrier in force. -/
def afterWrite (slot : BarrierSlot) : BarrierSlot :=
  match slot.inForce with
  | none => slot
  | some barrier => (slot.after barrier.onEnter).after barrier.onLeave

/-- The calls of the barrier in force for a write that begins with one memory and ends
    with another. -/
def bracket (slot : BarrierSlot) (address : Address) (length : Nat) (before after : Memory) :
    List BarrierCall :=
  match slot.inForce with
  | none => []
  | some barrier => [⟨.enter, barrier, address, length, before⟩,
      ⟨.leave, barrier, address, length, after⟩]

end BarrierSlot

/-- The call of a barrier, if the event is one. -/
def Event.call? : Event → Option BarrierCall
  | .barrier call => some call
  | _ => none

/-- The calls of barriers among events. -/
def calls (events : List Event) : List BarrierCall :=
  events.filterMap Event.call?

@[simp]
theorem calls_append (events events' : List Event) :
    calls (events ++ events') = calls events ++ calls events' :=
  List.filterMap_append

/-- A note is no call. -/
@[simp]
theorem calls_note (events : List Event) (n : Note) :
    calls (events ++ [.note n]) = calls events := by
  rw [calls_append]
  exact List.append_nil _

namespace Host

def slot (host : Host) : BarrierSlot :=
  ⟨host.barriers, host.barrier⟩

/-- A host with a known memory and slot, after known calls of barriers. -/
structure At (memory : Memory) (slot : BarrierSlot) (called : List BarrierCall)
    (st : Host × List Event) : Prop where
  memory : st.1.memory = memory
  slot : st.1.slot = slot
  called : calls st.2 = called

/-- The host at a state is at what it shows there. -/
theorem at_self (st : Host × List Event) : At st.1.memory st.1.slot (calls st.2) st :=
  ⟨rfl, rfl, rfl⟩

variable {m m' : Memory} {slot : BarrierSlot} {called : List BarrierCall} {α : Type}

/-- An action that takes a memory to another if it succeeds, and does nothing if it
    fails, with a fault that is not one of encoding. Which barrier is in force is no
    matter to it, and it calls none. -/
def Lands (m m' : Memory) (act : Action Host α) : Prop :=
  ∀ slot called, Triple (At m slot called) act.traced (fun _ => At m' slot called)
    fun fault st => fault.isEncoding = false ∧ At m slot called st

theorem store_lands (m : Memory) (address : Address) (bytes : List UInt8) :
    Lands m (m.write address.toNat bytes) (store address bytes) := by
  intro slot called
  unfold store
  split
  · rw [traced_fail]
    exact .fail fun _ h => ⟨rfl, h⟩
  · rw [modifyMemory, traced_modify]
    exact .modify fun st h => ⟨congrArg (·.write address.toNat bytes) h.memory, h.slot, h.called⟩

theorem changeProtection_lands (m : Memory) (address : Address) (length : Nat)
    (protection : Nat → Protection) :
    Lands m (m.protect address.toNat length protection)
      (changeProtection address length protection) := by
  intro slot called
  unfold changeProtection
  dsimp only
  split
  · rw [traced_bind, traced_fail]
    exact .fail_bind fun _ h => ⟨rfl, h⟩
  · rw [traced_bind, traced_gets]
    refine .bind_gets fun host => ?_
    rw [traced_bind, traced_modify]
    -- Using up what was arranged for the change touches neither memory nor barrier.
    refine .bind_modify (M := At m slot called) ?_ fun st h => ⟨h.1.memory, h.1.slot, h.1.called⟩
    split
    · rw [traced_fail]
      exact .fail fun _ h => ⟨rfl, h⟩
    · split
      · rw [modifyMemory, traced_modify]
        exact .modify fun st h => ⟨congrArg (·.protect address.toNat length protection) h.memory,
          h.slot, h.called⟩
      · rw [traced_fail]
        exact .fail fun _ h => ⟨rfl, h⟩

/-- A range gets back the protections that it had. -/
theorem protect_back (m : Memory) (address length : Nat) (protection : Nat → Protection) :
    (m.protect address length protection).protect address length m.protection = m := by
  have hsame : (fun page => if Touches address length page then m.protection page else
      if Touches address length page then protection page else m.protection page) =
        m.protection := by
    funext page
    split <;> rfl
  simp only [Memory.protect, hsame]

/-- A look at the host changes nothing. -/
theorem gets_lands (m : Memory) (f : Host → α) : Lands m m (Action.gets f) := by
  intro slot called
  rw [traced_gets]
  exact .gets fun _ h => h

/-- What is done while protections are lifted is done to a memory with these protections,
    and they are put back in the end. -/
theorem withWritable_lands {address : Address} {length : Nat} {act : Action Host α}
    (h : Lands (m.protect address.toNat length fun _ => .readWriteExecute) m' act) :
    Lands m (m'.protect address.toNat length m.protection)
      (withWritable address length act) := by
  intro slot called
  unfold withWritable
  rw [traced_bind, traced_gets]
  refine .bind_known (a := m.protection) (fun _ h => congrArg _ h.memory) ?_
  rw [traced_bind]
  refine .bind (changeProtection_lands m address length _ slot called) fun _ => ?_
  rw [traced_bind, traced_attempt]
  refine .bind (h slot called).settle fun result => ?_
  -- Whichever way the action ended, the protections from before are put back.
  rw [traced_bind, modifyMemory, traced_modify, traced_ofExcept]
  refine .bind_modify .reraise fun st hst => ?_
  cases result with
  | ok _ =>
      exact ⟨congrArg (·.protect address.toNat length m.protection) hst.memory,
        hst.slot, hst.called⟩
  | error fault =>
      refine ⟨hst.1, ?_, hst.2.slot, hst.2.called⟩
      exact (congrArg (·.protect address.toNat length m.protection) hst.2.memory).trans
        (protect_back m address.toNat length _)

/-- A write while protections are lifted is a write. -/
theorem withWritable_store_lands {address : Address} {length : Nat} {bytes : List UInt8} :
    Lands m (m.write address.toNat bytes) (withWritable address length (store address bytes)) := by
  -- Bytes and protections are apart, so the order of the changes does not matter.
  have hback : ((m.protect address.toNat length fun _ => .readWriteExecute).write address.toNat
      bytes).protect address.toNat length m.protection = m.write address.toNat bytes :=
    congrArg (·.write address.toNat bytes) (protect_back m address.toNat length _)
  exact hback ▸ withWritable_lands (store_lands _ address bytes)

/-- A look while protections are lifted changes nothing. -/
theorem withWritable_gets_lands {address : Address} {length : Nat} (m : Memory) (f : Host → α) :
    Lands m m (withWritable address length (Action.gets f)) := by
  have hlifted : Lands m _ (withWritable address length (Action.gets f)) :=
    withWritable_lands (gets_lands _ f)
  rwa [protect_back] at hlifted

/-- A condition on memories is kept by an action that lands where the condition holds. -/
theorem keeps_of_lands {P : Memory → Prop} {f : Memory → Memory} {act : Action Host α}
    (h : ∀ m, Lands m (f m) act) (hf : ∀ m, P m → P (f m)) :
    Keeps (fun st => P st.1.memory) id act := by
  refine .pointwise fun st hst => ?_
  refine (h st.1.memory st.1.slot (calls st.2)).weaken (fun st' hst' => hst' ▸ at_self st)
    (fun _ st' hst' => ?_) fun _ st' hst' => ?_
  · exact hst'.memory ▸ hf _ hst
  · exact hst'.2.memory ▸ hst

theorem installBarrier_at (barrier : Option Barrier) :
    Triple (At m slot called) (installBarrier barrier).traced
      (fun _ => At m { slot with inForce := barrier } called) fun _ _ => False := by
  unfold installBarrier
  rw [traced_bind, traced_gets]
  refine .bind_gets fun previous => ?_
  rw [traced_bind, traced_modify, traced_pure]
  exact .bind_modify (.ret fun _ h => h) fun st h =>
    ⟨h.1.memory, congrArg (fun slot => { slot with inForce := barrier }) h.1.slot, h.1.called⟩

/-- That a barrier was replaced is no call of one. -/
theorem replaced_at (previous : Option String) :
    Triple (At m slot called) (Action.emit (.replaced previous) : Action Host Unit).traced
      (fun _ => At m slot called) fun _ _ => False := by
  rw [traced_emit]
  refine .modify fun st h => ⟨h.memory, h.slot, ?_⟩
  rw [calls_append, h.called]
  exact List.append_nil called

theorem runHook_at (hook : Hook) :
    Triple (At m slot called) (runHook hook).traced (fun _ => At m (slot.after hook) called)
      fun _ _ => False := by
  cases hook with
  | nothing =>
      rw [runHook, traced_pure]
      exact .ret fun _ h => h
  | clear =>
      rw [runHook, traced_bind]
      exact .bind (installBarrier_at none) replaced_at
  | set name =>
      -- The barriers that are defined are part of the slot, so it is known what is found.
      rw [runHook, traced_bind, traced_gets]
      refine .bind_known (a := slot.barriers.lookup name)
        (fun _ h => congrArg (fun slot => slot.barriers.lookup name) h.slot) ?_
      simp only [BarrierSlot.after]
      cases slot.barriers.lookup name with
      | none =>
          dsimp only
          rw [traced_pure]
          exact .ret fun _ h => h
      | some barrier =>
          dsimp only
          rw [traced_bind]
          exact .bind (installBarrier_at (some barrier)) replaced_at

/-- A barrier that is called sees the memory as it is. -/
theorem callBarrier_at (barrier : Barrier) (side : Side) (address : Address) (length : Nat) :
    Triple (At m slot called) (callBarrier barrier side address length).traced
      (fun _ => At m (slot.after (barrier.hook side))
        (called ++ [⟨side, barrier, address, length, m⟩])) fun _ _ => False := by
  unfold callBarrier
  rw [traced_bind, traced_gets]
  refine .bind_known (a := m) (fun _ h => h.memory) ?_
  rw [traced_bind, traced_emit]
  -- The call is noted before its hook is run, with the memory that it sees.
  refine .bind_modify (runHook_at _) fun st h => ⟨h.memory, h.slot, ?_⟩
  rw [calls_append, h.called]
  rfl

/-- What lands in the brackets of the barrier in force. -/
theorem bracketed_at {act : Action Host α} (h : Lands m m' act) (address : Address)
    (length : Nat) :
    Triple (At m slot called) (bracketed address length act).traced
      (fun _ => At m' slot.afterWrite (called ++ slot.bracket address length m m'))
      fun fault st => fault.isEncoding = false ∧
        At m slot.afterWrite (called ++ slot.bracket address length m m) st := by
  unfold bracketed
  rw [traced_bind, traced_gets]
  refine .bind_known (a := slot.inForce) (fun _ h => congrArg BarrierSlot.inForce h.slot) ?_
  unfold BarrierSlot.afterWrite BarrierSlot.bracket
  cases slot.inForce with
  | none =>
      simp only [List.append_nil]
      exact h slot called
  | some barrier =>
      -- The two calls are added one after the other, with the action between them.
      have hcons : ∀ m', called ++ [(⟨.enter, barrier, address, length, m⟩ : BarrierCall),
          ⟨.leave, barrier, address, length, m'⟩] =
            called ++ [⟨.enter, barrier, address, length, m⟩] ++
              [⟨.leave, barrier, address, length, m'⟩] := fun m' => by
        rw [List.append_assoc]
        rfl
      simp only [hcons]
      rw [traced_bind]
      refine .bind ((callBarrier_at barrier .enter address length).weaken (fun _ hs => hs)
        (fun _ _ hs => hs) fun _ _ hs => hs.elim) fun _ => ?_
      rw [traced_bind, traced_attempt]
      refine .bind (h _ _).settle fun result => ?_
      rw [traced_bind, traced_ofExcept]
      -- The second call sees what the action left, whichever way it ended.
      cases result with
      | ok a =>
          refine .bind ((callBarrier_at (m := m') barrier .leave address length).weaken
            (fun _ hs => hs) (fun _ _ hs => hs) fun _ _ hs => hs.elim) fun _ => ?_
          exact .ofExcept (fun _ _ _ hs => hs) fun _ _ heq => absurd heq
            (by simp only [reduceCtorEq, not_false_eq_true])
      | error fault =>
          -- The fault is kept over the second call, and so is that it is not one of encoding.
          refine .assuming (fun _ hs => hs.1) fun hlate => ?_
          refine .bind ((callBarrier_at (m := m) barrier .leave address length).weaken
            (fun _ hs => hs.2) (fun _ _ hs => hs) fun _ _ hs => hs.elim) fun _ => ?_
          refine .ofExcept (fun _ _ heq => absurd heq
            (by simp only [reduceCtorEq, not_false_eq_true])) fun fault' _ heq hs => ⟨?_, hs⟩
          rw [← Except.error.inj heq]
          exact hlate

end Host

/-- A write to live code lands as a whole, or does nothing to memory. The barrier that
    was in force is called on both sides of it. -/
theorem LiveCode.overwrite_at {m : Memory} {slot : BarrierSlot} {called : List BarrierCall}
    (live : LiveCode) {bytes : List UInt8} (hbytes : bytes ≠ []) (unprotected : Bool) :
    Triple (Host.At m slot called) (live.overwrite bytes unprotected).traced
      (fun _ => Host.At (m.write live.address.toNat bytes) slot.afterWrite
        (called ++ slot.bracket live.address bytes.length m (m.write live.address.toNat bytes)))
      fun fault st => fault.isEncoding = false ∧ Host.At m slot.afterWrite
        (called ++ slot.bracket live.address bytes.length m m) st := by
  have hwrite : Host.Lands m (m.write live.address.toNat bytes)
      (if unprotected then Host.withWritable live.address bytes.length
          (Host.store live.address bytes)
        else Host.store live.address bytes) := by
    split
    · exact Host.withWritable_store_lands
    · exact Host.store_lands m live.address bytes
  -- There is something to write, so the barrier is asked and the note is taken.
  unfold overwrite
  rw [if_neg fun hempty => hbytes (List.isEmpty_iff.mp hempty)]
  dsimp only
  rw [traced_bind, Action.log, traced_emit]
  refine .bind_modify (M := Host.At m slot called) ?_ fun st h => ⟨h.memory, h.slot, ?_⟩
  · rw [traced_bind]
    refine .bind (Host.bracketed_at hwrite live.address bytes.length) fun _ => ?_
    rw [traced_pure]
    exact .ret fun _ h => h
  · rw [calls_note, h.called]

/-- What a write to live code makes of a state. -/
theorem LiveCode.overwrite_from (st : Host × List Event) (live : LiveCode) {bytes : List UInt8}
    (hbytes : bytes ≠ []) (unprotected : Bool) :
    Triple (fun st' => st' = st) (live.overwrite bytes unprotected).traced
      (fun _ => Host.At (st.1.memory.write live.address.toNat bytes) st.1.slot.afterWrite
        (calls st.2 ++ st.1.slot.bracket live.address bytes.length st.1.memory
          (st.1.memory.write live.address.toNat bytes)))
      fun fault st' => fault.isEncoding = false ∧ Host.At st.1.memory st.1.slot.afterWrite
        (calls st.2 ++ st.1.slot.bracket live.address bytes.length st.1.memory st.1.memory)
          st' := by
  refine (live.overwrite_at hbytes unprotected).before fun st' hst => ?_
  rw [hst]
  exact Host.at_self st

/-- A write to live code keeps what a write to memory keeps. -/
theorem LiveCode.overwrite_keeps {P : Memory → Prop}
    (hP : ∀ m address bytes, P m → P (m.write address bytes)) (live : LiveCode)
    (bytes : List UInt8) (unprotected : Bool) :
    Keeps (fun st => P st.1.memory) id (live.overwrite bytes unprotected) := by
  by_cases hbytes : bytes = []
  · rw [hbytes]
    exact .ret 0
  · refine .pointwise fun st hst => ?_
    refine (live.overwrite_from st hbytes unprotected).weaken (fun _ hs => hs)
      (fun _ s hs => ?_) fun _ s hs => ?_
    · exact hs.memory ▸ hP _ _ _ hst
    · exact hs.2.memory ▸ hst

end Hotpatch
