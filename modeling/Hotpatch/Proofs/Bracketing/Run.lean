import Hotpatch.Proofs.Atomicity.Commands

/-!
# Brackets Through Runs

The calls of barriers during a command come in pairs. Each pair belongs to one write
to live code, and is delivered to the barrier that was in force when that write began.
Hooks may put another barrier in force between two writes of one command, or none, so
the pairs of a command can belong to different barriers. But no pair is torn apart,
whether its write succeeds or fails, and both calls of it see the same protections.

What a command changes in memory that was mapped is within the ranges of its pairs, as
long as there was a barrier when it began. A command that finds nothing to write, and
one that fails while it still encodes, calls nobody.

## Main definitions

* `Bracketed`: Calls in pairs, and the barrier in force after them.
* `Session.Idle`: A command that finds nothing to write.
* `Session.Brackets`: What is known of the calls during a command.

## Theorems

* `Bracketed.write`: One more write.
* `overwrite_bracketed`: A write to live code.
* `perform_announced`: What a command may change.
* `step_quiet`: The commands that find nothing to write.
* `brackets_of_run`: Any command after any others.
-/

namespace Hotpatch

open Hotpatch.Action

/-- Calls that come in pairs, one pair for each write, beginning with a barrier in
    force. The calls of a pair are for one range and are delivered to the barrier that is
    in force when the write begins. They see the same protections. -/
inductive Bracketed : BarrierSlot → List BarrierCall → BarrierSlot → Prop
  | nil (slot : BarrierSlot) : Bracketed slot [] slot
  | pair {slot after : BarrierSlot} {barrier : Barrier} (address : Address) (length : Nat)
      {before written : Memory} {rest : List BarrierCall}
      (inForce : slot.inForce = some barrier)
      (protections : ∀ a, written.protectionAt a = before.protectionAt a)
      (others : Bracketed ((slot.after barrier.onEnter).after barrier.onLeave) rest after) :
      Bracketed slot (⟨.enter, barrier, address, length, before⟩ ::
        ⟨.leave, barrier, address, length, written⟩ :: rest) after

variable {slot after : BarrierSlot} {called : List BarrierCall}

/-- One more write, at the end. -/
theorem Bracketed.write (h : Bracketed slot called after) (address : Address) (length : Nat)
    {before written : Memory}
    (protections : ∀ a, written.protectionAt a = before.protectionAt a) :
    Bracketed slot (called ++ after.bracket address length before written) after.afterWrite := by
  induction h with
  | nil slot =>
      -- A write calls the barrier in force on both sides, or nobody.
      cases hforce : slot.inForce with
      | none =>
          simp only [BarrierSlot.bracket, BarrierSlot.afterWrite, hforce, List.append_nil]
          exact .nil slot
      | some barrier =>
          simp only [BarrierSlot.bracket, BarrierSlot.afterWrite, hforce, List.nil_append]
          exact .pair address length hforce protections (.nil _)
  | pair address' length' inForce protections' _ ih =>
      exact .pair address' length' inForce protections' ih

theorem upkeep_bracketed (slot : BarrierSlot) :
    Upkeep 0 fun st => Bracketed slot (calls st.2) st.1.slot where
  later _ := Nat.zero_le _
  event := by
    intro host events event quiet h
    -- A quiet event is no call, so the calls stay the same.
    have hcalls : calls (events ++ [event]) = calls events := by
      rw [calls_append]
      cases event with
      | barrier call => exact quiet.elim
      | _ => exact List.append_nil _
    rw [hcalls]
    exact h
  host := by
    intro host host' events hslot _ h
    rw [hslot]
    exact h

theorem upkeep_quiet : Upkeep 0 fun st => ∀ event ∈ st.2, event.IsQuiet where
  later _ := Nat.zero_le _
  event quiet h := quiet.append h
  host _ _ _ _ _ h := h

/-- A write to live code adds a pair, or nothing if there is no barrier. -/
theorem overwrite_bracketed (slot : BarrierSlot) (live : LiveCode) (bytes : List UInt8)
    (unprotected : Bool) :
    Keeps (fun st => Bracketed slot (calls st.2) st.1.slot) id
      (live.overwrite bytes unprotected) := by
  by_cases hbytes : bytes = []
  · rw [hbytes]
    exact .ret 0
  · refine .pointwise fun st hst => ?_
    refine (live.overwrite_from st hbytes unprotected).weaken (fun _ h => h)
      (fun _ st' h => ?_) fun _ st' h => ?_
    · rw [h.called, h.slot]
      exact hst.write _ _ fun _ => rfl
    · rw [h.2.called, h.2.slot]
      exact hst.write _ _ fun _ => rfl

namespace Session

variable {s : Session}

/-- A command that finds nothing to write to live code. -/
def Idle (s : Session) : Command → Prop
  | .install id => ∀ p, s.patch? id = some p → p.isInstalled = false →
      ∀ bytes, p.replacement s.host = .ok bytes → bytes = []
  | .uninstall id => ∀ p, s.patch? id = some p → p.isInstalled = false
  | .drop id => ∀ p, s.patch? id = some p → p.isInstalled = false
  | .overwrite _ bytes => bytes = []
  | .overwriteWith id program => ∀ live, (s.get? id).bind Object.resident? = some live →
      ∀ bytes, (Code.assemble live.address { program }).result = .ok bytes → bytes = []
  | _ => True

/-- What is known of the calls of barriers during a command. -/
structure Brackets (s : Session) (command : Command) : Prop where
  /-- The calls come in pairs, and lead from the barrier in force before the command to
      that after it, unless the command itself sets the barrier. -/
  paired : ∃ after, Bracketed s.host.slot (calls (s.step command).2.trace) after ∧
    (¬ command.SetsBarrier → (s.step command).1.host.slot = after)
  /-- Bytes that were mapped change only in the ranges of the calls. -/
  announced : s.host.barrier.isSome → command.WritesLive →
    Announced s.host.memory (s.step command).1.host.memory (calls (s.step command).2.trace)
  /-- Nobody is called if nothing is written. -/
  idle : s.Idle command → ∀ event ∈ (s.step command).2.trace, event.IsQuiet
  /-- Nobody is called if encoding fails. -/
  early : ∀ fault, (s.step command).2.fault? = some fault → fault.isEncoding = true →
    ∀ event ∈ (s.step command).2.trace, event.IsQuiet

theorem step_bracketed (s : Session) (command : Command) :
    ∃ after, Bracketed s.host.slot (calls (s.step command).2.trace) after ∧
      (¬ command.SetsBarrier → (s.step command).1.host.slot = after) := by
  by_cases hbarrier : command.SetsBarrier
  · rw [(step_setsBarrier hbarrier s).2.2]
    exact ⟨_, .nil _, fun h => absurd hbarrier h⟩
  · have hkeeps := (upkeep_bracketed s.host.slot).perform hbarrier
      fun _ => overwrite_bracketed s.host.slot
    exact ⟨_, hkeeps.after (.nil s.host.slot), fun _ => rfl⟩

/-- The end of an object announces what it writes, if there is a barrier. Only an
    installed patch writes anything. -/
theorem dropObject_announced (o : Object) {host : Host} (hslot : host.slot.inForce ≠ none) :
    Triple (fun st => st = (host, [])) o.drop.traced
      (fun _ st => Announced host.memory st.1.memory (calls st.2))
      fun _ st => Announced host.memory st.1.memory (calls st.2) := by
  have hcalm : o.replaced? = none → Triple (fun st => st = (host, [])) o.drop.traced
      (fun _ st => Announced host.memory st.1.memory (calls st.2))
      fun _ st => Announced host.memory st.1.memory (calls st.2) := by
    intro ho
    refine (lift (Object.drop_calm ho host.memory.contents)).weaken (fun st hst => ?_)
      (fun _ st hst => announced_of_contents _ fun a _ => congrFun hst a) fun _ _ hst => hst.elim
    rw [hst]
  cases o with
  | patch p => exact p.drop_announced hslot
  | _ => exact hcalm rfl

section Announcing

variable {floor : Nat} {kept : String → Option (Address × List UInt8) → Prop}
  {owned : List Extent} (hs : s.Accounted floor kept owned) (haligned : s.host.memory.Aligned)
  (hslot : s.host.slot.inForce ≠ none)

/-- How a command ends that announces what it changes. -/
def Announces (s : Session) (command : Command) : Prop :=
  s.Concludes (perform command)
    (fun _ st => Announced s.host.memory st.1.host.memory (calls st.2))
    fun _ st => Announced s.host.memory st.1.host.memory (calls st.2)

include hs

/-- Memory that is intact has nothing to be announced. -/
theorem intact_announced {m : Memory} (called : List BarrierCall)
    (hintact : s.host.memory.Intact m) : Announced s.host.memory m called := by
  refine announced_of_contents called fun a ha => ?_
  exact hintact.contents a (hs.owns.orderly.lt_next ha)

omit hs in
/-- A name that is refused changes nothing. -/
theorem refused_announced (s : Session) :
    Announced s.host.memory s.host.memory (calls []) :=
  announced_of_contents _ fun _ _ => rfl

include hslot

/-- A write to live code, after what leaves older memory intact. -/
theorem overwrite_announced (live : LiveCode) (bytes : List UInt8) :
    Triple (fun st => Prepared s.host.memory s.host.slot st)
      (live.overwrite bytes false).traced
      (fun _ st => Announced s.host.memory st.1.memory (calls st.2))
      fun _ st => Announced s.host.memory st.1.memory (calls st.2) := by
  by_cases hbytes : bytes = []
  · rw [hbytes]
    intro st hst
    exact intact_announced hs _ hst.intact
  · refine .pointwise fun st hst => ?_
    refine (live.overwrite_from st hbytes false).weaken (fun _ h => h) (fun _ st' h => ?_)
      fun _ st' h => ?_
    · rw [h.memory, h.called, hst.slot]
      refine announced_write hslot (fun a ha => ?_) _ _ _ _
      exact hst.intact.contents a (hs.owns.orderly.lt_next ha)
    · -- A write that failed leaves memory where it was.
      rw [h.2.memory]
      exact intact_announced hs _ hst.intact

theorem uninstall_announced (id : String) : s.Announces (.uninstall id) := by
  refine onPatch_ends (fun _ => refused_announced s) fun p _ => ?_
  rw [traced_bind, traced_pure]
  refine .bind ((p.uninstall_ends s.host).weaken (fun _ h => h) (fun _ _ h => h hslot)
    fun _ st h => ?_) fun _ => .ret fun _ h => h
  refine intact_announced hs _ ?_
  rw [h.2.2]
  exact .refl _

omit hs in
theorem drop_announced (id : String) : s.Announces (.drop id) := by
  refine withObject_ends (fun _ => refused_announced s) fun o _ => ?_
  -- The object leaves its name before its end, which is no matter of the host.
  rw [Concludes, traced_bind, traced_modify]
  refine .bind_modify (M := fun st => st = (s.erase id, [])) ?_ fun st h => h ▸ rfl
  rw [traced_bind, traced_pure]
  refine .bind (onHost_ends (s := s.erase id) ?_) fun _ => .ret fun _ h => h
  exact dropObject_announced o hslot

theorem overwriteLive_announced (id : String) (bytes : List UInt8) :
    s.Announces (.overwrite id bytes) := by
  refine withObject_ends (fun _ => refused_announced s) fun live _ => ?_
  have hwrite := (overwrite_announced hs hslot live bytes).before
    fun st (hst : st = (s.host, [])) => hst ▸ .start s.host
  rw [Concludes, traced_bind]
  refine .bind (onHost_ends (Q := fun _ st =>
    Announced s.host.memory st.1.host.memory (calls st.2)) hwrite) fun count => ?_
  rw [traced_pure]
  exact .ret fun _ h => h

include haligned

theorem install_announced (id : String) : s.Announces (.install id) := by
  refine onPatch_ends (fun _ => refused_announced s) fun p _ => ?_
  rw [traced_bind, traced_pure]
  have hinstall := p.install_ends hs.owns.orderly haligned
  exact .bind (hinstall.weaken (fun _ h => h) (fun _ _ h => h hslot)
    fun _ _ h => intact_announced hs _ h.1.intact) fun _ => .ret fun _ h => h

theorem overwriteWith_announced (id : String) (program : Program) :
    s.Announces (.overwriteWith id program) := by
  refine withObject_ends (fun _ => refused_announced s) fun live _ => onCode_ends ?_
  have hprepared := upkeep_prepared hs.owns.orderly haligned s.host.slot
  have hassemble := hprepared.tending.assemble live.address
  unfold LiveCode.overwriteWith
  rw [traced_bind]
  refine .bind (hassemble.triple.weaken (fun st hst => ?_) (fun _ _ h => h)
    fun _ _ h _ => intact_announced hs _ h.intact) fun bytes => ?_
  · rw [hst]
    exact .start s.host
  · -- The code has only been run so far, and what it gave is written by the host.
    rw [Action.onSecond, traced_within]
    refine .within fun st hst => ?_
    refine (overwrite_announced hs hslot live bytes).weaken (fun _ h => h ▸ hst)
      (fun _ st' h => ?_) fun _ _ h _ => h
    rw [traced_pure]
    exact .ret fun _ hst' _ => hst' ▸ h

/-- What a command changes in memory that was mapped is announced, if there is a
    barrier. -/
theorem perform_announced {command : Command} (hlive : command.WritesLive) :
    s.Announces command := by
  cases command with
  | install id => exact install_announced hs haligned hslot id
  | uninstall id => exact uninstall_announced hs hslot id
  | drop id => exact drop_announced hslot id
  | overwrite id bytes => exact overwriteLive_announced hs hslot id bytes
  | overwriteWith id program => exact overwriteWith_announced hs haligned hslot id program
  | _ => exact hlive.elim

end Announcing

section Quiet

/-- An action that starts without events ends with quiet ones. -/
theorem quiet_of_keeps {σ α : Type} {get : σ → Host} {act : Action σ α}
    (h : Keeps (fun st => ∀ event ∈ st.2, event.IsQuiet) get act) (start : σ) :
    Triple (fun st => st = (start, [])) act.traced (fun _ st => ∀ event ∈ st.2, event.IsQuiet)
      fun _ st => ∀ event ∈ st.2, event.IsQuiet := by
  refine h.triple.before fun st hst => ?_
  rw [hst]
  exact fun _ hmem => absurd hmem List.not_mem_nil

/-- A patch that is installed, or finds nothing to write, calls nobody. -/
theorem install_quiet {p : Patch} {host : Host} (hidle : p.isInstalled = false →
      ∀ bytes, p.replacement host = .ok bytes → bytes = []) :
    Triple (fun st => st = ((p, host), [])) Patch.install.traced
      (fun _ st => ∀ event ∈ st.2, event.IsQuiet) fun _ st => ∀ event ∈ st.2, event.IsQuiet := by
  unfold Patch.install
  rw [traced_bind, traced_gets]
  refine .bind_known (a := p) (fun _ h => h ▸ rfl) ?_
  split
  · rw [traced_pure]
    refine .ret fun st h => ?_
    rw [h]
    exact fun _ hmem => absurd hmem List.not_mem_nil
  · -- What is to be written is found first, and that calls nobody.
    next hnew =>
      have hpayload : Keeps (fun st => ∀ event ∈ st.2, event.IsQuiet) Prod.snd
          (Patch.onSource (Source.payload p.site)) :=
        Upkeep.onSource_keeps (upkeep_quiet.tending.payload p.site)
      rw [traced_bind]
      refine .bind ((quiet_of_keeps hpayload (p, host)).recorded.weaken (fun _ h => h)
        (fun _ _ h => h) fun _ _ h => h.2) fun bytes => ?_
      refine .assuming (fun _ h => h.1) fun hbytes => ?_
      have hlog : Keeps (fun st => ∀ event ∈ st.2, event.IsQuiet) Prod.snd
          (Action.log (.nothingToWrite p.site) : Action (Patch × Host) Unit) := upkeep_quiet.log _
      split
      · exact hlog.triple.before fun _ h => h.2
      · next hbytes' =>
          -- What was found to write is the replacement of the patch, so it is empty.
          have hempty := hidle (Bool.eq_false_iff.mpr hnew) bytes hbytes
          exact absurd (List.isEmpty_iff.mpr hempty) hbytes'

/-- A patch that is not installed has nothing to put back. -/
theorem uninstall_quiet {p : Patch} {host : Host} (hnew : p.isInstalled = false) :
    Triple (fun st => st = ((p, host), [])) Patch.uninstall.traced
      (fun _ st => ∀ event ∈ st.2, event.IsQuiet) fun _ st => ∀ event ∈ st.2, event.IsQuiet := by
  unfold Patch.uninstall
  rw [traced_bind, traced_gets]
  refine .bind_known (a := p) (fun _ h => h ▸ rfl) ?_
  split
  · rw [traced_fail]
    refine .fail fun st h => ?_
    rw [h]
    exact fun _ hmem => absurd hmem List.not_mem_nil
  · next saved hsaved =>
      rw [Patch.isInstalled, hsaved] at hnew
      exact absurd hnew (by simp only [Option.isSome_some, Bool.true_eq_false, not_false_eq_true])

/-- Code that comes out empty is not written over anything. -/
theorem overwriteWith_quiet {live : LiveCode} {program : Program} {host : Host}
    (hidle : ∀ bytes, (Code.assemble live.address { program }).result = .ok bytes → bytes = []) :
    Triple (fun st => st = (({ program }, host), [])) live.overwriteWith.traced
      (fun _ st => ∀ event ∈ st.2, event.IsQuiet) fun _ st => ∀ event ∈ st.2, event.IsQuiet := by
  have hassemble := quiet_of_keeps (upkeep_quiet.tending.assemble live.address) ({ program }, host)
  unfold LiveCode.overwriteWith
  rw [traced_bind]
  refine .bind (hassemble.recorded.weaken (fun _ h => h) (fun _ _ h => h) fun _ _ h => h.2)
    fun bytes => ?_
  refine .assuming (fun _ h => h.1) fun hbytes => ?_
  -- To write no bytes does not come to a barrier.
  rw [hidle bytes hbytes]
  intro st h event hmem
  have hsame : ((live.overwrite [] false).onSecond.traced st).state.2 = st.2 :=
    List.append_nil st.2
  have hold : event ∈ st.2 := hsame ▸ hmem
  exact h.2 event hold

/-- A patch that is not installed leaves without a write. -/
theorem drop_quiet {id : String} (hidle : s.Idle (.drop id)) :
    s.Concludes (perform (.drop id)) (fun _ st => ∀ event ∈ st.2, event.IsQuiet)
      fun _ st => ∀ event ∈ st.2, event.IsQuiet := by
  refine withObject_ends (fun _ _ hmem => absurd hmem List.not_mem_nil) fun o ho => ?_
  rw [Option.bind_fun_some] at ho
  -- To give pages back is no write, and to restore is, which is not done here.
  have hfree : ∀ base, Keeps (fun st => ∀ event ∈ st.2, event.IsQuiet) (fun host => host)
      (Host.freePages base) :=
    fun base => upkeep_quiet.tending.freePages (Nat.zero_le _)
  have hend : Keeps (fun st => ∀ event ∈ st.2, event.IsQuiet) (fun host => host) o.drop := by
    refine upkeep_quiet.tending.dropObject hfree fun p hp hinstalled => ?_
    have hpatch : s.patch? id = some p := by
      rw [patch?, ho, hp]
      rfl
    rw [hidle p hpatch] at hinstalled
    exact absurd hinstalled Bool.false_ne_true
  have hdrop : Keeps (fun st => ∀ event ∈ st.2, event.IsQuiet) Session.host
      (do Action.modify (·.erase id); onHost o.drop; return .done : Action Session Answer) := by
    refine .bind (.modify fun _ => rfl) fun _ => ?_
    exact Upkeep.answer hend _
  exact quiet_of_keeps hdrop s

/-- No bytes are written over live code without a call. -/
theorem overwrite_quiet {id : String} {bytes : List UInt8} (hidle : s.Idle (.overwrite id bytes)) :
    s.Concludes (perform (.overwrite id bytes)) (fun _ st => ∀ event ∈ st.2, event.IsQuiet)
      fun _ st => ∀ event ∈ st.2, event.IsQuiet := by
  refine withObject_ends (fun _ _ hmem => absurd hmem List.not_mem_nil) fun live _ => ?_
  have hwrite : Keeps (fun st => ∀ event ∈ st.2, event.IsQuiet) Session.host
      (do return .count (← onHost (live.overwrite bytes false)) : Action Session Answer) := by
    rw [show bytes = [] from hidle]
    exact Upkeep.answer (.ret 0) .count
  exact quiet_of_keeps hwrite s

/-- A command that finds nothing to write calls nobody. -/
theorem perform_quiet {command : Command} (hbarrier : ¬ command.SetsBarrier)
    (hidle : s.Idle command) :
    s.Concludes (perform command) (fun _ st => ∀ event ∈ st.2, event.IsQuiet)
      fun _ st => ∀ event ∈ st.2, event.IsQuiet := by
  have hnone : ∀ event ∈ ([] : List Event), event.IsQuiet :=
    fun _ hmem => absurd hmem List.not_mem_nil
  by_cases hlive : command.WritesLive
  · -- These may write to live code, and are idle for what they find under the name.
    cases command with
    | install id =>
        refine onPatch_ends (fun _ => hnone) fun p hp => ?_
        rw [traced_bind, traced_pure]
        exact .bind (install_quiet (hidle p hp)) fun _ => .ret fun _ h => h
    | uninstall id =>
        refine onPatch_ends (fun _ => hnone) fun p hp => ?_
        rw [traced_bind, traced_pure]
        exact .bind (uninstall_quiet (hidle p hp)) fun _ => .ret fun _ h => h
    | drop id => exact drop_quiet hidle
    | overwrite id bytes => exact overwrite_quiet hidle
    | overwriteWith id program =>
        refine withObject_ends (fun _ => hnone) fun live hfound => onCode_ends ?_
        have hwrite := @overwriteWith_quiet live program s.host (hidle live hfound)
        refine hwrite.weaken (fun _ h => h) (fun count st h => ?_) fun _ _ h _ => h
        rw [traced_pure]
        exact .ret fun _ hst _ => hst ▸ h
    | _ => exact hlive.elim
  · -- No other command comes to a barrier.
    have hkeeps := upkeep_quiet.perform hbarrier fun h => absurd h hlive
    exact quiet_of_keeps hkeeps s

theorem step_quiet {command : Command} (hidle : s.Idle command) :
    ∀ event ∈ (s.step command).2.trace, event.IsQuiet := by
  by_cases hbarrier : command.SetsBarrier
  · rw [(step_setsBarrier hbarrier s).2.2]
    exact fun _ hmem => absurd hmem List.not_mem_nil
  · have hend := step_concludes (perform_quiet hbarrier hidle)
    split at hend
    · exact hend
    · exact hend

end Quiet

/-- What is known of the calls of barriers during any command, wherever a session has
    come to. -/
theorem brackets_of_run (loader : Loader) (commands : List Command) (command : Command) :
    ((start loader).run commands).1.Brackets command := by
  have haccounted := run_accounted commands (start_accounted loader)
  have haligned := run_aligned commands (start_aligned loader)
  refine ⟨step_bracketed _ command, fun hsome hlive => ?_, step_quiet, fun fault hfault => ?_⟩
  · have hslot : ((start loader).run commands).1.host.slot.inForce ≠ none :=
      Option.isSome_iff_ne_none.mp hsome
    have hend := step_concludes (perform_announced haccounted haligned hslot hlive)
    split at hend <;> exact hend
  · exact (step_harmless haccounted haligned hfault).early

/-- A barrier that puts another in force when it is called, and a patch in a page whose
    protection cannot be changed once. -/
def switchedBarrier : List Command :=
  [.mapPages "page" 16 .readExecute,
    .defineBarrier ⟨"inner", .nothing, .nothing⟩,
    .defineBarrier ⟨"outer", .set "inner", .nothing⟩, .setBarrier "outer",
    .patch "patch" (.literal [1, 2, 3]) (.absolute 0x10000000) true, .failProtections 1]

set_option maxRecDepth 4000 in
/-- The write that fails is in the brackets of one barrier, and the write that puts back
    what was there in those of the other. -/
theorem brackets_of_switchedBarrier :
    (calls (((start ⟨[], []⟩).run switchedBarrier).1.step (.install "patch")).2.trace).map
        (fun call => (call.side, call.barrier.name)) =
          [(.enter, "outer"), (.leave, "outer"), (.enter, "inner"), (.leave, "inner")] ∧
      Announced ((start ⟨[], []⟩).run switchedBarrier).1.host.memory
        (((start ⟨[], []⟩).run switchedBarrier).1.step (.install "patch")).1.host.memory
        (calls (((start ⟨[], []⟩).run switchedBarrier).1.step (.install "patch")).2.trace) :=
  ⟨rfl, (brackets_of_run ⟨[], []⟩ switchedBarrier (.install "patch")).announced rfl True.intro⟩

end Session

end Hotpatch
