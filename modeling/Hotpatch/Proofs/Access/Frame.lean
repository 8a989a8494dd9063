import Hotpatch.Proofs.Atomicity.Intact
import Hotpatch.Proofs.Branching.Steps
import Hotpatch.Proofs.Ends
import Hotpatch.Proofs.Patching.Overlay
import Hotpatch.Proofs.Sizing.Prediction
import Hotpatch.Proofs.Upkeep.Commands

/-!
# What Commands Leave Alone

A command writes to one range of memory that was mapped before, or to none. Which range
that is can be told before the command is carried out. Everything else that a command
does to contents it does to pages that were handed out for it, and these are above all
others. So an address keeps its byte until a command is told to write there, whatever is
made, given up and refused in the meantime.

## Main definitions

* `Memory.Holds`: An address and its byte.
* `Session.written?`: The range that a command writes to.
* `Session.KeepOff`: Commands that do not write to a range.

## Theorems

* `upkeep_holds`: What is done above an address.
* `step_contents`: An address that a command does not write to.
* `run_contents`: A range that no command writes to.
-/

namespace Hotpatch

open Hotpatch.Action

/-- An address that was handed out, and its byte. -/
structure Memory.Holds (m : Memory) (a : Nat) (byte : UInt8) : Prop where
  contents : m.contents a = byte
  below : a < m.next

variable {a : Nat} {byte : UInt8}

/-- Whatever is done above an address leaves its byte alone. -/
theorem upkeep_holds (a : Nat) (byte : UInt8) :
    Upkeep (a + 1) fun st => st.1.memory.Holds a byte where
  later h := h.below
  event _ h := h
  host host host' _ _ hchange h := by
    generalize host'.memory = m' at hchange ⊢
    cases hchange with
    | same => exact h
    | reserve reserved =>
        -- New pages are cleared, but begin above the address.
        rcases Memory.reserve_eq_some reserved with ⟨hbase, -, -, -, hnext, -⟩
        have hbelow : a < host.memory.next := h.below
        exact ⟨(Memory.reserve_contents reserved hbelow).trans h.contents, by omega⟩
    | unmap base above => exact ⟨h.contents, h.below⟩
    | protect address length protection above => exact ⟨h.contents, h.below⟩
    | write address bytes above =>
        exact ⟨(Memory.contents_write_of_lt above).trans h.contents, h.below⟩

theorem Memory.Holds.same {m m' : Memory} (h : m.Holds a byte) (hs : m.Same m') :
    m'.Holds a byte where
  contents := hs.contents ▸ h.contents
  below := hs.next ▸ h.below

/-- A write leaves alone what it does not reach. -/
theorem Memory.Holds.write {m : Memory} (h : m.Holds a byte) {address : Nat}
    {bytes : List UInt8} (hout : ¬ (⟨address, bytes.length⟩ : Extent).Contains a) :
    (m.write address bytes).Holds a byte where
  contents := (Memory.contents_write_of_not_contains hout).trans h.contents
  below := h.below

section Keeping

/-- Pages are given back with what is on them. -/
theorem freePages_holds (base : Address) :
    Keeps (fun st => st.1.memory.Holds a byte) id (Host.freePages base) := by
  refine Upkeep.modify_keeps fun host events h => ?_
  exact ⟨h.contents, h.below⟩

theorem store_holds {address : Address} {bytes : List UInt8}
    (hout : ¬ (⟨address.toNat, bytes.length⟩ : Extent).Contains a) :
    Keeps (fun st => st.1.memory.Holds a byte) id (Host.store address bytes) := by
  unfold Host.store
  split
  · exact .fail _
  · refine Upkeep.modify_keeps fun host events h => ?_
    exact h.write hout

theorem withWritable_holds {α : Type} {act : Action Host α} (hact : Host.Untouched act)
    (address : Address) (length : Nat) :
    Keeps (fun st => st.1.memory.Holds a byte) id (Host.withWritable address length act) := by
  have hstable : Host.Stable fun host => host.memory.Holds a byte := fun _ _ h hs => h.same hs
  have hlifted : Preserves (fun host : Host => host.memory.Holds a byte)
      (Host.withWritable address length act) :=
    Host.withWritable_triple hstable (fun _ => hstable) (fun _ => hstable) (fun _ _ h => h) _ _
      (hact.preserves hstable)
  exact lift hlifted

/-- A write to live code leaves alone what it does not reach. -/
theorem overwrite_holds {live : LiveCode} {bytes : List UInt8} (unprotected : Bool)
    (hout : ¬ (⟨live.address.toNat, bytes.length⟩ : Extent).Contains a) :
    Keeps (fun st => st.1.memory.Holds a byte) id (live.overwrite bytes unprotected) := by
  have hwrite : Preserves (fun host : Host => host.memory.Holds a byte)
      (live.overwrite bytes unprotected) := by
    refine .pointwise fun host h => ?_
    -- It lands as a write of memory or changes nothing, but for protections.
    exact (live.overwrite_writes host.memory bytes unprotected).weaken
      (fun _ hh => hh ▸ .refl host.memory) (fun _ _ hh => (h.write hout).same hh)
      fun _ _ hh => h.same hh
  exact lift hwrite

end Keeping

namespace Session

/-- The range that a command writes to if it succeeds, among what was mapped before. -/
def written? (s : Session) : Command → Option Extent
  | .poke address bytes => some ⟨address.toNat, bytes.length⟩
  | .write id offset bytes => do
    let r ← (s.get? id).bind Object.region?
    let address ← (r.locate offset bytes.length).toOption
    return ⟨address.toNat, bytes.length⟩
  | .overwrite id bytes => do
    let live ← (s.get? id).bind Object.resident?
    return ⟨live.address.toNat, bytes.length⟩
  | .overwriteWith id program => do
    let live ← (s.get? id).bind Object.resident?
    let bytes ← (program.output 0 (.placedAt live.address)).toOption
    return ⟨live.address.toNat, bytes.length⟩
  | .install id => do
    let p ← s.patch? id
    if p.isInstalled then none else some ⟨p.site.toNat, (s.replacement id).length⟩
  | .uninstall id | .drop id =>
    (s.replaced? id).map fun entry => ⟨entry.1.toNat, entry.2.length⟩
  | _ => none

/-- A command that writes to an address. -/
def Writes (s : Session) (command : Command) (a : Nat) : Prop :=
  ∃ e ∈ s.written? command, e.Contains a

/-- Commands none of which writes to a range. -/
def KeepOff (e : Extent) (s : Session) : List Command → Prop
  | [] => True
  | command :: rest =>
    (∀ a, e.Contains a → ¬ s.Writes command a) ∧ (s.step command).1.KeepOff e rest

section Steps

variable {floor : Nat} {kept : String → Option (Address × List UInt8) → Prop}
  {owned : List Extent} {s : Session} {command : Command} {a : Nat} {byte : UInt8} {id : String}

/-- An action that leaves alone an address, as a command. -/
theorem concludes_holds {act : Action Session Answer} (h : s.host.memory.Holds a byte)
    (hact : Keeps (fun st => st.1.memory.Holds a byte) Session.host act) :
    s.Concludes act (fun _ st => st.1.host.memory.Holds a byte)
      fun _ st => st.1.host.memory.Holds a byte := by
  refine hact.triple.before fun st hst => ?_
  rw [hst]
  exact h

/-- A command on a region leaves alone what it is not told to write to. -/
theorem write_holds {offset : Nat} {bytes : List UInt8} (h : s.host.memory.Holds a byte)
    (hoff : ¬ s.Writes (.write id offset bytes) a) :
    s.Concludes (perform (.write id offset bytes)) (fun _ st => st.1.host.memory.Holds a byte)
      fun _ st => st.1.host.memory.Holds a byte := by
  refine withObject_ends (fun _ => h) fun r hr => concludes_holds h ?_
  refine .bind (Upkeep.onHost ?_) fun _ => .ret _
  unfold Region.write
  cases hlocate : r.locate offset bytes.length with
  | error fault => exact .fail_bind fault _
  | ok address =>
      -- The range was told from the same region, so it is where the store goes.
      have hwritten : s.written? (.write id offset bytes) = some ⟨address.toNat, bytes.length⟩ := by
        simp only [written?, hr, hlocate, Except.toOption, Option.bind_eq_bind, Option.bind_some,
          Option.pure_def]
      have hout : ¬ (⟨address.toNat, bytes.length⟩ : Extent).Contains a :=
        fun hcontains => hoff ⟨_, hwritten, hcontains⟩
      exact .bind_gives (.ret rfl) fun a' ha' => (ha' : address = a') ▸ store_holds hout

/-- Code that is written over live code leaves alone what it does not reach. -/
theorem overwriteWith_holds {program : Program} (h : s.host.memory.Holds a byte)
    (hoff : ¬ s.Writes (.overwriteWith id program) a) :
    s.Concludes (perform (.overwriteWith id program))
      (fun _ st => st.1.host.memory.Holds a byte) fun _ st => st.1.host.memory.Holds a byte := by
  refine withObject_ends (fun _ => h) fun live hlive => onCode_ends ?_
  have hassemble := (upkeep_holds a byte).tending.assemble live.address
  have hwrite : Triple (fun st => st = (({ program }, s.host), [])) live.overwriteWith.traced
      (fun _ st => st.1.2.memory.Holds a byte) fun _ st => st.1.2.memory.Holds a byte := by
    unfold LiveCode.overwriteWith
    rw [traced_bind]
    refine .bind ((hassemble.triple.before fun st hst => ?_).recorded.weaken (fun _ hst => hst)
      (fun _ _ hst => hst) fun _ _ hst => hst.2) fun bytes => ?_
    · rw [hst]
      exact h
    · -- The bytes are those by which the range was told.
      refine .assuming (fun _ hst => hst.1) fun hbytes => ?_
      have houtput : program.output 0 (.placedAt live.address) = .ok bytes :=
        (Code.assemble_result { program } live.address).symm.trans hbytes
      have hwritten : s.written? (.overwriteWith id program) =
          some ⟨live.address.toNat, bytes.length⟩ := by
        simp only [written?, hlive, houtput, Except.toOption, Option.bind_eq_bind,
          Option.bind_some, Option.pure_def]
      have hout : ¬ (⟨live.address.toNat, bytes.length⟩ : Extent).Contains a :=
        fun hcontains => hoff ⟨_, hwritten, hcontains⟩
      exact (Keeps.onSecond (overwrite_holds false hout)).triple.before fun _ hst => hst.2
  -- How often the code ran is part of the answer, and no matter of memory.
  refine hwrite.weaken (fun _ hst => hst) (fun count st hst => ?_) fun _ _ hst _ => hst
  rw [traced_pure]
  exact .ret fun _ hst' _ => hst' ▸ hst

/-- What live code is written over leaves alone what it does not reach. -/
theorem overwriteLive_holds {bytes : List UInt8} (h : s.host.memory.Holds a byte)
    (hoff : ¬ s.Writes (.overwrite id bytes) a) :
    s.Concludes (perform (.overwrite id bytes)) (fun _ st => st.1.host.memory.Holds a byte)
      fun _ st => st.1.host.memory.Holds a byte := by
  refine withObject_ends (fun _ => h) fun live hlive => concludes_holds h ?_
  have hwritten : s.written? (.overwrite id bytes) =
      some ⟨live.address.toNat, bytes.length⟩ := by
    simp only [written?, hlive, Option.bind_eq_bind, Option.bind_some, Option.pure_def]
  have hout : ¬ (⟨live.address.toNat, bytes.length⟩ : Extent).Contains a :=
    fun hcontains => hoff ⟨_, hwritten, hcontains⟩
  exact Upkeep.answer (overwrite_holds false hout) .count

/-- A command that writes to no object meets older memory only where it pokes it. The pages
    that it gives back keep what is on them, and lifted protections are no matter of
    contents. -/
theorem sustains_holds (hlive : ¬ command.WritesLive)
    (hregion : ∀ name offset bytes, command ≠ .write name offset bytes)
    (hoff : ¬ s.Writes command a) :
    command.Sustains fun st => st.1.memory.Holds a byte where
  map _ := ((upkeep_holds a byte).allocatePages _ _).keeps
  guard _ := withWritable_holds (Host.protections_untouched _) _ _
  free := freePages_holds
  poke := by
    rintro address bytes rfl
    have hout : ¬ (⟨address.toNat, bytes.length⟩ : Extent).Contains a :=
      fun hcontains => hoff ⟨_, rfl, hcontains⟩
    exact store_holds hout
  write heq := absurd heq (hregion _ _ _)
  live hwrites := absurd hwrites hlive

/-- Every command but those on patches and on barriers leaves alone what it is not told to
    write to. -/
theorem perform_holds (hsubject : command.subject? = none) (hbarrier : ¬ command.SetsBarrier)
    (h : s.host.memory.Holds a byte) (hoff : ¬ s.Writes command a) :
    s.Concludes (perform command) (fun _ st => st.1.host.memory.Holds a byte)
      fun _ st => st.1.host.memory.Holds a byte := by
  have hC := (upkeep_holds a byte).tending
  cases command with
  -- Where an object is written to, the range is known from the object that has the name.
  | write id offset bytes => exact write_holds h hoff
  | overwrite id bytes => exact overwriteLive_holds h hoff
  | overwriteWith id program => exact overwriteWith_holds h hoff
  | install id | uninstall id | drop id => exact absurd hsubject (Option.some_ne_none id)
  | _ =>
      -- The other commands are no writes to an object, which their constructors tell.
      refine concludes_holds h (hC.perform hbarrier (sustains_holds ?_ ?_ hoff))
      · exact not_false
      · intro _ _ _ heq
        cases heq

/-- Installing a patch changes no older byte but where the patch writes. -/
theorem install_contents (hs : s.Accounted floor kept owned) (ha : a < s.host.memory.next)
    (hoff : ¬ s.Writes (.install id) a) :
    (s.step (.install id)).1.host.memory.contents a = s.host.memory.contents a := by
  cases hp : s.patch? id with
  | none =>
      have hstate : (s.step (.install id)).1 = s := withObject_refused hp
      rw [hstate]
  | some p =>
      rcases onPatch_state hp (Patch.install_lands (hs.patch_owns hp)) with ⟨st, hst, hstate⟩
      have hstate' : (s.step (.install id)).1 = _ := hstate
      rw [hstate']
      change st.2.memory.contents a = _
      rcases hst with (hstays | ⟨hnew, bytes, hbytes, m, hm, -, -, hcontents⟩) | hstays
      · exact hstays.contents a ha
      · -- The replacement is written over a memory that is as it was at the address.
        have hinstalled : p.isInstalled = false := by
          rw [Patch.isInstalled, hnew]
          rfl
        have hwritten : s.written? (.install id) = some ⟨p.site.toNat, bytes.length⟩ := by
          simp only [written?, hp, replacement, hbytes, hinstalled, Except.toOption,
            Option.bind_eq_bind, Option.bind_some, Option.getD_some, Bool.false_eq_true, if_false]
        have hout := fun hcontains => hoff ⟨_, hwritten, hcontains⟩
        rw [hcontents, Memory.contents_write_of_not_contains hout, hm a ha]
      · exact hstays.contents a ha

/-- What puts back what a patch replaced writes nowhere else. -/
theorem restored_contents {m : Memory} {site : Address} {saved : List UInt8}
    (hreplaced : s.replaced? id = some (site, saved)) (hcommand : s.written? command =
      (s.replaced? id).map fun entry => ⟨entry.1.toNat, entry.2.length⟩)
    (hoff : ¬ s.Writes command a) :
    (m.write site.toNat saved).contents a = m.contents a := by
  rw [hreplaced] at hcommand
  exact Memory.contents_write_of_not_contains fun hcontains => hoff ⟨_, hcommand, hcontains⟩

theorem uninstall_contents (hoff : ¬ s.Writes (.uninstall id) a) (ha : a < s.host.memory.next) :
    (s.step (.uninstall id)).1.host.memory.contents a = s.host.memory.contents a := by
  cases hp : s.patch? id with
  | none =>
      have hstate : (s.step (.uninstall id)).1 = s := withObject_refused hp
      rw [hstate]
  | some p =>
      rcases onPatch_state hp (Patch.uninstall_lifts p s.host) with ⟨st, hst, hstate⟩
      have hstate' : (s.step (.uninstall id)).1 = _ := hstate
      rw [hstate']
      change st.2.memory.contents a = _
      rcases hst with ⟨saved, hsaved, hlifts⟩ | hstays
      · -- What is written back is what the patch keeps, where it was found.
        have hreplaced : s.replaced? id = some (p.site, saved) := by
          rw [replaced?_of_patch? hp, hsaved]
          rfl
        rw [hlifts.contents]
        exact restored_contents hreplaced rfl hoff
      · exact hstays.contents a ha

/-- An installed patch puts back at its end what it replaced, or leaves all as it is. -/
theorem dropPatch_contents {p : Patch} {saved : List UInt8} (hget : s.get? id = some (.patch p))
    (hsaved : p.saved = some saved) (hoff : ¬ s.Writes (.drop id) a) :
    (s.step (.drop id)).1.host.memory.contents a = s.host.memory.contents a := by
  have hreplaced : s.replaced? id = some (p.site, saved) := by
    rw [replaced?_of_get? hget, Object.replaced?, hsaved]
    rfl
  by_cases hok : (Patch.uninstall (p, s.host)).result.isOk
  · rcases drop_state hget (Patch.drop_restores hsaved hok) with ⟨host, hhost, hstate⟩
    rw [hstate]
    exact (congrFun hhost a).trans (restored_contents hreplaced rfl hoff)
  · -- A patch that cannot be uninstalled is abandoned with its branch in place.
    have hinstalled : p.isInstalled = true := by
      rw [Patch.isInstalled, hsaved]
      rfl
    have habandons := Patch.drop_abandons hinstalled (Bool.eq_false_iff.mpr hok)
    rcases drop_state hget habandons with ⟨host, hhost, hstate⟩
    rw [hstate]
    exact congrFun hhost a

/-- The end of an object changes no byte but where a patch puts back what it replaced. -/
theorem drop_contents (hoff : ¬ s.Writes (.drop id) a) :
    (s.step (.drop id)).1.host.memory.contents a = s.host.memory.contents a := by
  cases hget : s.get? id with
  | none =>
      have hfound : (s.get? id).bind some = none := by
        rw [hget]
        rfl
      have hstate : (s.step (.drop id)).1 = s := withObject_refused hfound
      rw [hstate]
  | some o =>
      cases ho : o.replaced? with
      | none =>
          have hcalm := Object.drop_calm ho s.host.memory.contents
          rcases drop_state hget (hcalm.before fun host hh => hh ▸ rfl) with ⟨host, hhost, hstate⟩
          rw [hstate]
          exact congrFun hhost a
      | some entry =>
          -- Only an installed patch replaced anything.
          cases o with
          | patch p =>
              rcases Option.map_eq_some_iff.mp ho with ⟨saved, hsaved, -⟩
              exact dropPatch_contents hget hsaved hoff
          | _ => exact absurd ho (by simp only [Object.replaced?, reduceCtorEq, not_false_eq_true])

/-- An address that was handed out keeps its byte if a command does not write to it. -/
theorem step_contents (hs : s.Accounted floor kept owned) (ha : a < s.host.memory.next)
    (hoff : ¬ s.Writes command a) :
    (s.step command).1.host.memory.contents a = s.host.memory.contents a := by
  -- Commands on an installed patch write to its site, all others only to a given range.
  by_cases hbarrier : command.SetsBarrier
  · rw [(step_setsBarrier hbarrier s).1]
  · cases hsubject : command.subject? with
    | none =>
        have hholds : s.host.memory.Holds a (s.host.memory.contents a) := ⟨rfl, ha⟩
        have hend := step_concludes (perform_holds hsubject hbarrier hholds hoff)
        split at hend
        · exact hend.contents
        · exact hend.contents
    | some id =>
        rcases Command.subject?_eq_some hsubject with rfl | rfl | rfl
        · exact install_contents hs ha hoff
        · exact uninstall_contents hoff ha
        · exact drop_contents hoff

end Steps

/-- A range that was handed out keeps its bytes through commands that keep off it. -/
theorem run_contents {floor : Nat} {owned : List Extent} {s : Session} (commands : List Command)
    (hs : s.Accounted floor (fun _ _ => True) owned) {e : Extent}
    (hbelow : e.base + e.length ≤ s.host.memory.next) (hoff : s.KeepOff e commands) {a : Nat}
    (ha : e.Contains a) :
    (s.run commands).1.host.memory.contents a = s.host.memory.contents a := by
  induction commands generalizing s owned with
  | nil => rfl
  | cons command rest ih =>
      have hlater := next_le_step hs command
      have hfirst := step_contents hs (Nat.lt_of_lt_of_le ha.2 hbelow) (hoff.1 a ha)
      have hstep := step_accounted hs command fun _ _ _ => True.intro
      exact (ih hstep (Nat.le_trans hbelow hlater) hoff.2).trans hfirst

end Session

end Hotpatch
