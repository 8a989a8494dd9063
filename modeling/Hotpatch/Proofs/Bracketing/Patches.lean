import Hotpatch.Proofs.Atomicity.Intact

/-!
# Writes Of Patches

What a patch does to live code, and what it does not do when it fails. A patch that
cannot be written is followed by a second write, of the bytes that were there. That
write may fail too, and another barrier may be in force by then, or none. But a write
that fails does nothing to memory, so the bytes that the second one puts back are there
already, and memory is what it was either way.

A failure on the way to the first write is different: intercepts may have been
generated by then. But live code was not touched, and no barrier was called.

## Main definitions

* `Patch.At`: A patch on a host of which all is known that matters to a write.
* `Patch.Unharmed`: A patch and a memory that are what they were.
* `Announced`: Bytes change only in ranges that a barrier was called for.

## Theorems

* `put_at`, `read_at`: What a patch writes and reads in its place.
* `writeReplacement_at`: The bytes of a patch, and those that were there.
* `install_ends`, `uninstall_ends`, `target_ends`: The operations on a patch.
* `drop_announced`: The end of a patch.
-/

namespace Hotpatch

open Hotpatch.Action

/-- Bytes that were mapped change only in ranges that a barrier was called for. -/
def Announced (before after : Memory) (called : List BarrierCall) : Prop :=
  ∀ a, before.Mapped a → after.contents a ≠ before.contents a →
    ∃ call ∈ called, call.side = .enter ∧ call.address.toNat ≤ a ∧
      a < call.address.toNat + call.length

/-- Where nothing changes there is nothing to announce. -/
theorem announced_of_contents {before after : Memory} (called : List BarrierCall)
    (h : ∀ a, before.Mapped a → after.contents a = before.contents a) :
    Announced before after called := by
  intro a ha hne
  exact absurd (h a ha) hne

/-- The bracket of a write announces what it changes. -/
theorem announced_write {before m : Memory} {slot : BarrierSlot} (hslot : slot.inForce ≠ none)
    (h : ∀ a, before.Mapped a → m.contents a = before.contents a) (address : Address)
    (bytes : List UInt8) (called : List BarrierCall) (after : Memory) :
    Announced before (m.write address.toNat bytes)
      (called ++ slot.bracket address bytes.length m after) := by
  intro a ha hne
  rw [← h a ha] at hne
  cases hforce : slot.inForce with
  | none => exact absurd hforce hslot
  | some barrier =>
      refine ⟨⟨.enter, barrier, address, bytes.length, m⟩, ?_, rfl, ?_⟩
      · rw [BarrierSlot.bracket, hforce]
        exact List.mem_append_right _ List.mem_cons_self
      · -- A byte beside the range would not have changed.
        by_cases hin : address.toNat ≤ a ∧ a < address.toNat + bytes.length
        · exact hin
        · exact absurd (Memory.contents_write_of_outside (by omega)) hne

/-- Older memory is intact and the barrier was left alone. -/
structure Prepared (origin : Memory) (slot : BarrierSlot) (st : Host × List Event) : Prop where
  intact : origin.Intact st.1.memory
  slot : st.1.slot = slot
  quiet : ∀ event ∈ st.2, event.IsQuiet

/-- Before anything was done all is as it was. -/
theorem Prepared.start (host : Host) : Prepared host.memory host.slot (host, []) where
  intact := .refl _
  slot := rfl
  quiet _ hmem := absurd hmem List.not_mem_nil

theorem upkeep_prepared {origin : Memory} (horderly : origin.Orderly)
    (haligned : origin.Aligned) (slot : BarrierSlot) :
    Upkeep origin.next (Prepared origin slot) where
  later h := h.intact.later
  event := by
    intro host events event quiet h
    exact ⟨h.intact, h.slot, quiet.append h.quiet⟩
  host := by
    intro host host' events hslot hchange h
    exact ⟨h.intact.change horderly haligned hchange, hslot.trans h.slot, h.quiet⟩

namespace Patch

/-- A patch on a host with a known memory and slot, after known calls of barriers. -/
structure At (p : Patch) (memory : Memory) (slot : BarrierSlot) (called : List BarrierCall)
    (st : (Patch × Host) × List Event) : Prop where
  patch : st.1.1 = p
  host : Host.At memory slot called (st.1.2, st.2)

/-- A patch at the same place that replaced the same bytes, and older memory that is
    intact. -/
structure Unharmed (p : Patch) (origin : Memory) (st : Patch × Host) : Prop where
  site : st.1.site = p.site
  saved : st.1.saved = p.saved
  intact : origin.Intact st.2.memory

variable {p : Patch} {m : Memory} {slot : BarrierSlot} {called : List BarrierCall}
  {bytes saved : List UInt8} {host : Host}

/-- Patch and host at a state are at what they show there. -/
theorem at_self (st : (Patch × Host) × List Event) :
    At st.1.1 st.1.2.memory st.1.2.slot (calls st.2) st where
  patch := rfl
  host := Host.at_self (st.1.2, st.2)

/-- A patch of which only the source has changed is unharmed, if older memory is intact. -/
theorem Unharmed.of_source {origin : Memory} {st : Patch × Host}
    (hpatch : ∃ source, st.1 = { p with source }) (hintact : origin.Intact st.2.memory) :
    p.Unharmed origin st := by
  rcases hpatch with ⟨source, hpatch⟩
  exact ⟨hpatch ▸ rfl, hpatch ▸ rfl, hintact⟩

theorem put_at (hbytes : bytes ≠ []) :
    Triple (At p m slot called) (put bytes).traced
      (fun _ => At p (m.write p.site.toNat bytes) slot.afterWrite
        (called ++ slot.bracket p.site bytes.length m (m.write p.site.toNat bytes)))
      fun fault st => fault.isEncoding = false ∧ At p m slot.afterWrite
        (called ++ slot.bracket p.site bytes.length m m) st := by
  unfold put
  rw [traced_bind, traced_gets]
  refine .bind_known (a := p) (fun _ h => h.patch) ?_
  rw [traced_bind, traced_pure]
  refine .bind ?_ fun _ => .ret fun _ h => h
  rw [onSecond, traced_within]
  refine .within fun st h => ?_
  refine (p.live.overwrite_at hbytes p.unprotected).weaken (fun s hs => ?_)
    (fun _ s hs => ⟨h.patch, hs⟩) fun _ s hs => ⟨hs.1, h.patch, hs.2⟩
  rw [hs]
  exact h.host

/-- What a patch was told to put back into a memory. If it is refused, the memory is
    what it was. -/
theorem put_back {P : (Patch × Host) × List Event → Prop} (covered : List UInt8)
    (hP : ∀ st, P st → st.1.1 = p ∧ st.1.2.memory = m) :
    Triple P (put covered).traced
      (fun _ st => st.1.1 = p ∧ st.1.2.memory = m.write p.site.toNat covered)
      fun fault st => fault.isEncoding = false ∧ st.1.1 = p ∧ st.1.2.memory = m := by
  by_cases hcovered : covered = []
  · -- No bytes are put back without a write.
    intro st hst
    rw [hcovered]
    refine ⟨(hP st hst).1, (hP st hst).2.trans ?_⟩
    exact (congrArg (fun contents => { m with contents }) (m.same_write_nil _).contents).symm
  · refine .pointwise fun st hst => ?_
    rcases hP st hst with ⟨rfl, rfl⟩
    have hat : ∀ s, s = st → At st.1.1 st.1.2.memory st.1.2.slot (calls st.2) s := by
      intro s hs
      rw [hs]
      exact at_self st
    exact (put_at hcovered).weaken hat (fun _ _ hs => ⟨hs.patch, hs.host.memory⟩)
      fun _ _ hs => ⟨hs.1, hs.2.patch, hs.2.host.memory⟩

/-- What a patch reads in its place is what is there. -/
theorem read_at (length : Nat) :
    Triple (At p m slot called) ((p.live.read length).onSecond : Action (Patch × Host) _).traced
      (fun covered st => covered = m.read p.site.toNat length ∧ At p m slot called st)
      fun fault st => fault.isEncoding = false ∧ st.1.1 = p ∧ st.1.2.memory = m := by
  rw [onSecond, traced_within]
  refine .within fun st h => ?_
  unfold LiveCode.read Host.load
  split
  · rw [traced_fail]
    refine .fail fun s hs => ⟨rfl, h.patch, ?_⟩
    rw [hs]
    exact h.host.memory
  · rw [traced_gets]
    refine .gets fun s hs => ⟨?_, h.patch, hs ▸ h.host⟩
    rw [hs, h.host.memory]
    rfl

/-- The bytes of a patch enter memory, or patch and memory are what they were. -/
theorem writeReplacement_at (hbytes : bytes ≠ []) :
    Triple (At p m slot called) (writeReplacement bytes).traced
      (fun _ => At { p with saved := some (m.read p.site.toNat bytes.length) }
        (m.write p.site.toNat bytes) slot.afterWrite
        (called ++ slot.bracket p.site bytes.length m (m.write p.site.toNat bytes)))
      fun fault st => fault.isEncoding = false ∧ st.1.1 = p ∧ st.1.2.memory = m := by
  unfold writeReplacement
  rw [traced_bind, traced_gets]
  refine .bind_known (a := p) (fun _ h => h.patch) ?_
  rw [traced_bind]
  refine .bind (read_at bytes.length) fun covered => ?_
  refine .assuming (fun _ h => h.1) fun hcovered => ?_
  have hback : { m with contents := (m.write p.site.toNat covered).contents } = m := by
    rw [hcovered, Memory.write_read]
  rw [traced_bind, traced_attempt]
  refine .bind ((put_at hbytes).before fun _ h => h.2).settle fun result => ?_
  -- Only what was covered is kept, so a failed write leaves the patch as it was.
  cases result with
  | ok _ =>
      rw [traced_bind, setSaved, traced_modify]
      refine .bind_modify (M := At { p with saved := some covered } (m.write p.site.toNat bytes)
        slot.afterWrite (called ++ slot.bracket p.site bytes.length m
          (m.write p.site.toNat bytes))) ?_ fun st h => ⟨?_, h.host⟩
      · rw [traced_bind, traced_gets, hcovered]
        refine .bind_gets fun _ => ?_
        rw [Action.log, traced_emit]
        refine .modify fun st h => ⟨h.1.patch, h.1.host.memory, h.1.host.slot, ?_⟩
        rw [calls_note, h.1.host.called]
      · rw [h.patch]
  | error fault =>
      -- The second write puts back what is there, or fails.
      refine .assuming (fun _ h => h.1) fun hlate => ?_
      rw [traced_bind, traced_attempt]
      refine .bind (put_back (p := p) (m := m) covered fun st h =>
        ⟨h.2.patch, h.2.host.memory⟩).settle fun second => ?_
      cases second with
      | ok _ =>
          dsimp only
          rw [traced_fail]
          exact .fail fun st h => ⟨hlate, h.1, h.2.trans hback⟩
      | error _ =>
          dsimp only
          rw [traced_bind, traced_fail, Action.log, traced_emit]
          exact .bind_modify (M := fun st => st.1.1 = p ∧ st.1.2.memory = m)
            (.fail fun _ h => ⟨hlate, h⟩) fun _ h => h.2

/-- What is done with the source of a patch leaves the rest of the patch alone. -/
theorem onSource_prepared {α : Type} {C : Host × List Event → Prop}
    {act : Action (Source × Host) α} (h : Keeps C Prod.snd act) (p : Patch) :
    Triple (fun st => st.1.1 = p ∧ C (st.1.2, st.2)) (onSource act).traced
      (fun _ st => (∃ source, st.1.1 = { p with source }) ∧ C (st.1.2, st.2))
      fun _ st => (∃ source, st.1.1 = { p with source }) ∧ C (st.1.2, st.2) := by
  rw [onSource, traced_within]
  refine .within fun st hst => ?_
  refine h.triple.weaken (fun s hs => ?_) (fun _ s hs => ?_) fun _ s hs => ?_
  · rw [hs]
    exact hst.2
  · exact ⟨⟨s.1.1, by rw [hst.1]⟩, hs⟩
  · exact ⟨⟨s.1.1, by rw [hst.1]⟩, hs⟩

section Operations

variable (horderly : host.memory.Orderly) (haligned : host.memory.Aligned)

include horderly haligned

omit haligned in
/-- The write of a patch whose source was looked at first. Its fault is never one of
    encoding, so it may come after calls of a barrier. -/
theorem writeReplacement_ends {st : (Patch × Host) × List Event}
    (hpatch : ∃ source, st.1.1 = { p with source })
    (hprepared : Prepared host.memory host.slot (st.1.2, st.2)) (hbytes : bytes ≠ []) :
    Triple (fun s => s = st) (writeReplacement bytes).traced
      (fun _ s => host.slot.inForce ≠ none → Announced host.memory s.1.2.memory (calls s.2))
      fun fault s => p.Unharmed host.memory s.1 ∧
        (fault.isEncoding = true → ∀ event ∈ s.2, event.IsQuiet) := by
  have hat : ∀ s, s = st → At st.1.1 st.1.2.memory host.slot (calls st.2) s := by
    intro s hs
    rw [hs, ← hprepared.slot]
    exact at_self st
  refine (writeReplacement_at hbytes).weaken hat (fun _ s hs hslot => ?_) fun fault s hs => ?_
  · -- What was mapped before is as it was until the announced write.
    rw [hs.host.memory, hs.host.called]
    refine announced_write hslot (fun a ha => ?_) _ _ _ _
    exact hprepared.intact.contents a (horderly.lt_next ha)
  · refine ⟨.of_source ?_ ?_, fun hearly => ?_⟩
    · rw [hs.2.1]
      exact hpatch
    · rw [hs.2.2]
      exact hprepared.intact
    · rw [hs.1] at hearly
      exact absurd hearly Bool.false_ne_true

/-- A patch that is installed announces what it writes, if there is a barrier. If it
    fails it is unharmed, and a fault of encoding comes before any call. -/
theorem install_ends (p : Patch) :
    Triple (fun st => st = ((p, host), [])) install.traced
      (fun _ st => host.slot.inForce ≠ none →
        Announced host.memory st.1.2.memory (calls st.2))
      fun fault st => p.Unharmed host.memory st.1 ∧
        (fault.isEncoding = true → ∀ event ∈ st.2, event.IsQuiet) := by
  unfold install
  rw [traced_bind, traced_gets]
  refine .bind_known (a := p) (fun _ h => h ▸ rfl) ?_
  split
  · rw [traced_pure]
    refine .ret fun st h _ => ?_
    rw [h]
    exact announced_of_contents _ fun _ _ => rfl
  · rw [traced_bind]
    have hpayload := onSource_prepared (C := Prepared host.memory host.slot)
      ((upkeep_prepared horderly haligned host.slot).tending.payload p.site) p
    -- First what is made aside, which may fail early, then the write, which fails late.
    refine .bind (hpayload.weaken (fun st h => ?_) (fun _ _ h => h) fun fault st h => ?_)
      fun bytes => ?_
    · rw [h]
      exact ⟨rfl, .start host⟩
    · exact ⟨.of_source h.1 h.2.intact, fun _ => h.2.quiet⟩
    · split
      · -- A replacement without bytes is noted, and no older byte has changed.
        rw [Action.log, traced_emit]
        refine .modify fun st h _ => announced_of_contents _ fun a ha => ?_
        exact h.2.intact.contents a (horderly.lt_next ha)
      · next hbytes =>
          refine .pointwise fun st hst => ?_
          have hne : bytes ≠ [] := fun hempty => hbytes (List.isEmpty_iff.mpr hempty)
          exact writeReplacement_ends horderly hst.1 hst.2 hne

/-- A patch that fails to resolve the target of its branch is unharmed, and no barrier
    was called. -/
theorem target_ends (p : Patch) :
    Triple (fun st => st = ((p, host), [])) target.traced (fun _ _ => True)
      fun fault st => p.Unharmed host.memory st.1 ∧
        (fault.isEncoding = true → ∀ event ∈ st.2, event.IsQuiet) := by
  unfold target
  rw [traced_bind, traced_gets]
  refine .bind_gets fun source => ?_
  split
  · next kind target =>
      rw [traced_bind]
      have hresolve : Keeps (Prepared host.memory host.slot) Prod.snd
          ((Target.resolve kind).within (fun st : Source × Host => (target, st.2))
            fun _ part => (.branch kind part.1, part.2)) :=
        .within ((upkeep_prepared horderly haligned host.slot).tending.resolve kind) (fun _ => rfl)
          fun _ _ => rfl
      refine .bind ((onSource_prepared hresolve p).weaken (fun st h => ?_)
        (fun _ _ _ => True.intro) fun _ st h => ?_) fun _ => ?_
      · rw [h.1]
        exact ⟨rfl, .start host⟩
      · exact ⟨.of_source h.1 h.2.intact, fun _ => h.2.quiet⟩
      · rw [traced_pure]
        exact .ret fun _ _ => True.intro
  · -- A patch without a branch has no target, which is an answer.
    rw [traced_pure]
    exact .ret fun _ _ => True.intro

end Operations

/-- A write of a patch announces what it changes, if there is a barrier. If it fails
    nothing happened to patch and memory. -/
theorem put_ends (p : Patch) (host : Host) (bytes : List UInt8) :
    Triple (fun st => st = ((p, host), [])) (put bytes).traced
      (fun _ st => host.slot.inForce ≠ none →
        Announced host.memory st.1.2.memory (calls st.2))
      fun fault st => fault.isEncoding = false ∧ st.1.1 = p ∧ st.1.2.memory = host.memory := by
  by_cases hbytes : bytes = []
  · intro st h
    rw [hbytes, h]
    exact fun _ => announced_of_contents _ fun _ _ => rfl
  · have hat : ∀ st, st = ((p, host), []) → At p host.memory host.slot [] st := by
      intro st h
      rw [h]
      exact at_self ((p, host), [])
    refine (put_at hbytes).weaken hat (fun _ st h hslot => ?_) fun _ st h =>
      ⟨h.1, h.2.patch, h.2.host.memory⟩
    rw [h.host.memory, h.host.called]
    exact announced_write hslot (fun _ _ => rfl) _ _ _ _

/-- A patch that is uninstalled announces what it writes, if there is a barrier. If it
    fails nothing happened to it, and the fault is not one of encoding. -/
theorem uninstall_ends (p : Patch) (host : Host) :
    Triple (fun st => st = ((p, host), [])) uninstall.traced
      (fun _ st => host.slot.inForce ≠ none →
        Announced host.memory st.1.2.memory (calls st.2))
      fun fault st => fault.isEncoding = false ∧ st.1.1 = p ∧ st.1.2.memory = host.memory := by
  unfold uninstall
  rw [traced_bind, traced_gets]
  refine .bind_known (a := p) (fun _ h => h ▸ rfl) ?_
  split
  · rw [traced_fail]
    refine .fail fun st h => ⟨rfl, ?_⟩
    rw [h]
    exact ⟨rfl, rfl⟩
  · next saved _ =>
      rw [traced_bind]
      refine .bind (put_ends p host saved) fun _ => ?_
      -- After the write the patch forgets the bytes and takes a note, neither of which counts.
      rw [traced_bind, setSaved, traced_modify, Action.log, traced_emit]
      refine .bind_modify (M := fun st => host.slot.inForce ≠ none →
        Announced host.memory st.1.2.memory (calls st.2)) (.modify fun st h hslot => ?_)
          fun st h => h
      rw [calls_note]
      exact h hslot

theorem log_announced (m : Memory) (n : Note) :
    Keeps (fun st => Announced m st.1.memory (calls st.2)) id
      (Action.log n : Action Host Unit) := by
  rw [Keeps, Action.log, traced_emit]
  refine .modify fun st h => ?_
  rw [calls_note]
  exact h

/-- What is done at the end of a patch apart from uninstalling it changes no
    contents. -/
theorem freeIntercept_announced (p : Patch) (m : Memory) :
    Keeps (fun st => Announced m st.1.memory (calls st.2)) id p.freeIntercept ∧
      Keeps (fun st => Announced m st.1.memory (calls st.2)) id p.keepIntercept := by
  have hrelease : ∀ r : Region, Keeps (fun st => Announced m st.1.memory (calls st.2)) id
      r.release := by
    refine fun r => Upkeep.release_keeps (log_announced m) fun base _ => ?_
    rw [Keeps, Host.freePages, Host.modifyMemory, traced_modify]
    exact .modify fun _ h => h
  exact ⟨Upkeep.freeIntercept_keeps hrelease p, Upkeep.keepIntercept_keeps (log_announced m) p⟩

/-- A patch that goes away announces what it writes, if there is a barrier. -/
theorem drop_announced (p : Patch) {host : Host} (hslot : host.slot.inForce ≠ none) :
    Triple (fun st => st = (host, [])) p.drop.traced
      (fun _ st => Announced host.memory st.1.memory (calls st.2))
      fun _ st => Announced host.memory st.1.memory (calls st.2) := by
  have hstart : ∀ st, st = (host, []) → Announced host.memory st.1.memory (calls st.2) := by
    intro st h
    rw [h]
    exact announced_of_contents _ fun _ _ => rfl
  rcases freeIntercept_announced p host.memory with ⟨hfree, hkeep⟩
  unfold drop
  split
  · rw [traced_bind, traced_attempt]
    refine .bind (Q := fun _ st => Announced host.memory st.1.memory (calls st.2))
      (.attempt ?_) fun result => ?_
    · -- To be uninstalled is announced, and to fail at it changes nothing.
      rw [traced_within]
      refine .within fun st h => ?_
      refine (uninstall_ends p host).weaken (fun s hs => ?_) (fun _ _ hs => hs hslot)
        fun _ s hs => ?_
      · rw [hs, h]
      · rw [hs.2.2]
        exact announced_of_contents _ fun _ _ => rfl
    · -- The intercept is freed, or else it is kept and that is noted.
      cases result with
      | ok _ => exact hfree.triple
      | error fault => exact ((log_announced _ _).bind fun _ => hkeep).triple
  · exact hfree.triple.before hstart

end Patch

end Hotpatch
