import Hotpatch.Proofs.Ownership.Objects

/-!
# Effects Of Patches

What installing, uninstalling and dropping do to a patch and to the contents
below the pages that come next. New memory may be handed out on the way, for an
intercept, but that lies above.

Installing either puts the bytes of the patch into memory and keeps those that
were there, or it changes neither patch nor contents. The same holds the other
way round of uninstalling.

## Main definitions

* `Patch.replacement`: What a patch is to write.
* `Patch.Stays`: Patch and contents are as before.
* `Patch.Lands`: The bytes of a patch are in memory.

## Theorems

* `install_lands`: A patch is installed, or nothing happened.
* `uninstall_lifts`: A patch is uninstalled, or nothing happened.
* `drop_restores`, `drop_calm`: The end of an object.
-/

namespace Hotpatch

open Hotpatch.Action

namespace Patch

/-- What a patch is to write. -/
def replacement (p : Patch) (host : Host) : Except Fault (List UInt8) :=
  (Source.payload p.site (p.source, host)).result

/-- Patch and contents are as before, whatever was generated. -/
structure Stays (p : Patch) (m : Memory) (st : Patch × Host) : Prop where
  site : st.1.site = p.site
  saved : st.1.saved = p.saved
  contents : ∀ a < m.next, st.2.memory.contents a = m.contents a

/-- The bytes of a patch are in memory, and it keeps those that were there. -/
def Lands (p : Patch) (m : Memory) (bytes : List UInt8) (st : Patch × Host) : Prop :=
  ∃ m' : Memory, (∀ a < m.next, m'.contents a = m.contents a) ∧ st.1.site = p.site ∧
    st.1.saved = some (m'.read p.site.toNat bytes.length) ∧
    st.2.memory.contents = (m'.write p.site.toNat bytes).contents

/-- The bytes that a patch replaced are in memory, and it keeps them no more. -/
structure Lifts (p : Patch) (m : Memory) (bytes : List UInt8) (st : Patch × Host) : Prop where
  saved : st.1.saved = none
  contents : st.2.memory.contents = (m.write p.site.toNat bytes).contents

variable {floor : Nat} {owned : List Extent} {p : Patch} {host : Host}

theorem Resourced.stays {m : Memory} {st : Patch × Host} (h : p.Resourced m owned st) :
    p.Stays m st := by
  rcases h with ⟨source, hpatch, howns⟩
  exact ⟨hpatch ▸ rfl, hpatch ▸ rfl, howns.below⟩

/-- A write that failed leaves the patch where it stood before the write. -/
theorem Stays.same {m : Memory} {st st' : Patch × Host} (h : p.Stays m st)
    (hpatch : st'.1 = st.1) (hsame : st.2.memory.Same st'.2.memory) : p.Stays m st' := by
  refine ⟨hpatch ▸ h.site, hpatch ▸ h.saved, fun a ha => ?_⟩
  rw [hsame.contents]
  exact h.contents a ha

/-- A write that succeeded lands what it wrote over the memory that it found. -/
theorem Stays.lands {m : Memory} {bytes : List UInt8} {st st' : Patch × Host} (h : p.Stays m st)
    (hpatch : st'.1 = { st.1 with
      saved := some (st.2.memory.read st.1.site.toNat bytes.length) })
    (hsame : (st.2.memory.write st.1.site.toNat bytes).Same st'.2.memory) :
    p.Lands m bytes st' := by
  refine ⟨st.2.memory, h.contents, ?_, ?_, ?_⟩
  · rw [hpatch]
    exact h.site
  · rw [hpatch, h.site]
  · rw [← h.site]
    exact hsame.contents

/-- A patch that is installed puts in memory what it is to write. It stays as it is
    if it is installed already, if it has nothing to write, and if anything on the
    way fails. -/
theorem install_lands (howns : host.Owns floor (p.extents ++ owned)) :
    Triple (fun st => st = (p, host)) install
      (fun _ st => p.Stays host.memory st ∨ p.saved = none ∧
        ∃ bytes, p.replacement host = .ok bytes ∧ p.Lands host.memory bytes st)
      fun _ st => p.Stays host.memory st := by
  unfold install
  refine .bind_known (a := p) (fun _ h => h ▸ rfl) ?_
  split
  · refine .ret fun st h => .inl ?_
    rw [h]
    exact ⟨rfl, rfl, fun _ _ => rfl⟩
  · -- Up to the write, all that may have happened is that an intercept was generated.
    next hnew =>
      have hreplacement : Triple (fun st => st = (p, host)) (onSource (Source.payload p.site))
          (fun _ => p.Resourced host.memory owned) fun _ => p.Resourced host.memory owned :=
        (replacement_owns p).before fun st h => h ▸ ⟨rfl, howns.since⟩
      have habsent : p.saved = none := by
        rwa [isInstalled, Bool.not_eq_true, Option.isSome_eq_false_iff,
          Option.isNone_iff_eq_none] at hnew
      refine .bind (Q := fun bytes st => p.replacement host = .ok bytes ∧
        p.Resourced host.memory owned st) ?_ fun bytes => ?_
      · exact hreplacement.recorded.weaken (fun _ h => h) (fun _ _ h => h) fun _ _ h => h.2.stays
      · split
        · -- A replacement without bytes is noted and not written.
          exact .log fun st h => .inl h.2.stays
        · refine .pointwise fun st ⟨hbytes, hst⟩ => ?_
          refine (writeReplacement_writes st.2.memory st.1 bytes).weaken
            (fun st' h => h ▸ ⟨rfl, .refl _⟩) (fun _ st' h => .inr ?_) fun _ st' h => ?_
          · exact ⟨habsent, bytes, hbytes, hst.stays.lands h.1 h.2⟩
          · exact hst.stays.same h.1 h.2

/-- A patch that is uninstalled puts back what it replaced, and is the same in all else.
    It stays as it is if it is not installed, and if the bytes cannot be written. -/
theorem uninstall_clears (p : Patch) (host : Host) :
    Triple (fun st => st = (p, host)) uninstall
      (fun _ st => ∃ saved, p.saved = some saved ∧ st.1 = { p with saved := none } ∧
        (host.memory.write p.site.toNat saved).Same st.2.memory)
      fun _ st => st.1 = p ∧ host.memory.Same st.2.memory := by
  cases hsaved : p.saved with
  | none =>
      unfold uninstall
      refine .bind_known (a := p) (fun _ h => h ▸ rfl) ?_
      rw [hsaved]
      refine .fail fun st h => ?_
      rw [h]
      exact ⟨rfl, .refl _⟩
  | some saved =>
      -- The saved bytes land as a whole, or the write fails and changes nothing.
      exact (uninstall_writes host.memory hsaved).weaken (fun st h => h ▸ ⟨rfl, .refl _⟩)
        (fun _ st h => ⟨saved, rfl, h⟩) fun _ st h => h

theorem uninstall_lifts (p : Patch) (host : Host) :
    Triple (fun st => st = (p, host)) uninstall
      (fun _ st => ∃ saved, p.saved = some saved ∧ p.Lifts host.memory saved st)
      fun _ st => p.Stays host.memory st := by
  refine (p.uninstall_clears host).weaken (fun _ h => h) (fun _ st h => ?_) fun _ st h => ?_
  · rcases h with ⟨saved, hsaved, hpatch, hsame⟩
    exact ⟨saved, hsaved, hpatch ▸ rfl, hsame.contents⟩
  · exact ⟨h.1 ▸ rfl, h.1 ▸ rfl, fun a _ => h.2.contents ▸ rfl⟩

end Patch

/-- Giving back a region leaves contents as they are. -/
theorem Region.release_calm (r : Region) (c : Nat → UInt8) :
    Triple (fun host : Host => host.memory.contents = c) r.release
      (fun _ host => host.memory.contents = c) fun _ _ => False := by
  unfold release
  split
  · exact .ret fun _ h => h
  · -- Unmapping takes extents away, and no bytes.
    next base _ =>
      have hfree : Triple (fun host : Host => host.memory.contents = c) (Host.freePages base)
          (fun _ host => host.memory.contents = c) fun _ _ => False := .modify fun _ h => h
      exact .bind_log (.bind hfree fun _ => .ret fun _ h => h)

namespace Patch

theorem freeIntercept_calm (p : Patch) (c : Nat → UInt8) :
    Triple (fun host : Host => host.memory.contents = c) p.freeIntercept
      (fun _ host => host.memory.contents = c) fun _ _ => False := by
  unfold freeIntercept
  split
  · next region _ => exact .bind (region.release_calm c) fun _ => .ret fun _ h => h
  · exact .ret fun _ h => h

/-- A patch that goes away, and that can be uninstalled if it is installed, leaves
    the contents that uninstalling it leaves. -/
theorem drop_restores {p : Patch} {host : Host} {saved : List UInt8} (hsaved : p.saved = some saved)
    (hok : (uninstall (p, host)).result.isOk) :
    Triple (fun h => h = host) p.drop
      (fun _ h => h.memory.contents = (host.memory.write p.site.toNat saved).contents)
      fun _ _ => False := by
  have hinstalled : p.isInstalled = true := by
    rw [isInstalled, hsaved]
    rfl
  have hcontents : (uninstall (p, host)).state.2.memory.contents =
      (host.memory.write p.site.toNat saved).contents := by
    cases hr : (uninstall (p, host)).result with
    | error fault =>
        rw [hr] at hok
        exact absurd hok Bool.false_ne_true
    | ok a =>
        -- There is one record of what was saved, so it is what was written back.
        rcases (uninstall_lifts p host).of_ok rfl hr with ⟨saved', hsaved', hlifts⟩
        rw [hsaved, Option.some.injEq] at hsaved'
        rw [hsaved']
        exact hlifts.contents
  unfold drop
  rw [if_pos hinstalled]
  refine .bind (Q := fun result h => result.isOk ∧
    h.memory.contents = (host.memory.write p.site.toNat saved).contents) (fun h hh => ?_)
      fun result => ?_
  · rw [hh]
    exact ⟨hok, hcontents⟩
  · -- What is given back after that is the intercept, which changes no bytes.
    refine .assuming (fun _ h => h.1) fun hresult => ?_
    cases result with
    | ok _ => exact (p.freeIntercept_calm _).before fun _ h => h.2
    | error _ =>
        exact absurd hresult Bool.false_ne_true

end Patch

/-- The end of an object that is no installed patch leaves contents as they are. -/
theorem Object.drop_calm {o : Object} (ho : o.replaced? = none) (c : Nat → UInt8) :
    Triple (fun host : Host => host.memory.contents = c) o.drop
      (fun _ host => host.memory.contents = c) fun _ _ => False := by
  cases o with
  | page base length => exact .modify fun _ h => h
  | region r => exact .bind (r.release_calm c) fun _ => .ret fun _ h => h
  | resident live => exact .ret fun _ h => h
  | routine r =>
      cases r with
      | resident live => exact .ret fun _ h => h
      | owned r =>
          refine .bind (Q := fun _ host => host.memory.contents = c) ?_ fun _ => .ret fun _ h => h
          exact .bind (r.release_calm c) fun _ => .ret fun _ h => h
  | trampoline t => exact .bind (t.region.release_calm c) fun _ => .ret fun _ h => h
  | patch p =>
      -- A patch that replaced nothing is not installed, so it puts nothing back.
      have hnew : ¬ p.isInstalled = true := by
        rw [replaced?, Option.map_eq_none_iff] at ho
        rw [Patch.isInstalled, ho]
        exact Bool.false_ne_true
      unfold drop Patch.drop
      simp only [if_neg hnew]
      exact p.freeIntercept_calm c

end Hotpatch
