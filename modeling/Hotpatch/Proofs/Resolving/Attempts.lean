import Hotpatch.Proofs.Branching.Installing

/-!
# Attempts At An Intercept

A patch whose intercept is pending asks for it when it is installed, and when its target
is asked for. That is one attempt to generate the code, on the host as it is then, and
what the attempt leaves of the code and of the host is what is left in the end. If it
succeeds the patch has its intercept from then on, also if it cannot be installed after
all. If it fails the patch is pending still.

A patch that has its intercept asks for nothing any more. All that is done to it is to
write its branch and to take that back, and neither needs new pages.

## Main definitions

* `Patch.withSource`: A patch after an attempt.
* `Host.Frugal`: An action that asks for no pages.
* `Host.SamePages`: A host that was asked for none.

## Theorems

* `resolve_pending`, `resolve_known`: The address of a target.
* `payload_branch`, `target_branch`: What is resolved for a branch.
* `install_from`, `install_source`: What installing does to what a patch writes.
* `install_samePages`: The pages that installing asks for.
* `install_pending_failed`: A patch that cannot be installed for want of its intercept.
* `install_resolved`, `uninstall_keeps`: A patch that has its intercept.
-/

namespace Hotpatch

open Hotpatch.Action

variable {kind : Branch} {code : Code} {host : Host} {region : Region} {fault : Fault}

/-- The address of a pending target is that of what is generated for it. Whatever the
    attempt leaves behind, the target has what it gave. -/
theorem Target.resolve_pending (kind : Branch) (code : Code) (host : Host) :
    (resolve kind (.intercept code none, host)).result =
        (Region.generate (code, host)).result.map Region.address ∧
      (resolve kind (.intercept code none, host)).state =
        (.intercept (Region.generate (code, host)).state.1
          (Region.generate (code, host)).result.toOption,
          (Region.generate (code, host)).state.2) := by
  have hresolve : resolve kind (.intercept code none, host) = _ := bind_ok rfl
  rw [hresolve]
  dsimp only
  -- The attempt works on the code and the host alone, and ends as generating does.
  have hgenerate : ((Region.generate.within (fun state => (code, state.2))
      fun _ part => (.intercept part.1 none, part.2) : Action (Target × Host) Region)
        (.intercept code none, host)).result = (Region.generate (code, host)).result := rfl
  cases hresult : (Region.generate (code, host)).result with
  | error fault =>
      have hstop := hgenerate.trans hresult
      exact ⟨congrArg Outcome.result (bind_error hstop), congrArg Outcome.state (bind_error hstop)⟩
  | ok region =>
      have hgo := hgenerate.trans hresult
      exact ⟨congrArg Outcome.result (bind_ok hgo), congrArg Outcome.state (bind_ok hgo)⟩

/-- The address of a live intercept is known. -/
theorem Target.resolve_known (hlive : region.isReleased = false) :
    resolve kind (.intercept code (some region), host) =
      ⟨.ok region.address, (.intercept code (some region), host), []⟩ := by
  rcases region with ⟨_ | base, size⟩
  · exact absurd hlive.symm Bool.false_ne_true
  · rfl

/-- What a branch is written as is its target, resolved and then encoded. -/
theorem Source.payload_branch (site : Address) (kind : Branch) (target : Target) (host : Host) :
    (payload site (.branch kind target, host)).result =
        (Target.resolve kind (target, host)).result.bind (kind.encode · site false) ∧
      (payload site (.branch kind target, host)).state =
        (.branch kind (Target.resolve kind (target, host)).state.1,
          (Target.resolve kind (target, host)).state.2) := by
  have hpayload : payload site (.branch kind target, host) = _ := bind_ok rfl
  rw [hpayload]
  dsimp only
  rw [bind_ofExcept]
  exact ⟨rfl, rfl⟩

namespace Patch

variable {p : Patch} {n : Nat}

/-- A patch that writes something else, as an attempt at its intercept left it. -/
def withSource (p : Patch) (source : Source) : Patch :=
  { p with source }

/-- The target of a branch is resolved in its place. -/
theorem target_branch (host : Host) {target : Target} (hsource : p.source = .branch kind target) :
    (Patch.target (p, host)).result = (Target.resolve kind (target, host)).result.map some ∧
      (Patch.target (p, host)).state =
        (p.withSource (.branch kind (Target.resolve kind (target, host)).state.1),
          (Target.resolve kind (target, host)).state.2) := by
  rcases p with ⟨site, source, saved, unprotected⟩
  subst hsource
  have htarget : Patch.target (⟨site, .branch kind target, saved, unprotected⟩, host) = _ :=
    bind_ok rfl
  rw [htarget]
  dsimp only
  rw [map_eq]
  exact ⟨rfl, rfl⟩

/-- To install a patch that is not installed is to write what its source gives, if that
    is anything. -/
theorem install_from {Q : Unit → Patch × Host → Prop} {E : Fault → Patch × Host → Prop}
    (hnew : p.isInstalled = false)
    (hwrite : ∀ bytes, (Source.payload p.site (p.source, host)).result = .ok bytes →
      Triple (fun st => st = (p.withSource (Source.payload p.site (p.source, host)).state.1,
          (Source.payload p.site (p.source, host)).state.2))
        (if bytes.isEmpty then Action.log (.nothingToWrite p.site) else writeReplacement bytes) Q E)
    (hfault : ∀ fault, (Source.payload p.site (p.source, host)).result = .error fault →
      E fault (p.withSource (Source.payload p.site (p.source, host)).state.1,
        (Source.payload p.site (p.source, host)).state.2)) :
    Triple (fun st => st = (p, host)) install Q E := by
  unfold install
  refine .bind_known (a := p) (fun _ h => h ▸ rfl) ?_
  rw [if_neg (by rw [hnew]; exact Bool.false_ne_true)]
  refine .bind (Q := fun bytes st => (Source.payload p.site (p.source, host)).result = .ok bytes ∧
    st = (p.withSource (Source.payload p.site (p.source, host)).state.1,
      (Source.payload p.site (p.source, host)).state.2)) ?_ fun bytes => ?_
  · -- The source is asked first, and may fail to give anything.
    refine .within fun st h part hpart => ?_
    rw [hpart, h]
    split
    · next hok => exact ⟨hok, rfl⟩
    · next hstop => exact hfault _ hstop
  · refine .assuming (fun _ h => h.1) fun hbytes => ?_
    exact (hwrite bytes hbytes).before fun _ h => h.2

/-- Nothing but its source decides what a patch writes, and that is not changed by
    writing it. -/
theorem install_source (host : Host) (hnew : p.isInstalled = false) :
    (install (p, host)).state.1.source = (Source.payload p.site (p.source, host)).state.1 := by
  have hends : Triple (fun st => st = (p, host)) install
      (fun _ st => st.1.source = (Source.payload p.site (p.source, host)).state.1)
      fun _ st => st.1.source = (Source.payload p.site (p.source, host)).state.1 := by
    refine install_from hnew (fun bytes _ => ?_) fun _ _ => rfl
    split
    · exact .log fun st h => h ▸ rfl
    · -- To write the bytes changes whether the patch is installed, but not its source.
      refine .pointwise fun st h => ?_
      have hwrites := writeReplacement_writes st.2.memory st.1 bytes
      refine hwrites.weaken (fun _ h' => h' ▸ ⟨rfl, .refl _⟩) (fun _ _ h' => ?_) fun _ _ h' => ?_
      · rw [h'.1, h]
        rfl
      · rw [h'.1, h]
        rfl
  exact hends.after rfl

/-- A patch cannot be installed for want of its intercept. Then nothing was done but the
    attempt. -/
theorem install_pending_failed (hnew : p.isInstalled = false)
    (hsource : p.source = .branch kind (.intercept code none))
    (hfault : (Region.generate (code, host)).result = .error fault) :
    (install (p, host)).result = .error fault ∧ (install (p, host)).state =
      (p.withSource (.branch kind (.intercept (Region.generate (code, host)).state.1 none)),
        (Region.generate (code, host)).state.2) := by
  rcases Target.resolve_pending kind code host with ⟨hresult, hstate⟩
  rcases Source.payload_branch p.site kind (.intercept code none) host with ⟨hpayload, hafter⟩
  rw [← hsource] at hpayload hafter
  rw [hstate, hfault] at hafter
  rw [hresult, hfault] at hpayload
  have hends : Triple (fun st => st = (p, host)) install (fun _ _ => False) fun fault' st =>
      fault' = fault ∧ st =
        (p.withSource (.branch kind (.intercept (Region.generate (code, host)).state.1 none)),
          (Region.generate (code, host)).state.2) := by
    refine install_from hnew (fun bytes hbytes => ?_) fun fault' hfault' => ⟨?_, ?_⟩
    · -- A source that failed gave no bytes to write.
      exact absurd (hpayload.symm.trans hbytes) nofun
    · exact Except.error.inj (hfault'.symm.trans hpayload)
    · rw [hafter]
      rfl
  have hend := hends (p, host) rfl
  split at hend
  · exact hend.elim
  · next hstop => exact ⟨hstop.trans (congrArg _ hend.1), hend.2⟩

end Patch

/-- An action that asks for no pages: it uses up no failure that is arranged for the next
    request of pages. -/
def Host.Frugal {α : Type} (act : Action Host α) : Prop :=
  ∀ n, Preserves (fun host => host.failingAllocations = n) act

namespace Host

variable {ρ α : Type}

theorem Frugal.onSecond {act : Action Host α} (h : Frugal act) (n : Nat) :
    Preserves (fun st : ρ × Host => st.2.failingAllocations = n) act.onSecond :=
  Triple.onSecond (h n)

theorem installBarrier_frugal (barrier : Option Barrier) : Frugal (installBarrier barrier) := by
  intro n
  refine .bind (.gets _) fun previous => ?_
  refine .bind (.modify fun _ h => h) fun _ => ?_
  exact .ret _

theorem emit_frugal (event : Event) : Frugal (Action.emit event) := by
  intro _
  exact Triple.emit fun _ h => h

theorem callBarrier_frugal (barrier : Barrier) (side : Side) (address : Address) (length : Nat) :
    Frugal (callBarrier barrier side address length) := by
  intro n
  refine .bind (.gets _) fun seen => ?_
  refine .bind (emit_frugal _ n) fun _ => ?_
  -- The hook may install another barrier or none, and tells that it did.
  cases barrier.hook side with
  | nothing => exact .ret _
  | clear => exact .bind (installBarrier_frugal none n) fun _ => emit_frugal _ n
  | set name =>
      refine .bind (.gets _) fun found => ?_
      cases found with
      | none => exact .ret _
      | some barrier => exact .bind (installBarrier_frugal _ n) fun _ => emit_frugal _ n

theorem bracketed_frugal {act : Action Host α} (h : Frugal act) (address : Address)
    (length : Nat) : Frugal (bracketed address length act) := by
  intro n
  refine .bind (.gets _) fun barrier => ?_
  cases barrier with
  | none => exact h n
  | some barrier =>
      refine .bind (callBarrier_frugal _ _ _ _ n) fun _ => ?_
      refine .bind (.attempt (h n)) fun result => ?_
      refine .bind (callBarrier_frugal _ _ _ _ n) fun _ => ?_
      exact .ofExcept result

theorem changeProtection_frugal (address : Address) (length : Nat)
    (protection : Nat → Protection) : Frugal (changeProtection address length protection) := by
  intro n
  unfold changeProtection
  dsimp only
  split
  · exact Triple.fail_bind fun _ h => h
  · -- The schedule that is used up here is that of the protections.
    refine .bind (.gets _) fun host => ?_
    refine .bind (.modify fun _ h => h) fun _ => ?_
    split
    · exact .fail _
    · split
      · exact .modify fun _ h => h
      · exact .fail _

theorem withWritable_frugal {act : Action Host α} (h : Frugal act) (address : Address)
    (length : Nat) : Frugal (withWritable address length act) := by
  intro n
  refine .bind (.gets _) fun before => ?_
  refine .bind (changeProtection_frugal _ _ _ n) fun _ => ?_
  refine .bind (.attempt (h n)) fun result => ?_
  refine .bind (.modify fun _ h => h) fun _ => ?_
  exact .ofExcept result

theorem load_frugal (address : Address) (length : Nat) : Frugal (load address length) := by
  intro n
  unfold load
  split
  · exact .fail _
  · exact .gets _

theorem store_frugal (address : Address) (bytes : List UInt8) : Frugal (store address bytes) := by
  intro n
  unfold store
  split
  · exact .fail _
  · exact .modify fun _ h => h

end Host

theorem LiveCode.overwrite_frugal (live : LiveCode) (bytes : List UInt8) (unprotected : Bool) :
    Host.Frugal (live.overwrite bytes unprotected) := by
  intro n
  unfold overwrite
  split
  · exact .ret _
  · refine .bind (Host.emit_frugal _ n) fun _ => ?_
    refine .bind (Host.bracketed_frugal ?_ _ _ n) fun _ => .ret _
    split
    · exact Host.withWritable_frugal (Host.store_frugal _ _) _ _
    · exact Host.store_frugal _ _

namespace Patch

variable {n : Nat}

theorem put_frugal (bytes : List UInt8) :
    Preserves (fun st : Patch × Host => st.2.failingAllocations = n) (put bytes) := by
  refine .bind (.gets _) fun p => ?_
  refine .bind ((p.live.overwrite_frugal bytes p.unprotected).onSecond n) fun _ => ?_
  exact .ret _

theorem writeReplacement_frugal (bytes : List UInt8) :
    Preserves (fun st : Patch × Host => st.2.failingAllocations = n) (writeReplacement bytes) := by
  have hlog : ∀ note, Preserves (fun st : Patch × Host => st.2.failingAllocations = n)
      (Action.log note) := fun _ => Triple.log fun _ h => h
  unfold writeReplacement
  refine .bind (.gets _) fun p => ?_
  refine .bind ((Host.load_frugal _ _).onSecond n) fun covered => ?_
  refine .bind (.attempt (put_frugal bytes)) fun result => ?_
  cases result with
  | ok _ =>
      refine .bind (.modify fun _ h => h) fun _ => ?_
      exact .bind (.gets _) fun _ => hlog _
  | error fault =>
      -- What was there before is put back, which is a write as well.
      refine .bind (.attempt (put_frugal covered)) fun second => ?_
      cases second with
      | ok _ => exact .fail _
      | error _ => exact .bind (hlog _) fun _ => .fail _

theorem uninstall_frugal :
    Preserves (fun st : Patch × Host => st.2.failingAllocations = n) uninstall := by
  unfold uninstall
  refine .bind (.gets _) fun p => ?_
  split
  · exact .fail _
  · refine .bind (put_frugal _) fun _ => ?_
    refine .bind (.modify fun _ h => h) fun _ => ?_
    exact Triple.log fun _ h => h

end Patch

/-- A host that was asked for no pages, and that has those that it had. -/
structure Host.SamePages (host host' : Host) : Prop where
  extents : host'.memory.extents = host.memory.extents
  next : host'.memory.next = host.memory.next
  failing : host'.failingAllocations = host.failingAllocations

theorem Host.SamePages.refl (host : Host) : host.SamePages host :=
  ⟨rfl, rfl, rfl⟩

namespace Patch

variable {p : Patch}

/-- What is written of a patch comes without a request for pages. -/
theorem writeReplacement_samePages (p : Patch) (host : Host) (bytes : List UInt8) :
    Triple (fun st => st = (p, host)) (writeReplacement bytes)
      (fun _ st => host.SamePages st.2) fun _ st => host.SamePages st.2 := by
  have hfrugal : Triple (fun st : Patch × Host => st.2.failingAllocations =
    host.failingAllocations) _ _ _ := writeReplacement_frugal bytes
  refine ((writeReplacement_writes host.memory p bytes).both hfrugal).weaken
    (fun st h => h ▸ ⟨⟨rfl, .refl _⟩, rfl⟩) (fun _ st h => ?_) fun _ st h => ?_
  · exact ⟨h.1.2.extents, h.1.2.next, h.2⟩
  · exact ⟨h.1.2.extents, h.1.2.next, h.2⟩

/-- The only pages that installing a patch asks for are those that its source asks for. -/
theorem install_samePages (host : Host) (hnew : p.isInstalled = false) :
    (Source.payload p.site (p.source, host)).state.2.SamePages (install (p, host)).state.2 := by
  have hends : Triple (fun st => st = (p, host)) install
      (fun _ st => (Source.payload p.site (p.source, host)).state.2.SamePages st.2)
      fun _ st => (Source.payload p.site (p.source, host)).state.2.SamePages st.2 := by
    refine install_from hnew (fun bytes _ => ?_) fun _ _ => .refl _
    split
    · exact .log fun st h => h ▸ .refl _
    · exact writeReplacement_samePages _ _ bytes
  exact hends.after rfl

/-- A patch that has its intercept is installed without a request for pages, and without
    a run of the code. -/
theorem install_resolved (host : Host) (hlive : region.isReleased = false)
    (hsource : p.source = .branch kind (.intercept code (some region))) :
    Triple (fun st => st = (p, host)) install
      (fun _ st => st.1.source = p.source ∧ host.SamePages st.2)
      fun _ st => st.1.source = p.source ∧ host.SamePages st.2 := by
  cases hnew : p.isInstalled with
  | true =>
      -- An installed patch is left as it is.
      refine (install_held hnew).weaken (fun _ h => h) (fun _ st h => ?_) fun _ _ h => h.elim
      rw [h]
      exact ⟨rfl, .refl host⟩
  | false =>
      -- To resolve a target that is known changes neither the source nor the host.
      have hafter := (Source.payload_branch p.site kind (.intercept code (some region)) host).2
      rw [Target.resolve_known hlive, ← hsource] at hafter
      have hstays := install_source host hnew
      have hpages := install_samePages host hnew
      rw [hafter] at hstays hpages
      intro st hst
      rw [hst]
      split <;> exact ⟨hstays, hpages⟩

/-- A patch is uninstalled without a request for pages, and without a run of code. -/
theorem uninstall_keeps (p : Patch) (host : Host) :
    Triple (fun st => st = (p, host)) uninstall
      (fun _ st => st.1.source = p.source ∧ host.SamePages st.2)
      fun _ st => st.1.source = p.source ∧ host.SamePages st.2 := by
  have hfrugal : Triple (fun st : Patch × Host => st.2.failingAllocations =
    host.failingAllocations) _ _ _ := uninstall_frugal
  refine ((p.uninstall_clears host).both hfrugal).weaken (fun st h => ⟨h, h ▸ rfl⟩)
    (fun _ st h => ?_) fun _ st h => ?_
  · rcases h.1 with ⟨saved, -, hpatch, hsame⟩
    exact ⟨hpatch ▸ rfl, hsame.extents, hsame.next, h.2⟩
  · exact ⟨h.1.1 ▸ rfl, h.1.2.extents, h.1.2.next, h.2⟩

end Patch

end Hotpatch
