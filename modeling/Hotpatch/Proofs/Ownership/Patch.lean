import Hotpatch.Proofs.Ownership.Region
import Hotpatch.Proofs.Patching.Writes

/-!
# Ownership Of Intercepts

A patch owns the memory of its intercept from the moment that it is generated.
Generating it is the only thing a patch does to the account while it lives. It
happens when the address of the target is first needed, also if the patch then
fails, and the patch is left with the intercept in that case too.

When a patch goes away its intercept leaves the account, unless the patch is
installed and cannot be uninstalled. Then the branch to the intercept is still
live, and what the patch owned is owned by nobody from then on.

## Main definitions

* `Patch.extents`: What a patch owns.
* `Patch.leaks`: What stays mapped when a patch goes away.

## Theorems

* `resolve_owns`, `payload_owns`: The target of a branch.
* `install_owns`, `uninstall_owns`, `target_owns`: The life of a patch.
* `drop_owns`: The end of a patch.
-/

namespace Hotpatch

open Hotpatch.Action

def Target.extents (t : Target) : List Extent :=
  match t.memory? with
  | some region => region.extents
  | none => []

def Source.extents : Source → List Extent
  | .branch _ target => target.extents
  | _ => []

def Patch.extents (p : Patch) : List Extent :=
  p.source.extents

variable {origin : Memory} {floor : Nat} {owned : List Extent}

/-- An intercept that is generated enters the account together with its target. -/
theorem Target.resolve_owns (kind : Branch) :
    Preserves (fun st : Target × Host => st.2.OwnsSince origin (st.1.extents ++ owned))
      (Target.resolve kind) := by
  unfold resolve
  refine .bind_gets fun target => ?_
  split
  · exact .ofExcept (fun _ _ _ h => h.1) fun _ _ _ h => h.1
  · exact .ofExcept (fun _ _ _ h => h.1) fun _ _ _ h => h.1
  · -- A pending intercept owns nothing, whether generating it fails or not; between
    -- the two actions the new region is owned by no target yet.
    next code =>
      refine .bind (Q := fun r st => (∃ code, st.1 = .intercept code none) ∧
        st.2.OwnsSince origin (r.extents ++ owned)) ?_ fun r => ?_
      · refine .within fun st h => ?_
        refine Region.generate_owns.weaken (fun part hpart => ?_)
          (fun _ part hpart => ⟨⟨part.1, rfl⟩, hpart⟩) fun _ _ hpart => hpart
        -- The code is run beside the host, and the account is that of the host alone.
        have howns := h.1
        rw [show st.1 = _ from h.2] at howns
        rw [hpart]
        exact howns
      · -- The target takes the region over, and with it its part of the account.
        refine .bind_log (.bind_modify (.ret fun _ h => h) fun st h => ?_)
        rcases h with ⟨⟨code, hcode⟩, howns⟩
        simp only [hcode]
        exact howns

/-- The target of a branch, resolved in its place. -/
theorem Source.branch_owns (kind : Branch) (target : Target) :
    Triple (fun st : Source × Host => st.2.OwnsSince origin (target.extents ++ owned))
      ((Target.resolve kind).within (fun st => (target, st.2))
        fun _ part => (.branch kind part.1, part.2))
      (fun _ st => st.2.OwnsSince origin (st.1.extents ++ owned))
      fun _ st => st.2.OwnsSince origin (st.1.extents ++ owned) := by
  refine .within fun st h => ?_
  refine (Target.resolve_owns kind).weaken (fun part hpart => ?_) (fun _ _ hpart => hpart)
    fun _ _ hpart => hpart
  rw [hpart]
  exact h

/-- What a patch is to write costs no more than the intercept it may lead to. -/
theorem Source.payload_owns (site : Address) :
    Preserves (fun st : Source × Host => st.2.OwnsSince origin (st.1.extents ++ owned))
      (Source.payload site) := by
  unfold payload
  refine .bind_gets fun source => ?_
  split
  · exact .ret fun _ h => h.1
  · -- Code that is generated in place allocates nothing.
    refine .within fun st h => ?_
    have howns := h.1
    rw [show st.1 = _ from h.2] at howns
    intro code _
    split <;> exact howns
  · next kind target =>
      refine .bind (Q := fun _ st => st.2.OwnsSince origin (st.1.extents ++ owned)) ?_ fun _ =>
        .ofExcept (fun _ _ _ h => h) fun _ _ _ h => h
      -- A target that was found is kept even if no branch to it can be encoded.
      refine (branch_owns kind target).before fun st h => ?_
      have howns := h.1
      rw [show st.1 = _ from h.2] at howns
      exact howns

namespace Patch

/-- The state of a patch and a host after something was done to the source of
    the patch. The rest of the patch is as it was. -/
def Resourced (origin : Memory) (owned : List Extent) (p : Patch) (st : Patch × Host) : Prop :=
  ∃ source, st.1 = { p with source } ∧ st.2.OwnsSince origin (source.extents ++ owned)

/-- What a patch does to its source costs what it costs the source. -/
theorem onSource_owns {α : Type} {act : Action (Source × Host) α} (p : Patch)
    (h : Triple (fun st => st.1 = p.source ∧ st.2.OwnsSince origin (st.1.extents ++ owned)) act
      (fun _ st => st.2.OwnsSince origin (st.1.extents ++ owned))
      fun _ st => st.2.OwnsSince origin (st.1.extents ++ owned)) :
    Triple (fun st : Patch × Host => st.1 = p ∧ st.2.OwnsSince origin (p.extents ++ owned))
      (onSource act) (fun _ => Resourced origin owned p) fun _ => Resourced origin owned p := by
  refine .within fun st hst => ?_
  rw [hst.1]
  refine h.weaken (fun part hpart => ?_) (fun _ part hpart => ⟨part.1, rfl, hpart⟩)
    fun _ part hpart => ⟨part.1, rfl, hpart⟩
  rw [hpart]
  exact ⟨rfl, hst.2⟩

/-- An account of a host, and of the patch on it. -/
def Accounted (floor : Nat) (owned : List Extent) (st : Patch × Host) : Prop :=
  st.2.Owns floor (st.1.extents ++ owned)

theorem Resourced.accounted {p : Patch} {st : Patch × Host} (h : Resourced origin owned p st)
    (hfloor : floor ≤ origin.next) : Accounted floor owned st := by
  rcases h with ⟨source, hpatch, howns⟩
  rw [Accounted, hpatch]
  exact howns.owns hfloor

/-- What a patch is to write, found before anything of it is written. -/
theorem replacement_owns (p : Patch) :
    Triple (fun st : Patch × Host => st.1 = p ∧ st.2.OwnsSince origin (p.extents ++ owned))
      (onSource (Source.payload p.site)) (fun _ => Resourced origin owned p)
      fun _ => Resourced origin owned p := by
  refine onSource_owns p ?_
  exact Triple.before (Source.payload_owns p.site) fun _ h => h.2

/-- Neither the write of a patch nor what it keeps of it is a matter of the
    account. -/
theorem writeReplacement_owns (bytes : List UInt8) :
    Preserves (Accounted floor owned) (writeReplacement bytes) := by
  refine .pointwise fun st howns => ?_
  refine (writeReplacement_writes st.2.memory st.1 bytes).weaken ?_ ?_ ?_
  · intro st' hst
    rw [hst]
    exact ⟨rfl, .refl _⟩
  · -- Of the patch only what it keeps has changed, and that is no memory.
    rintro _ st' ⟨hpatch, hsame⟩
    rw [Accounted, hpatch]
    exact howns.written hsame
  · rintro _ st' ⟨hpatch, hsame⟩
    rw [Accounted, hpatch]
    exact howns.same hsame

theorem install_owns : Preserves (Accounted floor owned) install := by
  refine .pointwise fun st howns => ?_
  unfold install
  refine .bind_known (a := st.1) (fun _ h => h ▸ rfl) ?_
  split
  · refine .ret fun st' h => ?_
    rw [h]
    exact howns
  · refine .bind (Q := fun _ => Accounted floor owned) ?_ fun bytes => ?_
    · -- The account is kept since now, so that what is generated is known to be younger.
      have hreplacement : Triple (fun st' : Patch × Host => st'.1 = st.1 ∧
          st'.2.OwnsSince st.2.memory (st.1.extents ++ owned)) _ _ _ := replacement_owns st.1
      refine hreplacement.weaken (fun st' h => ?_) (fun _ _ h => h.accounted howns.later)
        fun _ _ h => h.accounted howns.later
      rw [h]
      exact ⟨rfl, howns.since⟩
    · split
      · exact .log fun _ h => h
      · exact writeReplacement_owns bytes

/-- Uninstalling a patch leaves it with the intercept that it had. -/
theorem uninstall_owns (p : Patch) :
    Triple (fun st : Patch × Host => st.1 = p ∧ Accounted floor owned st) uninstall
      (fun _ st => st.1.extents = p.extents ∧ Accounted floor owned st)
      fun _ st => st.1.extents = p.extents ∧ Accounted floor owned st := by
  refine .pointwise fun st ⟨hp, howns⟩ => ?_
  rw [← hp]
  cases hsaved : st.1.saved with
  | none =>
      -- A patch that is not installed is refused.
      unfold uninstall
      refine .bind_known (a := st.1) (fun _ h => h ▸ rfl) ?_
      rw [hsaved]
      refine .fail fun st' h => ?_
      rw [h]
      exact ⟨rfl, howns⟩
  | some saved =>
      -- What was saved is written back, and a write is no matter of the account.
      refine (uninstall_writes st.2.memory hsaved).weaken ?_ ?_ ?_
      · intro st' hst
        rw [hst]
        exact ⟨rfl, .refl _⟩
      · rintro _ st' ⟨hpatch, hsame⟩
        rw [Accounted, hpatch]
        exact ⟨rfl, howns.written hsame⟩
      · rintro _ st' ⟨hpatch, hsame⟩
        rw [Accounted, hpatch]
        exact ⟨rfl, howns.same hsame⟩

theorem target_owns (p : Patch) :
    Triple (fun st : Patch × Host => st.1 = p ∧ st.2.OwnsSince origin (p.extents ++ owned))
      target (fun _ => Resourced origin owned p) fun _ => Resourced origin owned p := by
  unfold target
  refine .bind_gets fun source => ?_
  split
  · next kind target =>
      refine .bind (Q := fun _ => Resourced origin owned p) ?_ fun _ => .ret fun _ h => h
      -- The source that was looked up is that of the patch, so its target is resolved in place.
      refine .assuming (fun _ h => h.1.1 ▸ h.2) fun (hsource : p.source = .branch kind target) => ?_
      refine (onSource_owns p ?_).before fun _ h => h.1
      refine (Source.branch_owns kind target).before fun st h => ?_
      have howns := h.2
      rw [h.1, hsource] at howns
      exact howns
  · exact .ret fun st h => ⟨p.source, h.1.1, h.1.2⟩

/-- What a patch leaves mapped when it goes away: the intercept of a branch that
    is live and cannot be removed. -/
def leaks (p : Patch) (host : Host) : List Extent :=
  if p.isInstalled ∧ (uninstall (p, host)).result.isOk = false then p.extents else []

/-- The memory of the intercept is what a patch owns. -/
theorem extents_eq_intercept (p : Patch) :
    p.extents = (p.intercept?.map Region.extents).getD [] := by
  unfold extents intercept?
  cases p.source with
  | literal _ => rfl
  | inPlace _ => rfl
  | branch kind target =>
      simp only [Source.extents, Target.extents, Source.target?, Option.bind_some]
      cases target.memory? <;> rfl

theorem freeIntercept_owns (p : Patch) :
    Triple (Host.Owns floor (p.extents ++ owned)) p.freeIntercept (fun _ => Host.Owns floor owned)
      fun _ _ => False := by
  unfold freeIntercept
  rw [extents_eq_intercept]
  cases p.intercept? with
  | none => exact .ret fun _ h => h
  | some region =>
      exact .bind region.release_gone fun _ => .ret fun _ h => h.1

/-- A patch that goes away gives back its intercept, or leaves it mapped because
    its branch is live. -/
theorem drop_owns (p : Patch) (host : Host) (howns : host.Owns floor (p.extents ++ owned)) :
    Triple (fun h => h = host) p.drop (fun _ => Host.Owns floor (p.leaks host ++ owned))
      fun _ _ => False := by
  unfold drop
  split
  · next hinstalled =>
      -- The patch is lost with its end, so what counts is how its uninstalling ends.
      refine .bind (Q := fun result h => result = (uninstall (p, host)).result ∧
        h.Owns floor (p.extents ++ owned)) (fun h hh => ?_) fun result => ?_
      · rw [hh]
        refine ⟨rfl, ?_⟩
        -- Either way the intercept is the one from before, and is still in the account.
        have hkept : (uninstall (p, host)).state.1.extents = p.extents ∧
            Accounted floor owned (uninstall (p, host)).state :=
          (uninstall_owns p).after ⟨rfl, howns⟩
        have haccount := hkept.2
        rw [Accounted, hkept.1] at haccount
        exact haccount
      · refine .assuming (fun _ h => h.1) fun hresult => ?_
        have hleaks : p.leaks host = if result.isOk = false then p.extents else [] := by
          simp only [leaks, hinstalled, true_and, hresult]
        rw [hleaks]
        cases result with
        | ok _ => exact p.freeIntercept_owns.before fun _ h => h.2
        | error fault =>
            -- What was the patch's is now owned by nobody, and stays mapped.
            refine .bind_log ?_
            unfold keepIntercept
            split
            · exact .log fun _ h => h.2
            · exact .ret fun _ h => h.2
  · next hinstalled =>
      -- A patch that is not installed has no branch that could need its intercept.
      have hleaks : p.leaks host = [] := by
        rw [leaks, if_neg fun h => hinstalled h.1]
      rw [hleaks]
      refine p.freeIntercept_owns.before fun h hh => ?_
      rw [hh]
      exact howns

end Patch

end Hotpatch
