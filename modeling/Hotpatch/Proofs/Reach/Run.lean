import Hotpatch.Proofs.Reach.Landing
import Hotpatch.Proofs.Resolving.Run

/-!
# Installed Branches Land

A branch that a session installs is a branch to the target of its patch: what is read
back at the patched address leads to the address that the patch answers when it is asked
for its target, before and after. It does not matter how the target was named. A known
address and an object are an address from the beginning on, and an intercept becomes one
when it is generated.

A branch can be a wrong one in another way, if there is no code at its target. So a patch
is not even made with a branch to zero, or to an object whose memory was released.

## Main definitions

* `Object.StandsAt`: Where an object is as a place to branch to.
* `Session.Landed`: What a session is after a patch with a branch was installed.
* `Session.MakesBranches`: Which branches are made, and where they lead.

## Theorems

* `step_undesigned`, `exists_source_of_made`: Designs that are refused, and others.
* `makesBranches`: Branches are made to where there is code.
* `Accounted.landed`: A branch that is installed.
* `lands_of_run`: Branches in the run of a session.
-/

namespace Hotpatch

/-- Where an object stands as a place to branch to. Pages are no code, and memory that was
    released is nowhere. -/
def Object.StandsAt (address : Address) : Object → Prop
  | page _ _ => False
  | region r => r.base = some address
  | resident live => live.address = address
  | routine (.resident live) => live.address = address
  | routine (.owned r) => r.base = some address
  | trampoline t => t.region.base = some address
  | patch p => p.site = address

/-- The memory that holds the code of an object, live or released. -/
def Object.code? : Object → Option Region
  | region r => some r
  | routine r => r.region?
  | trampoline t => some t.region
  | _ => none

theorem eq_of_branchTarget {address a : Address} (h : branchTarget address = .ok a) :
    address = a := by
  unfold branchTarget at h
  split at h
  · exact absurd h nofun
  · exact Except.ok.inj h

theorem Region.base_of_liveAddress {r : Region} {a : Address} (h : r.liveAddress = .ok a) :
    r.base = some a := by
  rcases r with ⟨_ | base, size⟩
  · exact absurd h nofun
  · exact congrArg some (Except.ok.inj h)

theorem Object.standsAt_of_branchTarget {o : Object} {a : Address}
    (h : o.branchTarget = some (.ok a)) : o.StandsAt a := by
  cases o with
  | page base length => exact absurd h nofun
  | region r => exact Region.base_of_liveAddress (Option.some.inj h)
  | resident live => exact eq_of_branchTarget (Option.some.inj h)
  | routine r =>
      cases r with
      | resident live => exact eq_of_branchTarget (Option.some.inj h)
      | owned r => exact Region.base_of_liveAddress (Option.some.inj h)
  | trampoline t => exact Region.base_of_liveAddress (Option.some.inj h)
  | patch p => exact eq_of_branchTarget (Option.some.inj h)

/-- An object is no place to branch to after its memory was released. -/
theorem Object.branchTarget_of_released {o : Object} {r : Region} (hcode : o.code? = some r)
    (hreleased : r.base = none) : o.branchTarget = some (.error (.released r.size)) := by
  have hlive : r.liveAddress = .error (.released r.size) := by
    rw [Region.liveAddress, hreleased]
  have hnone : o.code? ≠ none := fun h => Option.some_ne_none r (hcode.symm.trans h)
  cases o with
  | region r' =>
      rw [← Option.some.inj hcode] at hlive ⊢
      exact congrArg some hlive
  | routine r' =>
      cases r' with
      | resident live =>
          -- What is resident has no memory of its own.
          exact absurd rfl hnone
      | owned r' =>
          rw [← Option.some.inj hcode] at hlive ⊢
          exact congrArg some hlive
  | trampoline t =>
      rw [← Option.some.inj hcode] at hlive ⊢
      exact congrArg some hlive
  | _ => exact absurd rfl hnone

namespace Session

open Hotpatch.Action

variable {floor : Nat} {kept : String → Option (Address × List UInt8) → Prop}
  {owned : List Extent} {s : Session} {id : String} {p : Patch} {kind : Branch}
  {target : Target} {address : Address}

/-- What a session is after a patch with a branch was installed. -/
structure Landed (s s' : Session) (id : String) (p : Patch) (kind : Branch) (address : Address) :
    Prop where
  /-- The address is the target of the patch. It would have been if it had been asked for
      before, and nothing is done to find it now. -/
  target : (s.step (.target id)).2.result = .ok (.address address) ∧
    s'.step (.target id) = (s', ⟨.ok (.address address), []⟩)
  branch : s'.host.memory.BranchesTo p.site kind address
  /-- Beside the branch all that was mapped is as it was. -/
  others : ∀ a, s.host.memory.Mapped a →
    a < p.site.toNat ∨ p.site.toNat + Branch.size ≤ a →
      s'.host.memory.Mapped a ∧ s'.host.memory.contents a = s.host.memory.contents a
  /-- The patch keeps the bytes that the branch covers. They are what stands there when the
      target is known, which is what was there, or an intercept in new memory. -/
  original : (∃ q, s'.patch? id = some q ∧
      q.saved = some ((s.step (.target id)).1.host.memory.read p.site.toNat Branch.size)) ∧
    ∀ a, s.host.memory.Mapped a →
      (s.step (.target id)).1.host.memory.contents a = s.host.memory.contents a

/-- Which branches are made, and where they lead. -/
structure MakesBranches (s : Session) : Prop where
  /-- There is no code at zero. -/
  null : ∀ id kind site unprotected,
    s.step (.patch id (.branchTo kind 0) site unprotected) =
      (s, ⟨.error (.nullAddress "branch target"), []⟩)
  /-- There is no code in memory that was released. -/
  released : ∀ id kind other site unprotected o r, s.get? other = some o → o.code? = some r →
    r.base = none → s.step (.patch id (.branchToObject kind other) site unprotected) =
      (s, ⟨.error (.released r.size), []⟩)
  known : ∀ id kind target site unprotected a,
    (s.step (.patch id (.branchTo kind target) site unprotected)).2.result = .ok (.address a) →
      target ≠ 0 ∧ (s.step (.patch id (.branchTo kind target) site unprotected)).1.patch? id =
        some ⟨a, .branch kind (.fixed target), none, unprotected⟩
  existing : ∀ id kind other site unprotected a,
    (s.step (.patch id (.branchToObject kind other) site unprotected)).2.result =
      .ok (.address a) → ∃ o target, s.get? other = some o ∧ o.StandsAt target ∧ target ≠ 0 ∧
        (s.step (.patch id (.branchToObject kind other) site unprotected)).1.patch? id =
          some ⟨a, .branch kind (.fixed target), none, unprotected⟩
  intercept : ∀ id kind program site unprotected a,
    (s.step (.patch id (.branchInto kind program) site unprotected)).2.result =
      .ok (.address a) → (s.step (.patch id (.branchInto kind program) site unprotected)).1.patch?
        id = some ⟨a, .branch kind (.pending program), none, unprotected⟩

/-- A design that is refused is answered with its fault, and nothing is done. -/
theorem step_undesigned {design : Design} {fault : Fault}
    (hdesign : s.source design = some (.error fault)) (site : Site) (unprotected : Bool) :
    s.step (.patch id design site unprotected) = (s, ⟨.error fault, []⟩) := by
  have hfound : (Action.gets (fun s : Session => s.source design) s).result =
      .ok (some (.error fault)) := congrArg Except.ok hdesign
  have hperform : perform (.patch id design site unprotected) s = _ := bind_ok hfound
  exact congrArg (fun o => (o.state, (⟨o.result, o.trace⟩ : Reply))) hperform

/-- A patch that is made writes what was designed. -/
theorem exists_source_of_made {design : Design} {site : Site} {unprotected : Bool} {a : Address}
    (hmade : (s.step (.patch id design site unprotected)).2.result = .ok (.address a)) :
    ∃ source, s.source design = some (.ok source) ∧
      (s.step (.patch id design site unprotected)).1.patch? id =
        some ⟨a, source, none, unprotected⟩ := by
  rcases hdesign : s.source design with _ | fault | source
  · -- A design that names no object is not even looked at.
    have hfound : (Action.gets (fun s : Session => s.source design) s).result = .ok none :=
      congrArg Except.ok hdesign
    have hperform : perform (.patch id design site unprotected) s = _ := bind_ok hfound
    have hresult : (s.step (.patch id design site unprotected)).2.result = .ok .refused :=
      congrArg Outcome.result hperform
    exact absurd (hresult.symm.trans hmade) nofun
  · -- One that is refused makes no patch.
    rw [step_undesigned hdesign] at hmade
    exact absurd hmade nofun
  · exact ⟨source, rfl, (step_made hdesign hmade).1⟩

theorem makesBranches (s : Session) : s.MakesBranches where
  null id kind site unprotected := step_undesigned rfl site unprotected
  released id kind other site unprotected o r ho hcode hreleased := by
    refine step_undesigned ?_ site unprotected
    -- The object is found, but has no address to give.
    have htarget : (s.get? other).bind Object.branchTarget = some (.error (.released r.size)) := by
      rw [ho]
      exact Object.branchTarget_of_released hcode hreleased
    simp only [source, htarget]
    rfl
  known id kind target site unprotected a hmade := by
    rcases exists_source_of_made hmade with ⟨source, hdesign, hpatch⟩
    rcases ofAddress_map_eq_ok (Option.some.inj hdesign) with ⟨hne, rfl⟩
    exact ⟨hne, hpatch⟩
  existing id kind other site unprotected a hmade := by
    rcases exists_source_of_made hmade with ⟨source, hdesign, hpatch⟩
    rcases Option.bind_eq_some_iff.mp hdesign with ⟨result, hresult, hmap⟩
    rcases Option.bind_eq_some_iff.mp hresult with ⟨o, ho, htarget⟩
    rcases result with fault | target
    · exact absurd (Option.some.inj hmap) nofun
    · -- The address is looked at once more, as if it had been given.
      rcases ofAddress_map_eq_ok (Option.some.inj hmap) with ⟨hne, rfl⟩
      exact ⟨o, target, ho, Object.standsAt_of_branchTarget htarget, hne, hpatch⟩
  intercept id kind program site unprotected a hmade := (step_branchInto hmade).1

/-- A patch with a branch that is installed lands, in any session where all is accounted
    for. -/
theorem Accounted.landed (hs : s.Accounted floor kept owned) (haligned : s.host.memory.Aligned)
    (hp : s.patch? id = some p) (hnew : p.isInstalled = false)
    (hsource : p.source = .branch kind target)
    (hdone : (s.step (.install id)).2.result = .ok .done) :
    ∃ address, s.Landed (s.step (.install id)).1 id p kind address := by
  have hintact := Target.resolve_intact kind target hs.owns.orderly haligned
  rw [step_install_eq hp] at hdone ⊢
  cases hresult : (Patch.install (p, s.host)).result with
  | error fault =>
      rw [hresult] at hdone
      exact absurd hdone nofun
  | ok _ =>
      have hinstalled := (Patch.install_branch hnew hsource).of_ok rfl hresult
      generalize (Patch.install (p, s.host)).state = st at hinstalled ⊢
      rcases st with ⟨q, host⟩
      rcases hinstalled with ⟨address, bytes, hresolved, hencode, rfl, hsame⟩
      have hlength : bytes.length = Branch.size := (reads_branch hencode).1
      -- To ask for the target would have left the memory that the branch is written over.
      have hmemory : (s.step (.target id)).1.host.memory =
          (Target.resolve kind (target, s.host)).state.2.memory := by
        rw [step_target_eq hp, (Patch.target_branch s.host hsource).2]
      have hagain := Target.resolve_again hresolved host
      -- What follows the write changes protections only, so the bytes are read back.
      have hread : host.memory.read p.site.toNat Branch.size = bytes := by
        rw [← hlength]
        exact (Memory.read_congr fun i _ => congrFun hsame.contents _).trans
          (Memory.read_write _ _ bytes)
      refine ⟨address, ⟨?_, ?_⟩, Branch.branchesTo_of_encode hencode hread,
        fun a ha hout => ?_, ⟨_, patch?_insert_self _, ?_⟩, fun a ha => ?_⟩
      · rw [step_target_eq hp, (Patch.target_branch s.host hsource).1, hresolved]
        rfl
      · exact step_target_known (patch?_insert_self _) (Patch.target_of_resolve rfl hagain)
      · exact hintact.beside_write hs.owns.orderly hsame ha (by rwa [hlength])
      · rw [hmemory]
      · -- An intercept is generated into new pages, above all that was mapped.
        rw [hmemory]
        exact hintact.contents a (hs.owns.orderly.lt_next ha)

/-- Every patch with a branch that is installed in the run of a session lands on its
    target, be that known from the start or an intercept that is generated for it. And
    branches are made only to where there is code. -/
theorem lands_of_run (loader : Loader) (commands : List Command) {s : Session}
    (hs : s = ((start loader).run commands).1) {id : String} {p : Patch} {kind : Branch}
    {target : Target} (hp : s.patch? id = some p) (hnew : p.isInstalled = false)
    (hsource : p.source = .branch kind target)
    (hdone : (s.step (.install id)).2.result = .ok .done) :
    (∃ address, s.Landed (s.step (.install id)).1 id p kind address) ∧
      ∀ s : Session, s.MakesBranches := by
  have haccounted := run_accounted commands (start_accounted loader)
  have haligned := run_aligned commands (start_aligned loader)
  rw [← hs] at haccounted haligned
  exact ⟨haccounted.landed haligned hp hnew hsource hdone, makesBranches⟩

/-- A hook in a page of code that is not writable. -/
def hookedPage : List Command :=
  [.mapPages "page" 16 .readExecute,
    .patch "hook" (.branchInto .jump (.step (.plain .ret))) (.absolute 0x10000004) true]

set_option maxRecDepth 4000 in
/-- The hook leads to its intercept, which was generated behind the page. -/
theorem lands_of_hookedPage :
    (((start ⟨[], []⟩).run hookedPage).1.step (.install "hook")).2.result = .ok .done ∧
      (((start ⟨[], []⟩).run hookedPage).1.step (.install "hook")).1.host.memory.BranchesTo
        0x10000004 .jump 0x10002000 := by
  have hdone : (((start ⟨[], []⟩).run hookedPage).1.step (.install "hook")).2.result =
      .ok .done := by rfl
  have htarget : ((((start ⟨[], []⟩).run hookedPage).1.step (.install "hook")).1.step
      (.target "hook")).2.result = .ok (.address 0x10002000) := by rfl
  rcases (lands_of_run ⟨[], []⟩ hookedPage rfl rfl rfl rfl hdone).1 with ⟨address, hlanded⟩
  rw [hlanded.target.2] at htarget
  have haddress : address = 0x10002000 := Answer.address.inj (Except.ok.inj htarget)
  rw [← haddress]
  exact ⟨hdone, hlanded.branch⟩

end Session

end Hotpatch
