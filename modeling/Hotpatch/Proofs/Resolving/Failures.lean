import Hotpatch.Proofs.Atomicity.Commands
import Hotpatch.Proofs.Resolving.Run

/-!
# Targets After A Failure

To ask a branch for its target, and to install it, may fail at several points: the code
of the intercept fails, there are no pages for it, the branch has no displacement, the
site is null, or its protection is not lifted. What is left of the target depends on
whether the fault came before the intercept was there or after.

Before that, the patch looks as it did, and no more is mapped than there was. A pending
patch is pending still and holds no memory.

After that, only installing can fail, because to know where the intercept begins is all
that was asked for otherwise. The intercept is not thrown away then. The patch has it
until it is dropped, and leads there when it is installed at last. Its pages are all
that was added to memory.

## Main definitions

* `Patch.SameTarget`: Two patches that look the same as far as their targets go.
* `Session.TargetAfter`: What a failed command leaves of a target.

## Theorems

* `Target.resolve_leaves`: What is left of a target that was asked for.
* `step_asked`: The patch and the pages after a command that asks for a target.
* `Accounted.targetAfter`: A failed command wherever all is accounted for.
* `targetAfter_of_run`: A failed command after any commands.
-/

namespace Hotpatch

open Hotpatch.Action

variable {kind : Branch} {target : Target} {host : Host} {floor : Nat}
  {kept : String → Option (Address × List UInt8) → Prop} {owned : List Extent}

namespace Target

/-- Two targets that look the same: both are known or both are not, and they have the same
    memory. How often the code of an intercept was run is not seen. -/
structure Alike (target target' : Target) : Prop where
  resolved : target'.isResolved = target.isResolved
  memory : target'.memory? = target.memory?
  description : ∀ kind, target'.description kind = target.description kind

/-- What is left of a target that was asked for. It looks the same and no pages were added,
    or its intercept was generated into pages that were. -/
inductive Left (target : Target) (host : Host) (result : Except Fault Address)
    (target' : Target) (host' : Host) : Prop
  | same (alike : target.Alike target')
      (extents : host'.memory.extents.Perm host.memory.extents)
  | generated {code code' : Code} {region : Region} (pending : target = .intercept code none)
      (made : target' = .intercept code' (some region)) (live : region.isReleased = false)
      (known : result = .ok region.address)
      (extents : host'.memory.extents.Perm (region.extents ++ host.memory.extents))

theorem resolve_leaves (kind : Branch) (target : Target) (horderly : host.memory.Orderly)
    (haligned : host.memory.Aligned) :
    target.Left host (resolve kind (target, host)).result (resolve kind (target, host)).state.1
      (resolve kind (target, host)).state.2 := by
  cases target with
  | fixed address => exact .same ⟨rfl, rfl, fun _ => rfl⟩ (.refl _)
  | intercept code memory =>
      cases memory with
      | some region => exact .same ⟨rfl, rfl, fun _ => rfl⟩ (.refl _)
      | none =>
          -- Only here is anything done, and generating the code decides what is left.
          rcases resolve_pending kind code host with ⟨hresult, hstate⟩
          have hleaves := Region.generate_leaves code horderly haligned (code, host) rfl
          rw [hresult, hstate]
          cases hgenerated : (Region.generate (code, host)).result with
          | error fault =>
              -- The code was run, but the pages of the attempt are gone again.
              rw [hgenerated] at hleaves
              exact .same ⟨rfl, rfl, fun _ => rfl⟩ hleaves.1
          | ok region =>
              rw [hgenerated] at hleaves
              have hlive : region.isReleased = false :=
                Region.generate_live.of_ok True.intro hgenerated
              exact .generated rfl rfl hlive rfl hleaves.1

end Target

/-- Two patches that look the same as far as their targets go. -/
structure Patch.SameTarget (p q : Patch) : Prop where
  resolved : q.source.target?.map Target.isResolved = p.source.target?.map Target.isResolved
  intercept : q.intercept? = p.intercept?
  description : q.description = p.description

/-- Patches at one site look the same if their targets do. -/
theorem Target.Alike.sameTarget {p q : Patch} {target target' : Target}
    (h : target.Alike target') (hsite : q.site = p.site) (hp : p.source = .branch kind target)
    (hq : q.source = .branch kind target') : p.SameTarget q where
  resolved := by
    rw [hp, hq]
    exact congrArg some h.resolved
  intercept := by
    rw [Patch.intercept?, Patch.intercept?, hp, hq]
    exact h.memory
  description := by
    rw [Patch.description, Patch.description, hsite, hp, hq]
    exact congrArg _ (h.description kind)

namespace Session

variable {s : Session} {command : Command} {id : String} {p : Patch} {fault : Fault}

/-- What a failed command leaves of the target of a patch. -/
inductive TargetAfter (s : Session) (id : String) (p : Patch) (command : Command)
    (s' : Session) : Prop
  /-- The patch looks the same, and the same is mapped, with the same protections. -/
  | same {q : Patch} (patch : s'.patch? id = some q) (alike : p.SameTarget q)
      (extents : s'.host.memory.extents.Perm s.host.memory.extents)
      (protections : ∀ a, s'.host.memory.protectionAt a = s.host.memory.protectionAt a)
  /-- The patch was to be installed and waited for its intercept, which it has now. That is
      all that is mapped beside what was, and it is the target until the patch is dropped. -/
  | generated {q : Patch} {kind : Branch} {code code' : Code} {region : Region}
      (install : command = .install id) (pending : p.source = .branch kind (.intercept code none))
      (patch : s'.patch? id = some q)
      (made : q.source = .branch kind (.intercept code' (some region)))
      (live : region.isReleased = false)
      (description : q.description = hexadecimal p.site.toNat ++ " => " ++
        (kind.name ++ " to intercept @" ++ hexadecimal region.address.toNat))
      (extents : s'.host.memory.extents.Perm (region.extents ++ s.host.memory.extents))
      (protections : ∀ a, s.host.memory.Mapped a →
        s'.host.memory.protectionAt a = s.host.memory.protectionAt a)
      (target : ∀ more : List Command, .drop id ∉ more → (s'.run more).1.step (.target id) =
        ((s'.run more).1, ⟨.ok (.address region.address), []⟩))

/-- A command that asks for a target leaves of it, and of the pages, what was left when the
    target was resolved. -/
theorem step_asked (hp : s.patch? id = some p) (hsource : p.source = .branch kind target)
    (hasks : command.AsksFor id) (hfault : (s.step command).2.result = .error fault) :
    (∃ q, (s.step command).1.patch? id = some q ∧
        q.source = .branch kind (Target.resolve kind (target, s.host)).state.1) ∧
      (Target.resolve kind (target, s.host)).state.2.SamePages (s.step command).1.host := by
  cases command with
  | target other =>
      cases (hasks : other = id)
      -- The patch is put back with what resolving left, and so is the host.
      have hafter := (Patch.target_branch s.host hsource).2
      rw [step_target_eq hp, hafter]
      exact ⟨⟨_, patch?_insert_self _, rfl⟩, .refl _⟩
  | install other =>
      cases (hasks : other = id)
      rw [step_install_eq hp] at hfault ⊢
      have hnew : p.isInstalled = false := by
        cases hinstalled : p.isInstalled with
        | false => rfl
        | true =>
            -- An installed patch stays as it is, which does not fail.
            have hheld := Patch.install_held hinstalled (p, s.host) rfl
            split at hheld
            · next hok =>
                rw [hok] at hfault
                exact absurd hfault nofun
            · exact hheld.elim
      -- What comes after the target is resolved touches neither the source nor the pages.
      have hpayload := (Source.payload_branch p.site kind target s.host).2
      rw [← hsource] at hpayload
      have hkept := Patch.install_source s.host hnew
      have hpages := Patch.install_samePages s.host hnew
      rw [hpayload] at hkept hpages
      exact ⟨⟨_, patch?_insert_self _, hkept⟩, hpages⟩
  | _ => exact hasks.elim

/-- The same is mapped with the same protections if older memory is intact and no pages were
    added. -/
theorem protectionAt_of_perm {m m' : Memory} (hintact : m.Intact m') (horderly : m.Orderly)
    (hextents : m'.extents.Perm m.extents) (a : Nat) : m'.protectionAt a = m.protectionAt a := by
  by_cases hmapped : m.Mapped a
  · exact hintact.protectionAt horderly hmapped
  · have hgone : ¬ m'.Mapped a := by
      rintro ⟨e, he, hcontains⟩
      exact hmapped ⟨e, hextents.mem_iff.mp he, hcontains⟩
    rw [Memory.protectionAt, Memory.protectionAt, if_neg hmapped, if_neg hgone]

/-- What a failed command leaves of a target, wherever all is accounted for. -/
theorem Accounted.targetAfter (hs : s.Accounted floor kept owned)
    (haligned : s.host.memory.Aligned) (hp : s.patch? id = some p)
    (hsource : p.source = .branch kind target) (hasks : command.AsksFor id)
    (hfault : (s.step command).2.result = .error fault) :
    s.TargetAfter id p command (s.step command).1 := by
  rcases step_asked hp hsource hasks hfault with ⟨⟨q, hq, hafter⟩, hpages⟩
  have hreported : (s.step command).2.fault? = some fault := by
    rw [Reply.fault?, hfault]
  have hharmless := step_harmless hs haligned hreported
  have hsite : q.site = p.site := by
    have hpatches := hharmless.patches id
    rw [hq, hp] at hpatches
    exact congrArg Prod.fst (Option.some.inj hpatches)
  cases Target.resolve_leaves kind target hs.owns.orderly haligned with
  | same alike extents =>
      -- With the same pages, older memory being intact settles all protections.
      have hextents := hpages.extents ▸ extents
      exact .same hq (alike.sameTarget hsite hsource hafter) hextents
        (protectionAt_of_perm hharmless.intact hs.owns.orderly hextents)
  | @generated code code' region pending made live known extents =>
      rw [made] at hafter
      have hleads : (s.step command).1.Leads id kind code' region := ⟨q, hq, hafter⟩
      refine .generated ?_ (pending ▸ hsource) hq hafter live ?_ (hpages.extents ▸ extents)
        (fun a ha => hharmless.intact.protectionAt hs.owns.orderly ha)
        fun more hdrop => (hleads.run live more hdrop).target live
      · -- A fault after the intercept is there can only be that of an installation.
        cases command with
        | install other => exact congrArg _ hasks
        | target other =>
            -- A target that was found is answered.
            cases (hasks : other = id)
            rw [step_target_eq hp, (Patch.target_branch s.host hsource).1, known] at hfault
            have hanswered : Except.ok (Answer.address region.address) = .error fault := hfault
            cases hanswered
        | _ => exact hasks.elim
      · rw [Patch.description, hsite, hafter]
        rfl

/-- A command that asks for the target of a branch and fails, after any commands. The
    target looks as it did, and the same is mapped. Only if a patch that waited for its
    intercept was to be installed, and the intercept was generated before the fault, the
    patch has it from then on, and its pages are mapped as well. -/
theorem targetAfter_of_run (loader : Loader) (commands : List Command) {s : Session}
    (hs : s = ((start loader).run commands).1) {id : String} {p : Patch} {kind : Branch}
    {target : Target} (hp : s.patch? id = some p) (hsource : p.source = .branch kind target)
    {command : Command} (hasks : command.AsksFor id) {fault : Fault}
    (hfault : (s.step command).2.result = .error fault) :
    s.TargetAfter id p command (s.step command).1 := by
  have haccounted := run_accounted commands (start_accounted loader)
  have haligned := run_aligned commands (start_aligned loader)
  rw [← hs] at haccounted haligned
  exact haccounted.targetAfter haligned hp hsource hasks hfault

/-- A call that waits for its intercept, at a site. -/
def waitingCall (site : Address) : Session :=
  ((start ⟨[], []⟩).run
    [.patch "hook" (.branchInto .call (.step (.plain .ret))) (.absolute site) false]).1

/-- From far away the intercept is out of reach, but it is there. -/
theorem targetAfter_of_farCall :
    ((waitingCall 0x100000000000).step (.install "hook")).2.result =
        .error (.targetOutOfReach 0x100000000000 0x10000000) ∧
      (waitingCall 0x100000000000).TargetAfter "hook"
        ⟨0x100000000000, .branch .call (.pending (.step (.plain .ret))), none, false⟩
        (.install "hook") ((waitingCall 0x100000000000).step (.install "hook")).1 := by
  have hfault : ((waitingCall 0x100000000000).step (.install "hook")).2.result =
      .error (.targetOutOfReach 0x100000000000 0x10000000) := by rfl
  exact ⟨hfault, targetAfter_of_run ⟨[], []⟩ _ rfl rfl rfl rfl hfault⟩

/-- A call at the null address cannot be installed, because nothing can be read there. It
    waited for its intercept before that, and does not afterwards: it looks different, and
    there is a new page. -/
theorem target_lost_at_null :
    ((waitingCall 0).step (.install "hook")).2.result = .error (.nullAddress "read_bytes") ∧
      ((waitingCall 0).patch? "hook").map
          (fun p => (p.source.target?.map Target.isResolved, p.intercept?, p.description)) =
        some (some false, none, "0x0 => Call to pending intercept") ∧
      (waitingCall 0).host.memory.extents = [] ∧
      (((waitingCall 0).step (.install "hook")).1.patch? "hook").map
          (fun p => (p.source.target?.map Target.isResolved, p.intercept?, p.description)) =
        some (some true, some ⟨some 0x10000000, 1⟩, "0x0 => Call to intercept @0x10000000") ∧
      ((waitingCall 0).step (.install "hook")).1.host.memory.extents = [⟨0x10000000, 0x1000⟩] :=
  ⟨by rfl, by rfl, by rfl, by rfl, by rfl⟩

end Session

end Hotpatch
