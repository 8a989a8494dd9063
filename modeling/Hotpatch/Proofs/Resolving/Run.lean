import Hotpatch.Proofs.Branching.Run
import Hotpatch.Proofs.Generation.Run
import Hotpatch.Proofs.Resolving.Attempts

/-!
# Intercepts Are Generated Once

A branch into an intercept goes through two states. While its intercept is pending, to
ask for the target or to install the patch is an attempt to generate it. A failed
attempt leaves nothing behind but that the code was run, and the next one begins anew.
The first that succeeds puts the patch into the second state, also if the branch cannot
be written then. It never leaves that state but at its end, and in it the target is
known, all that is installed leads there, and nothing is run and no pages are asked for.

No other command moves a patch from one state to the other, whatever it does to
memory and whatever failures it arranges.

## Main definitions

* `Command.AsksFor`: The commands that ask for the intercept of a patch.
* `Memory.BranchAt`: A branch that is read in memory.
* `Session.Pending`: A patch whose intercept is still to be generated.
* `Session.Settled`: A patch that has its intercept.

## Theorems

* `attempt_failed`, `attempt_succeeded`: The commands that ask for an intercept.
* `Leads.step`, `Leads.run`: A patch that has its intercept keeps it.
* `Leads.target`, `Leads.installed`: What it leads to.
* `Waits.step`, `Waits.run`: A patch waits for its intercept until it has it.
* `step_made`: A patch that was made.
* `intercept_of_run`: A branch into an intercept, from its beginning.
-/

namespace Hotpatch

open Hotpatch.Action

/-- The commands that ask for the intercept of a patch. -/
def Command.AsksFor (id : String) : Command → Prop
  | .target other => other = id
  | .install other => other = id
  | _ => False

/-- A branch to a target is read at a site. -/
def Memory.BranchAt (m : Memory) (site : Address) (kind : Branch) (target : Address) : Prop :=
  ∃ line, (Instruction.branch kind target).Shows line ∧
    ∀ rest, readLine site (m.read site.toNat Branch.size ++ rest) = some (line, rest)

namespace Session

variable {floor : Nat} {kept : String → Option (Address × List UInt8) → Prop}
  {owned : List Extent} {s : Session} {command : Command} {id : String} {p : Patch}
  {kind : Branch} {code code' : Code} {memory : Option Region} {region : Region}
  {program : Program}

/-- A patch that has its intercept. -/
def Leads (s : Session) (id : String) (kind : Branch) (code : Code) (region : Region) : Prop :=
  ∃ p, s.patch? id = some p ∧ p.source = .branch kind (.intercept code (some region))

/-- A patch that waits for its intercept. -/
def Waits (s : Session) (id : String) (kind : Branch) (code : Code) : Prop :=
  ∃ p, s.patch? id = some p ∧ p.isInstalled = false ∧ p.source = .branch kind (.intercept code none)

/-- A patch that has its intercept keeps it, and asks for no more pages. -/
theorem Leads.step (h : s.Leads id kind code region) (hlive : region.isReleased = false)
    (hdrop : command ≠ .drop id) :
    (s.step command).1.Leads id kind code region ∧
      (command.handled? = some id → s.host.SamePages (s.step command).1.host) := by
  rcases h with ⟨p, hp, hsource⟩
  by_cases hhandled : command.handled? = some id
  · rcases Command.handled?_eq_some hhandled with rfl | rfl | rfl | rfl
    · -- To install it writes the branch, for which there is all that is needed.
      rw [step_install_eq hp]
      have hend := (Patch.install_resolved s.host hlive hsource).after rfl
      exact ⟨⟨_, patch?_insert_self _, hend.1.trans hsource⟩, fun _ => hend.2⟩
    · -- To uninstall it writes what was there before.
      rw [step_uninstall_eq hp]
      have hend := (p.uninstall_keeps s.host).after rfl
      exact ⟨⟨_, patch?_insert_self _, hend.1.trans hsource⟩, fun _ => hend.2⟩
    · rw [step_target_eq hp, Patch.target_known hsource]
      exact ⟨⟨p, patch?_insert_self _, hsource⟩, fun _ => .refl s.host⟩
    · exact absurd rfl hdrop
  · -- A command that does not handle the patch leaves it as it is.
    exact ⟨⟨p, step_patch? hp hhandled, hsource⟩, fun h => absurd h hhandled⟩

theorem Leads.run (h : s.Leads id kind code region) (hlive : region.isReleased = false)
    (more : List Command) (hdrop : .drop id ∉ more) :
    (s.run more).1.Leads id kind code region := by
  induction more generalizing s with
  | nil => exact h
  | cons command rest ih =>
      have hcommand : command ≠ .drop id := fun heq => hdrop (heq ▸ List.mem_cons_self)
      exact ih (h.step hlive hcommand).1 fun hmem => hdrop (List.mem_cons_of_mem _ hmem)

/-- A patch that has its intercept gives it as its target, and nothing happens. -/
theorem Leads.target (h : s.Leads id kind code region) (hlive : region.isReleased = false) :
    s.step (.target id) = (s, ⟨.ok (.address region.address), []⟩) := by
  rcases h with ⟨p, hp, hsource⟩
  have htarget : Patch.target (p, s.host) = ⟨.ok (some region.address), (p, s.host), []⟩ := by
    rcases p with ⟨site, source, saved, unprotected⟩
    subst hsource
    rcases region with ⟨_ | base, size⟩
    · exact absurd hlive.symm Bool.false_ne_true
    · rfl
  exact step_target_known hp htarget

/-- A patch that has an intercept after it was installed was installed as a branch to it. -/
theorem Leads.landed (h : (s.step (.install id)).1.Leads id kind code' region)
    (hs : s.Accounted floor kept owned) (hp : s.patch? id = some p) (hnew : p.isInstalled = false)
    (hsource : p.source = .branch kind (.intercept code memory))
    (hlive : (Target.intercept code memory).IsLive)
    (hdone : (s.step (.install id)).2.result = .ok .done) :
    (s.step (.install id)).1.host.memory.BranchAt p.site kind region.address := by
  rcases h with ⟨q, hq, hafter⟩
  rw [step_install_eq hp] at hdone hq ⊢
  cases hresult : (Patch.install (p, s.host)).result with
  | error fault =>
      rw [hresult] at hdone
      exact absurd hdone nofun
  | ok _ =>
      have hlanded := (Patch.install_landed (hs.patch_owns hp) (hsource ▸ hlive.branch kind) hsource
        hnew).of_ok rfl hresult
      rcases hlanded.stands.reads with ⟨kind', code', region', line, hbranch, -, hshows, hread⟩
      -- What stands there is the branch that the patch has now.
      rw [Option.some.inj ((patch?_insert_self _).symm.trans hq), hafter, Source.branch.injEq,
        Target.intercept.injEq, Option.some.injEq] at hbranch
      rw [← hbranch.1, ← hbranch.2.2] at hshows
      rw [hlanded.site] at hread
      exact ⟨line, hshows, hread⟩

/-- A patch that has its intercept is installed as a branch to it, if it is installed at
    all. -/
theorem Leads.installed (h : s.Leads id kind code region) (hlive : region.isReleased = false)
    (hs : s.Accounted floor kept owned) (hp : s.patch? id = some p) (hnew : p.isInstalled = false)
    (hdone : (s.step (.install id)).2.result = .ok .done) :
    (s.step (.install id)).1.host.memory.BranchAt p.site kind region.address := by
  have hinstall : Command.install id ≠ .drop id := nofun
  have hafter := (h.step hlive hinstall).1
  rcases h with ⟨q, hq, hsource⟩
  rw [hp, Option.some.injEq] at hq
  rw [← hq] at hsource
  exact hafter.landed hs hp hnew hsource (fun _ hregion => Option.some.inj hregion ▸ hlive) hdone

/-- An attempt that fails is answered with its fault, and nothing else was done. -/
theorem attempt_failed {fault : Fault} (hp : s.patch? id = some p) (hnew : p.isInstalled = false)
    (hsource : p.source = .branch kind (.intercept code none)) (hasks : command.AsksFor id)
    (hfault : (Region.generate (code, s.host)).result = .error fault) :
    (s.step command).2.result = .error fault ∧ (s.step command).1 =
      { s.insert id (.patch (p.withSource
          (.branch kind (.intercept (Region.generate (code, s.host)).state.1 none)))) with
        host := (Region.generate (code, s.host)).state.2 } := by
  cases command with
  | target other =>
      cases (hasks : other = id)
      rcases Target.resolve_pending kind code s.host with ⟨hresult, hstate⟩
      rcases Patch.target_branch s.host hsource with ⟨hanswer, hafter⟩
      -- Asking for the target ends as the attempt does.
      rw [hresult, hfault] at hanswer
      rw [hstate, hfault] at hafter
      rw [step_target_eq hp, hanswer, hafter]
      exact ⟨rfl, rfl⟩
  | install other =>
      cases (hasks : other = id)
      -- Without the intercept, installing does not come to the site.
      rcases Patch.install_pending_failed hnew hsource hfault with ⟨hanswer, hafter⟩
      rw [step_install_eq hp, hanswer, hafter]
      exact ⟨rfl, rfl⟩
  | _ => exact hasks.elim

/-- An attempt that succeeds gives the patch its intercept, whether it is then installed
    or not. -/
theorem attempt_succeeded (hp : s.patch? id = some p) (hnew : p.isInstalled = false)
    (hsource : p.source = .branch kind (.intercept code none)) (hasks : command.AsksFor id)
    (hok : (Region.generate (code, s.host)).result = .ok region) :
    (s.step command).1.Leads id kind (Region.generate (code, s.host)).state.1 region ∧
      (command = .target id → (s.step command).2.result = .ok (.address region.address)) := by
  rcases Target.resolve_pending kind code s.host with ⟨hresult, hstate⟩
  rw [hok] at hresult hstate
  cases command with
  | target other =>
      cases (hasks : other = id)
      rcases Patch.target_branch s.host hsource with ⟨hanswer, hafter⟩
      rw [step_target_eq hp, hanswer, hafter, hresult, hstate]
      exact ⟨⟨_, patch?_insert_self _, rfl⟩, fun _ => rfl⟩
  | install other =>
      cases (hasks : other = id)
      -- However the write at the site ends, the source keeps what the attempt gave it.
      have hpayload := (Source.payload_branch p.site kind (.intercept code none) s.host).2
      rw [hstate, ← hsource] at hpayload
      have hkept := Patch.install_source s.host hnew
      rw [hpayload] at hkept
      rw [step_install_eq hp]
      exact ⟨⟨_, patch?_insert_self _, hkept⟩, nofun⟩
  | _ => exact hasks.elim

/-- A patch that waits is not touched by a command that does not ask for its intercept. -/
theorem step_unasked (hp : s.patch? id = some p) (hnew : p.isInstalled = false)
    (hasks : ¬ command.AsksFor id) (hdrop : command ≠ .drop id) :
    (s.step command).1.patch? id = some p := by
  by_cases hhandled : command.handled? = some id
  · rcases Command.handled?_eq_some hhandled with rfl | rfl | rfl | rfl
    · exact absurd rfl hasks
    · -- There is nothing to uninstall, so that fails.
      rw [step_uninstall_eq hp]
      have hend := p.uninstall_clears s.host (p, s.host) rfl
      split at hend
      · rcases hend with ⟨saved, hsaved, -⟩
        rw [Patch.isInstalled, hsaved] at hnew
        exact absurd hnew.symm Bool.false_ne_true
      · rw [hend.1]
        exact patch?_insert_self _
    · exact absurd rfl hasks
    · exact absurd rfl hdrop
  · exact step_patch? hp hhandled

/-- A patch waits for its intercept until it has it. -/
theorem Waits.step (hs : s.Accounted floor kept owned) (h : s.Waits id kind code)
    (hdrop : command ≠ .drop id) : ∃ code', code'.program = code.program ∧
      ((s.step command).1.Waits id kind code' ∨
        ∃ region, region.isReleased = false ∧ (s.step command).1.Leads id kind code' region) := by
  rcases h with ⟨p, hp, hnew, hsource⟩
  by_cases hasks : command.AsksFor id
  · refine ⟨(Region.generate (code, s.host)).state.1, ?_, ?_⟩
    · -- An attempt only counts the runs of the program.
      rcases Region.generate_ends code hs.owns.orderly.positive with ⟨runs, -, hstate⟩
      rw [hstate]
    · cases hresult : (Region.generate (code, s.host)).result with
      | error fault =>
          refine .inl ?_
          rw [(attempt_failed hp hnew hsource hasks hresult).2]
          exact ⟨_, patch?_insert_self _, hnew, rfl⟩
      | ok region =>
          have hlive : region.isReleased = false :=
            Region.generate_live.of_ok True.intro hresult
          exact .inr ⟨region, hlive, (attempt_succeeded hp hnew hsource hasks hresult).1⟩
  · exact ⟨code, rfl, .inl ⟨p, step_unasked hp hnew hasks hdrop, hnew, hsource⟩⟩

theorem Waits.run (hs : s.Accounted floor (fun _ _ => True) owned) (h : s.Waits id kind code)
    (more : List Command) (hdrop : .drop id ∉ more) : ∃ code', code'.program = code.program ∧
      ((s.run more).1.Waits id kind code' ∨
        ∃ region, region.isReleased = false ∧ (s.run more).1.Leads id kind code' region) := by
  induction more generalizing s owned code with
  | nil => exact ⟨code, rfl, .inl h⟩
  | cons command rest ih =>
      have hcommand : command ≠ .drop id := fun heq => hdrop (heq ▸ List.mem_cons_self)
      have hrest : .drop id ∉ rest := fun hmem => hdrop (List.mem_cons_of_mem _ hmem)
      rcases h.step hs hcommand with ⟨code', hprogram, hwaits | ⟨region, hlive, hleads⟩⟩
      -- From where it has its intercept the rest of the run does not change that.
      · rcases ih (step_accounted hs command fun _ _ _ => True.intro) hwaits hrest with
          ⟨code'', hsame, hend⟩
        exact ⟨code'', hsame.trans hprogram, hend⟩
      · exact ⟨code', hprogram, .inr ⟨region, hlive, hleads.run hlive rest hrest⟩⟩

/-- A patch that has its intercept, from a session on, whatever is done but to end it. -/
structure Settled (s : Session) (id : String) (kind : Branch) (code : Code) (region : Region) :
    Prop where
  /-- The patch has this very intercept, and its code was not run again. -/
  holds : ∀ more, .drop id ∉ more → ∃ p, (s.run more).1.patch? id = some p ∧
    p.source = .branch kind (.intercept code (some region))
  /-- Its target is where the intercept begins, and nothing happens when it is asked for. -/
  target : ∀ more, .drop id ∉ more → (s.run more).1.step (.target id) =
    ((s.run more).1, ⟨.ok (.address region.address), []⟩)
  /-- When it is installed a branch there is in memory. -/
  branches : ∀ more, .drop id ∉ more → ∀ p, (s.run more).1.patch? id = some p →
    p.isInstalled = false → ((s.run more).1.step (.install id)).2.result = .ok .done →
      ((s.run more).1.step (.install id)).1.host.memory.BranchAt p.site kind region.address
  /-- No command on the patch asks for pages. -/
  frugal : ∀ more, .drop id ∉ more → ∀ command, command.handled? = some id →
    command ≠ .drop id →
      (s.run more).1.host.SamePages ((s.run more).1.step command).1.host

/-- A patch whose intercept is still to be generated from code. -/
structure Pending (s : Session) (id : String) (kind : Branch) (code : Code) : Prop where
  waits : s.Waits id kind code
  /-- An attempt that fails is answered with its fault. The patch waits for the next one,
      and no page of the attempt is mapped. -/
  fails : ∀ command, command.AsksFor id → ∀ fault,
    (Region.generate (code, s.host)).result = .error fault →
      (s.step command).2.result = .error fault ∧
        (s.step command).1.Waits id kind (Region.generate (code, s.host)).state.1 ∧
          ∀ a, (s.step command).1.host.memory.Mapped a ↔ s.host.memory.Mapped a
  /-- An attempt that succeeds is the last one, and what was asked for leads there. -/
  succeeds : ∀ command, command.AsksFor id → ∀ region,
    (Region.generate (code, s.host)).result = .ok region →
      (s.step command).1.Settled id kind (Region.generate (code, s.host)).state.1 region ∧
        (command = .target id → (s.step command).2.result = .ok (.address region.address)) ∧
        (command = .install id → (s.step command).2.result = .ok .done →
          ∀ p, s.patch? id = some p →
            (s.step command).1.host.memory.BranchAt p.site kind region.address)
  /-- Nothing else is an attempt. -/
  others : ∀ command, ¬ command.AsksFor id → command ≠ .drop id →
    (s.step command).1.Waits id kind code

theorem Leads.settled (h : s.Leads id kind code region) (hlive : region.isReleased = false)
    (hs : s.Accounted floor (fun _ _ => True) owned) : s.Settled id kind code region where
  holds more hdrop := h.run hlive more hdrop
  target more hdrop := (h.run hlive more hdrop).target hlive
  branches more hdrop _ hp hnew hdone := by
    have hleads := h.run hlive more hdrop
    exact hleads.installed hlive (run_accounted more hs) hp hnew hdone
  frugal more hdrop _ hhandled hcommand := by
    have hleads := h.run hlive more hdrop
    exact (hleads.step hlive hcommand).2 hhandled

theorem Waits.pending (h : s.Waits id kind code) (hs : s.Accounted floor (fun _ _ => True) owned)
    (haligned : s.host.memory.Aligned) : s.Pending id kind code := by
  rcases h with ⟨p, hp, hnew, hsource⟩
  refine ⟨⟨p, hp, hnew, hsource⟩, fun command hasks fault hfault => ?_,
    fun command hasks region hok => ?_, fun command hasks hdrop => ?_⟩
  · rcases attempt_failed hp hnew hsource hasks hfault with ⟨hanswer, hstate⟩
    rw [hstate]
    refine ⟨hanswer, ⟨_, patch?_insert_self _, hnew, rfl⟩, fun a => ?_⟩
    -- Generating maps new addresses only if there is a region in the end.
    have hmapped := Region.generate_mapped_iff code hs.owns.orderly haligned a
    simp only [hfault, reduceCtorEq, false_and, exists_false, or_false] at hmapped
    exact hmapped
  · rcases attempt_succeeded hp hnew hsource hasks hok with ⟨hleads, hanswer⟩
    have hlive : region.isReleased = false := Region.generate_live.of_ok True.intro hok
    have hafter := step_accounted hs command fun _ _ _ => True.intro
    refine ⟨hleads.settled hlive hafter, hanswer, fun hinstall hdone q hq => ?_⟩
    subst hinstall
    rw [← Option.some.inj (hp.symm.trans hq)]
    -- A target that is pending has no region that could be released.
    have hpending : (Target.intercept code none).IsLive := fun region' hregion =>
      absurd hregion (Option.some_ne_none region').symm
    exact hleads.landed hs hp hnew hsource hpending hdone
  · exact ⟨p, step_unasked hp hnew hasks hdrop, hnew, hsource⟩

/-- To find the place of a patch takes no more than the loader. -/
theorem locate_from (site : Site) (host : Host) :
    Triple (fun h => h = host) (locate site)
      (fun _ h => h.memory = host.memory ∧ h.failingAllocations = host.failingAllocations)
      fun _ _ => True := by
  cases site with
  | absolute address => exact .ret fun h hh => hh ▸ ⟨rfl, rfl⟩
  | inModule resolver name offset =>
      -- The search works on the loader, which is no part of memory.
      have hsearch : Triple (fun h => h = host) (LiveCode.inModule resolver name offset)
          (fun _ h => h.memory = host.memory ∧
            h.failingAllocations = host.failingAllocations) fun _ _ => True := by
        refine .bind (Q := fun _ h => h.memory = host.memory ∧
          h.failingAllocations = host.failingAllocations) (.within fun h hh => ?_) fun _ => ?_
        · exact Triple.trivial.weaken (fun _ _ => True.intro) (fun _ _ _ => hh ▸ ⟨rfl, rfl⟩)
            fun _ _ h => h
        · exact .ret fun _ h => h
      exact .bind hsearch fun _ => .ret fun _ h => h

/-- A new patch writes what was designed, and is not installed. There are no new pages. -/
theorem step_made {design : Design} {source : Source} {site : Site} {unprotected : Bool}
    {a : Address} (hdesign : s.source design = some (.ok source))
    (hnew : (s.step (.patch id design site unprotected)).2.result = .ok (.address a)) :
    (s.step (.patch id design site unprotected)).1.patch? id =
        some ⟨a, source, none, unprotected⟩ ∧
      (s.step (.patch id design site unprotected)).1.host.memory = s.host.memory ∧
      (s.step (.patch id design site unprotected)).1.host.failingAllocations =
        s.host.failingAllocations := by
  have hmake : Triple (fun s' => s' = s) (perform (.patch id design site unprotected))
      (fun answer s' => answer = .address a →
        s'.patch? id = some ⟨a, source, none, unprotected⟩ ∧
          s'.host.memory = s.host.memory ∧
            s'.host.failingAllocations = s.host.failingAllocations) fun _ _ => True := by
    refine .bind_known (a := some (.ok source)) (fun _ h => h ▸ hdesign) ?_
    refine .bind (Q := fun source' s' => source' = source ∧ s' = s)
      (.ofExcept (fun source' s' hsource hs' => ⟨(Except.ok.inj hsource).symm, hs'⟩)
        fun _ _ _ _ => True.intro) fun source' => ?_
    refine .assuming (fun _ h => h.1) fun hsource => ?_
    refine .bind_gets fun found => ?_
    cases found with
    | some _ =>
        -- A name that is taken is not answered with an address.
        exact .ret fun _ _ heq => absurd heq nofun
    | none =>
        refine .bind (Q := fun p s' => p = .place p.site source' unprotected ∧
          s'.host.memory = s.host.memory ∧
            s'.host.failingAllocations = s.host.failingAllocations) (.within fun s' hs' => ?_)
              fun p => ?_
        · refine .bind (locate_from site s'.host) fun address => .ret fun h hh => ?_
          rw [hh.1, hh.2, hs'.1.2]
          exact ⟨rfl, rfl, rfl⟩
        · refine .bind_modify (.ret fun s' h => h) fun s' h heq => ?_
          refine ⟨?_, h.2⟩
          rw [patch?_insert_self, h.1, hsource, Answer.address.inj heq]
          rfl
  exact hmake.of_ok rfl hnew rfl

/-- A new branch into an intercept waits for it. No code was run, and there are no new
    pages. -/
theorem step_branchInto {site : Site} {unprotected : Bool} {a : Address}
    (hnew : (s.step (.patch id (.branchInto kind program) site unprotected)).2.result =
      .ok (.address a)) :
    (s.step (.patch id (.branchInto kind program) site unprotected)).1.patch? id =
        some ⟨a, .branch kind (.pending program), none, unprotected⟩ ∧
      (s.step (.patch id (.branchInto kind program) site unprotected)).1.host.memory =
        s.host.memory ∧
      (s.step (.patch id (.branchInto kind program) site unprotected)).1.host.failingAllocations =
        s.host.failingAllocations :=
  step_made rfl hnew

/-- A branch into an intercept, from its beginning. To make it runs no code and asks for
    no pages. From then on, until it is ended, its intercept is pending or is there for
    good. -/
theorem intercept_of_run (loader : Loader) (commands : List Command) {s made : Session}
    (hs : s = ((start loader).run commands).1) {site : Site} {unprotected : Bool} {a : Address}
    (hmade : made = (s.step (.patch id (.branchInto kind program) site unprotected)).1)
    (hnew : (s.step (.patch id (.branchInto kind program) site unprotected)).2.result =
      .ok (.address a)) :
    (made.patch? id = some ⟨a, .branch kind (.intercept ⟨program, 0⟩ none), none, unprotected⟩ ∧
        s.host.SamePages made.host) ∧
      ∀ more, .drop id ∉ more → ∃ code, code.program = program ∧
        ((made.run more).1.Pending id kind code ∨
          ∃ region, (made.run more).1.Settled id kind code region) := by
  have haccounted := run_accounted commands (start_accounted loader)
  have haligned := run_aligned commands (start_aligned loader)
  rw [← hs] at haccounted haligned
  have haccounted' := step_accounted haccounted (.patch id (.branchInto kind program) site
    unprotected) fun _ _ _ => True.intro
  have haligned' := step_aligned haligned (.patch id (.branchInto kind program) site unprotected)
  rcases step_branchInto hnew with ⟨hpatch, hmemory, hfailing⟩
  rw [← hmade] at haccounted' haligned' hpatch hmemory hfailing
  refine ⟨⟨hpatch, hmemory ▸ rfl, hmemory ▸ rfl, hfailing⟩, fun more hdrop => ?_⟩
  -- It waits to begin with, and either waits still or has its intercept for good.
  have hwaits : made.Waits id kind ⟨program, 0⟩ := ⟨_, hpatch, rfl, rfl⟩
  have hafter := run_accounted more haccounted'
  rcases hwaits.run haccounted' more hdrop with ⟨code, hprogram, hpending | ⟨region, hlive, hleads⟩⟩
  · exact ⟨code, hprogram, .inl (hpending.pending hafter (run_aligned more haligned'))⟩
  · exact ⟨code, hprogram, .inr ⟨region, hleads.settled hlive hafter⟩⟩

/-- A jump that finds no memory for its intercept when it is first asked for its target,
    and finds some when it is asked again. -/
def retriedJump : Session :=
  (((start ⟨[], []⟩).run [.failAllocations 1]).1.step
    (.patch "hook" (.branchInto .jump (.step (.plain .ret))) (.absolute 0x20000000) false)).1

/-- The target stays what it was when it was found. -/
theorem intercept_of_retriedJump :
    (retriedJump.step (.target "hook")).2.result = .error (.outOfMemory 1 .systemCall) ∧
      (retriedJump.run [.target "hook", .target "hook"]).1.step (.target "hook") =
        ((retriedJump.run [.target "hook", .target "hook"]).1,
          ⟨.ok (.address 0x10000000), []⟩) := by
  refine ⟨rfl, ?_⟩
  have hpatch : (retriedJump.run [.target "hook", .target "hook"]).1.patch? "hook" =
      some ⟨0x20000000, .branch .jump (.intercept ⟨.step (.plain .ret), 3⟩
        (some ⟨some 0x10000000, 1⟩)), none, false⟩ := rfl
  have hmade : retriedJump = (((start ⟨[], []⟩).run [.failAllocations 1]).1.step (.patch "hook"
    (.branchInto .jump (.step (.plain .ret))) (.absolute 0x20000000) false)).1 := rfl
  have hrun := intercept_of_run ⟨[], []⟩ [.failAllocations 1] rfl hmade rfl
  have hkept : .drop "hook" ∉ [Command.target "hook", .target "hook"] := by
    simp only [List.mem_cons, reduceCtorEq, List.not_mem_nil, or_self, not_false_eq_true]
  rcases hrun.2 _ hkept with ⟨code, -, hpending | ⟨region, hsettled⟩⟩
  · -- After the second request the intercept is there, so the patch does not wait.
    rcases hpending.waits with ⟨p, hp, -, hsource⟩
    rw [hpatch, Option.some.injEq] at hp
    rw [← hp] at hsource
    exact absurd hsource nofun
  · rcases hsettled.holds [] List.not_mem_nil with ⟨p, hp, hsource⟩
    have hp' : p = _ := Option.some.inj (hp.symm.trans hpatch)
    rw [hp', Source.branch.injEq, Target.intercept.injEq, Option.some.injEq] at hsource
    have htarget := hsettled.target [] List.not_mem_nil
    rw [← hsource.2.2] at htarget
    exact htarget

end Session

end Hotpatch
