import Hotpatch.Proofs.Branching.Steps

/-!
# No Branch Into Freed Memory

While patches come and go, every branch that is in memory leads to an intercept that is
mapped. That is so because a patch that is installed keeps its intercept, because a
patch that cannot be uninstalled stays installed, and because one that cannot be
uninstalled at its end leaves its intercept to nobody. An intercept is given back only
after the branch to it is gone.

Failures may be arranged anywhere, so any step may fail at any of its requests. A step
that fails leaves branches and intercepts as they are.

## Theorems

* `step_interceptsLive`: A patch never holds on to an intercept that was freed.
* `step_branches`, `run_branches`: The account of branches through commands.
* `drop_leaves`, `drop_unmaps`: The intercept of a patch that goes away.
* `branches_of_run`: No branch leads into freed memory, whatever was done.
-/

namespace Hotpatch

open Hotpatch.Action

/-- A live region has the pages that begin at its address. -/
theorem Region.extents_of_live {r : Region} (hlive : r.isReleased = false) :
    r.extents = [⟨r.address.toNat, wholePages r.size⟩] := by
  cases hbase : r.base with
  | none =>
      rw [isReleased, hbase] at hlive
      exact absurd hlive (by simp only [Option.isNone_none, Bool.true_eq_false, not_false_eq_true])
  | some base => rw [extents, address, hbase, Option.getD_some]

/-- A live region is mapped if its extent is. -/
theorem Region.covers_of_extents {r : Region} {m : Memory} (hlive : r.isReleased = false)
    (h : ∀ e ∈ r.extents, e ∈ m.extents) : m.Covers r.address.toNat r.size := by
  rw [extents_of_live hlive] at h
  exact ⟨_, h _ (List.mem_singleton_self _), Nat.le_refl _,
    Nat.add_le_add_left (le_wholePages r.size) _⟩

namespace Session

variable {floor : Nat} {kept : String → Option (Address × List UInt8) → Prop}
  {owned : List Extent} {live : List LiveBranch} {s : Session}
  {command : Command} {id : String} {p : Patch} {region : Region}

/-- A command on a patch keeps the intercept of the patch live if what it does keeps
    that. -/
theorem step_onPatch_live (h : s.InterceptsLive) {act : Action (Patch × Host) Answer}
    (hcommand : perform command = onPatch id act)
    (hact : ∀ p : Patch, p.source.IsLive → Triple (fun st => st = (p, s.host)) act
      (fun _ st => st.1.source.IsLive) fun _ st => st.1.source.IsLive)
    (hp : (s.step command).1.patch? id = some p) : p.source.IsLive := by
  cases hq : s.patch? id with
  | none =>
      rw [step_onPatch_refused _ hcommand hq, hq] at hp
      exact absurd hp.symm (Option.some_ne_none p)
  | some q =>
      rcases step_onPatch _ hcommand hq (hact q (h id q hq)) with ⟨st, -, hself, hend⟩
      rw [← Option.some.inj (hself.symm.trans hp)]
      exact hend.elim

theorem install_interceptsLive (h : s.InterceptsLive)
    (hp : (s.step (.install id)).1.patch? id = some p) : p.source.IsLive := by
  refine step_onPatch_live h rfl (fun q hq => ?_) hp
  refine .bind ((Patch.install_live hq).weaken (fun _ h => h) (fun _ _ h => h.1) fun _ _ h => h)
    fun _ => ?_
  exact .ret fun _ h => h

/-- A patch that is uninstalled keeps its source, and with it its intercept. -/
theorem uninstall_interceptsLive (h : s.InterceptsLive)
    (hp : (s.step (.uninstall id)).1.patch? id = some p) : p.source.IsLive := by
  refine step_onPatch_live h rfl (fun q hq => ?_) hp
  refine .bind ((q.uninstall_clears s.host).weaken (fun _ h => h) (fun _ st hst => ?_)
    fun _ st hst => ?_) fun _ => .ret fun _ h => h
  · rcases hst with ⟨saved, -, hpatch, -⟩
    rw [hpatch]
    exact hq
  · rw [hst.1]
    exact hq

theorem target_interceptsLive (h : s.InterceptsLive)
    (hp : (s.step (.target id)).1.patch? id = some p) : p.source.IsLive := by
  refine step_onPatch_live h rfl (fun q hq => ?_) hp
  refine .bind (Patch.target_live hq) fun found => ?_
  cases found with
  | none => exact .ret fun _ h => h
  | some address => exact .ret fun _ h => h

/-- A patch never holds on to an intercept that was freed. -/
theorem step_interceptsLive (h : s.InterceptsLive) (command : Command) :
    (s.step command).1.InterceptsLive := by
  intro id p hp
  by_cases hhandled : command.handled? = some id
  · rcases Command.handled?_eq_some hhandled with rfl | rfl | rfl | rfl
    · exact install_interceptsLive h hp
    · exact uninstall_interceptsLive h hp
    · exact target_interceptsLive h hp
    · rw [step_drop_patch?] at hp
      exact absurd hp.symm (Option.some_ne_none p)
  · -- A patch that is not handled is new and has no intercept, or is the one from before.
    cases hq : s.patch? id with
    | none =>
        have hnew := (step_new hq hhandled hp).2
        refine Patch.isLive_iff.mpr fun region hregion => ?_
        rw [hnew] at hregion
        exact absurd hregion.symm (Option.some_ne_none region)
    | some q =>
        have hsame := step_patch? hq hhandled
        rw [hp, Option.some.injEq] at hsame
        exact hsame ▸ h id q hq

theorem run_interceptsLive (commands : List Command) (h : s.InterceptsLive) :
    (s.run commands).1.InterceptsLive := by
  induction commands generalizing s with
  | nil => exact h
  | cons command rest ih => exact ih (step_interceptsLive h command)

/-- The account of the branches through a command. -/
theorem step_branches (hs : s.Accounted floor (fun _ _ => True) owned) (hlive : s.InterceptsLive)
    (h : s.BranchesAccounted owned live) (hpermits : s.Permits live command) :
    (s.step command).1.BranchesAccounted (s.leaks command ++ owned)
      (s.branchesAfter live command) := by
  cases hhandled : command.handled? with
  | none => exact step_unhandled hs h hhandled hpermits
  | some id =>
      rcases Command.handled?_eq_some hhandled with rfl | rfl | rfl | rfl
      · exact step_installed hs h hlive hpermits
      · exact step_uninstalled hs h
      · exact step_target hs h
      · exact step_dropped hs h

/-- The account of the branches through a list of commands. -/
theorem run_branches (commands : List Command) (hs : s.Accounted floor (fun _ _ => True) owned)
    (hlive : s.InterceptsLive) (h : s.BranchesAccounted owned live)
    (hpermits : s.PermitsAll live commands) :
    (s.run commands).1.BranchesAccounted (s.leaked commands ++ owned)
      (s.branches live commands) := by
  -- What was leaked before is owned by nobody later, so the account grows with the run.
  induction commands generalizing s live owned with
  | nil => exact h
  | cons command rest ih =>
      have hrest := ih (step_accounted hs command fun _ _ _ => True.intro)
        (step_interceptsLive hlive command) (step_branches hs hlive h hpermits.1) hpermits.2
      rw [← List.append_assoc] at hrest
      exact hrest

/-- The intercepts of the branches are mapped. -/
theorem BranchesAccounted.covers (h : s.BranchesAccounted owned live)
    (hs : s.Accounted floor kept owned) {b : LiveBranch} (hb : b ∈ live)
    (hregion : b.patch.intercept? = some region) (hlive : region.isReleased = false) :
    s.host.memory.Covers region.address.toNat region.size := by
  rcases b with ⟨owner, p⟩
  -- The intercept belongs to the patch as long as there is one, and to nobody after that.
  cases owner with
  | some id =>
      have hp := ((h.owners id p).mp hb).1
      exact (hs.oneOwner.live id (.patch p) region (get?_of_patch? hp) hregion hlive).2
  | none =>
      refine Region.covers_of_extents hlive fun e he => ?_
      rw [hs.owns.extents.mem_iff]
      refine List.mem_append_right _ (h.orphans p hb e ?_)
      have hregion' : p.intercept? = some region := hregion
      rw [p.extents_eq_intercept, hregion']
      exact he

section Dropping

variable (hs : s.Accounted floor (fun _ _ => True) owned) (hp : s.patch? id = some p)
  (hregion : p.intercept? = some region) (hlive : region.isReleased = false)

include hs hp hregion hlive

/-- A patch that cannot be uninstalled at its end leaves its intercept mapped for good. -/
theorem drop_leaves (hinstalled : p.isInstalled = true)
    (hfail : (Patch.uninstall (p, s.host)).result.isOk = false) (more : List Command) :
    ((s.step (.drop id)).1.run more).1.host.memory.Covers region.address.toNat region.size := by
  -- What is leaked stays in the account of every later session.
  have hleaks : s.leaks (.drop id) = region.extents := by
    rw [leaks, get?_of_patch? hp]
    refine (if_pos ⟨hinstalled, hfail⟩).trans ?_
    rw [p.extents_eq_intercept, hregion]
    rfl
  have hrun := run_accounted more (step_accounted hs (.drop id) fun _ _ _ => True.intro)
  refine Region.covers_of_extents hlive fun e he => ?_
  rw [hrun.owns.extents.mem_iff, hleaks]
  exact List.mem_append_right _ (List.mem_append_right _ (List.mem_append_left _ he))

/-- A patch that is uninstalled at its end, or was not installed, gives its intercept
    back. -/
theorem drop_unmaps
    (hgone : p.isInstalled = false ∨ (Patch.uninstall (p, s.host)).result.isOk = true) {i : Nat}
    (hi : i < region.size) :
    ¬ (s.step (.drop id)).1.host.memory.Mapped (region.address.toNat + i) := by
  have howns := hs.patch_owns hp
  -- Only the end of an installed patch that cannot be uninstalled leaks.
  have hleaks : p.leaks s.host = [] := by
    refine if_neg fun h => ?_
    rcases hgone with hnew | hok
    · rw [h.1] at hnew
      exact absurd hnew.symm Bool.false_ne_true
    · rw [h.2] at hok
      exact absurd hok Bool.false_ne_true
  have hdrop := p.drop_owns s.host howns
  rw [hleaks] at hdrop
  rcases drop_state (get?_of_patch? hp) hdrop with ⟨host, hhost, hstate⟩
  rw [hstate]
  intro ⟨e, he, hlow, hhigh⟩
  rw [hhost.extents.mem_iff] at he
  -- The extent of the intercept is apart from all that are left.
  have hextents : p.extents = [⟨region.address.toNat, wholePages region.size⟩] := by
    rw [p.extents_eq_intercept, hregion, Option.map_some, Option.getD_some,
      Region.extents_of_live hlive]
  have hbefore := howns.extents
  rw [hextents] at hbefore
  have hapart := (hbefore.pairwise_iff fun hxy => Extent.Apart.symm hxy).mp
    howns.orderly.apart
  have hsize := le_wholePages region.size
  rcases List.rel_of_pairwise_cons hapart he with hbelow | habove
  · simp only at hbelow
    omega
  · simp only at habove
    omega

end Dropping

/-- No branch leads into freed memory, whatever was done. Every branch that was installed
    and not removed since is in memory, is read as a branch to its intercept, and all of
    the intercept is mapped. The branches are at least those of the patches that are
    installed. A patch that cannot be uninstalled at its end leaves its intercept mapped
    for good, and any other patch gives it back. -/
theorem branches_of_run (loader : Loader) {commands : List Command} {s : Session}
    (hs : s = ((start loader).run commands).1)
    (hpermits : (start loader).PermitsAll [] commands) :
    (∀ b ∈ (start loader).branches [] commands, ∃ kind code region line,
        b.patch.source = .branch kind (.intercept code (some region)) ∧
          (Instruction.branch kind region.address).Shows line ∧
          (∀ rest, readLine b.patch.site
            (s.host.memory.read b.patch.site.toNat Branch.size ++ rest) = some (line, rest)) ∧
          s.host.memory.Covers region.address.toNat region.size) ∧
      (∀ id p, s.patch? id = some p → p.isInstalled = true →
        ⟨some id, p⟩ ∈ (start loader).branches [] commands) ∧
      ∀ id p region, s.patch? id = some p → p.intercept? = some region →
        (p.isInstalled = true → (Patch.uninstall (p, s.host)).result.isOk = false → ∀ more,
          ((s.step (.drop id)).1.run more).1.host.memory.Covers region.address.toNat
            region.size) ∧
        (p.isInstalled = false ∨ (Patch.uninstall (p, s.host)).result.isOk = true →
          ∀ i < region.size,
            ¬ (s.step (.drop id)).1.host.memory.Mapped (region.address.toNat + i)) := by
  -- In the beginning there are no patches, so there are no branches.
  have hnone : ∀ id, (start loader).patch? id = none := fun _ => rfl
  have hlive : (start loader).InterceptsLive := fun id p hp =>
    absurd ((hnone id).symm.trans hp) (Option.some_ne_none p).symm
  have hstart : (start loader).BranchesAccounted [] [] := by
    refine ⟨anchored_nil _, fun id p => ?_, fun _ hp => absurd hp List.not_mem_nil⟩
    rw [hnone id]
    exact ⟨fun hp => absurd hp List.not_mem_nil, fun h => absurd h.1.symm (Option.some_ne_none p)⟩
  have haccounted := run_accounted commands (start_accounted loader)
  have hbranches := run_branches commands (start_accounted loader) hlive hstart hpermits
  have hintercepts := run_interceptsLive commands hlive
  rw [← hs] at haccounted hbranches hintercepts
  refine ⟨fun b hb => ?_, fun id p hp hinstalled => (hbranches.owners id p).mpr ⟨hp, hinstalled⟩,
    fun id p region hp hregion => ?_⟩
  · rcases (hbranches.anchored.stands b hb).reads with
      ⟨kind, code, region, line, hsource, hregion, hshows, hread⟩
    refine ⟨kind, code, region, line, hsource, hshows, hread, ?_⟩
    refine hbranches.covers haccounted hb ?_ hregion
    rw [Patch.intercept?, hsource]
    rfl
  · -- The intercept of a patch is never one that was freed before.
    have hregion' := Patch.isLive_iff.mp (hintercepts id p hp) region hregion
    refine ⟨fun hinstalled hfail more => ?_, fun hgone i hi => ?_⟩
    · exact drop_leaves haccounted hp hregion hregion' hinstalled hfail more
    · exact drop_unmaps haccounted hp hregion hregion' hgone hi

/-- A call into an intercept, of a patch that cannot be uninstalled when it goes away. -/
def stuckCall : List Command :=
  [.mapPages "page" 16 .readExecute,
    .patch "hook" (.branchInto .call (.step (.plain .ret))) (.absolute 0x10000000) true,
    .install "hook", .failProtections 1, .drop "hook"]

theorem stuckCall_permitted : (start ⟨[], []⟩).PermitsAll [] stuckCall := by
  -- Only the installation is asked for anything, namely that its five bytes are mapped.
  have hpermits : ((start ⟨[], []⟩).run (stuckCall.take 2)).1.Permits [] (.install "hook") := by
    intro p hp _
    rw [← Option.some.inj hp]
    refine ⟨⟨_, _, _, rfl⟩, fun i hi => ?_, fun b hb => absurd hb List.not_mem_nil⟩
    refine ⟨⟨0x10000000, 0x1000⟩, List.mem_singleton_self _, Nat.le_add_right _ _, ?_⟩
    exact Nat.add_lt_add_left (Nat.lt_trans hi (by decide)) _
  exact ⟨fun b hb => absurd hb List.not_mem_nil, True.intro, hpermits, True.intro, True.intro,
    True.intro⟩

set_option maxRecDepth 8000 in
/-- The call stays, and so does what it leads to. -/
theorem branches_of_stuckCall :
    (start ⟨[], []⟩).PermitsAll [] stuckCall ∧
      ((start ⟨[], []⟩).run stuckCall).1.host.memory.read 0x10000000 Branch.size =
        [0xE8, 0xFB, 0x1F, 0, 0] ∧
      ((start ⟨[], []⟩).run stuckCall).1.host.memory.Covers 0x10002000 1 := by
  refine ⟨stuckCall_permitted, rfl, ?_⟩
  have hrun := branches_of_run ⟨[], []⟩ rfl stuckCall_permitted
  have hmem : (⟨none, ⟨0x10000000, .branch .call (.intercept ⟨.step (.plain .ret), 2⟩
      (some ⟨some 0x10002000, 1⟩)), some [0, 0, 0, 0, 0], true⟩⟩ : LiveBranch) ∈
        (start ⟨[], []⟩).branches [] stuckCall := List.mem_singleton_self _
  rcases hrun.1 _ hmem with ⟨kind, code, region, line, hsource, -, -, hcovers⟩
  rw [Source.branch.injEq, Target.intercept.injEq, Option.some.injEq] at hsource
  rw [← hsource.2.2] at hcovers
  exact hcovers

end Session

end Hotpatch
