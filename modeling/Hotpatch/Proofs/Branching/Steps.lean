import Hotpatch.Proofs.Branching.History

/-!
# Branches Through Commands

What each command does to the branches that are in memory. Four commands handle a
patch. They add its branch, take it away, leave it to nobody, or leave all as it is, and
other branches are not in the way because they are apart. Every other command leaves
patches alone, and is asked not to write to their branches.

## Main definitions

* `Session.InterceptsLive`: The intercepts of all patches are live.

## Theorems

* `step_onPatch`: A command on a patch, as it ends.
* `step_target_eq`, `step_install_eq`, `step_uninstall_eq`: Commands on a patch, as they are.
* `owners_step`: Who owns the branches after a command.
* `step_unchanged`, `step_stayed`: Commands that change no branch.
* `step_unhandled`: The commands that handle no patch.
* `step_installed`, `step_uninstalled`, `step_target`, `step_dropped`: Those that do.
-/

namespace Hotpatch

open Hotpatch.Action

/-- The four commands that handle a patch. -/
theorem Command.handled?_eq_some {command : Command} {id : String}
    (h : command.handled? = some id) : command = .install id ∨ command = .uninstall id ∨
      command = .target id ∨ command = .drop id := by
  cases command <;> simp only [handled?, Option.some.injEq, reduceCtorEq] at h
  · exact .inl (h ▸ rfl)
  · exact .inr (.inl (h ▸ rfl))
  · exact .inr (.inr (.inl (h ▸ rfl)))
  · exact .inr (.inr (.inr (h ▸ rfl)))

namespace Session

variable {floor : Nat} {kept : String → Option (Address × List UInt8) → Prop}
  {owned : List Extent} {live : List LiveBranch} {s : Session}
  {command : Command} {id : String} {p : Patch}

/-- A command on a patch is what it does to the patch and to the host. -/
theorem step_onPatch_eq (command : Command) {act : Action (Patch × Host) Answer}
    (hcommand : perform command = onPatch id act) (hp : s.patch? id = some p) :
    s.step command =
      ({ s.insert id (.patch (act (p, s.host)).state.1) with host := (act (p, s.host)).state.2 },
        ⟨(act (p, s.host)).result, (act (p, s.host)).trace⟩) := by
  -- The patch is looked up first, and to look it up leaves no trace.
  have hfound : (Action.gets (fun s : Session => (s.get? id).bind Object.patch?) s).result =
      .ok (some p) := congrArg Except.ok hp
  have hperform : perform command s = _ :=
    (congrFun hcommand s).trans (bind_ok hfound)
  exact congrArg (fun o => (o.state, (⟨o.result, o.trace⟩ : Reply))) hperform

/-- A command on a patch, as it ends. -/
theorem step_onPatch (command : Command) {act : Action (Patch × Host) Answer}
    {Q : Answer → Patch × Host → Prop} {E : Fault → Patch × Host → Prop}
    (hcommand : perform command = onPatch id act)
    (hp : s.patch? id = some p) (h : Triple (fun st => st = (p, s.host)) act Q E) :
    ∃ st, (s.step command).1 = { s.insert id (.patch st.1) with host := st.2 } ∧
      (s.step command).1.patch? id = some st.1 ∧ Ends Q E (s.step command).2.result st := by
  rw [step_onPatch_eq command hcommand hp]
  exact ⟨(act (p, s.host)).state, rfl, patch?_insert_self _, h (p, s.host) rfl⟩

/-- A command on a patch that does not exist is refused. -/
theorem step_onPatch_refused (command : Command) {act : Action (Patch × Host) Answer}
    (hcommand : perform command = onPatch id act) (hp : s.patch? id = none) :
    s.step command = (s, ⟨.ok .refused, []⟩) := by
  have hfound : (Action.gets (fun s : Session => (s.get? id).bind Object.patch?) s).result =
      .ok none := congrArg Except.ok hp
  have hperform : perform command s = _ :=
    (congrFun hcommand s).trans (bind_ok hfound)
  exact congrArg (fun o => (o.state, (⟨o.result, o.trace⟩ : Reply))) hperform

/-- A patch that is stored as it was, with the host as it was, changes nothing. -/
theorem insert_patch_self (hp : s.patch? id = some p) :
    ({ s.insert id (.patch p) with host := s.host } : Session) = s := by
  have hinsert : s.objects.insert id (.patch p) = s.objects :=
    Objects.insert_of_get? (get?_of_patch? hp)
  rw [insert, hinsert]

/-- How a patch is asked for its target. -/
theorem step_target_eq (hp : s.patch? id = some p) :
    s.step (.target id) =
      ({ s.insert id (.patch (Patch.target (p, s.host)).state.1) with
          host := (Patch.target (p, s.host)).state.2 },
        ⟨(Patch.target (p, s.host)).result.map fun found => found.elim .refused .address,
          (Patch.target (p, s.host)).trace⟩) := by
  -- That there is no target is answered like a name without a patch.
  have hact : perform (.target id) =
      onPatch id (do return (← Patch.target).elim .refused .address) := by
    refine congrArg (onPatch id) (congrArg (Patch.target >>= ·) (funext fun found => ?_))
    cases found <;> rfl
  have hstep := step_onPatch_eq (.target id) hact hp
  rw [map_eq] at hstep
  exact hstep

/-- A target that is known is answered, and nothing is done. -/
theorem step_target_known {address : Address} (hp : s.patch? id = some p)
    (h : Patch.target (p, s.host) = ⟨.ok (some address), (p, s.host), []⟩) :
    s.step (.target id) = (s, ⟨.ok (.address address), []⟩) := by
  rw [step_target_eq hp, h]
  exact congrArg (·, _) (insert_patch_self hp)

/-- How a patch is installed. -/
theorem step_install_eq (hp : s.patch? id = some p) :
    s.step (.install id) =
      ({ s.insert id (.patch (Patch.install (p, s.host)).state.1) with
          host := (Patch.install (p, s.host)).state.2 },
        ⟨(Patch.install (p, s.host)).result.map fun _ => .done,
          (Patch.install (p, s.host)).trace⟩) := by
  have hstep := step_onPatch_eq (.install id) rfl hp
  rw [map_eq] at hstep
  exact hstep

/-- How a patch is uninstalled. -/
theorem step_uninstall_eq (hp : s.patch? id = some p) :
    s.step (.uninstall id) =
      ({ s.insert id (.patch (Patch.uninstall (p, s.host)).state.1) with
          host := (Patch.uninstall (p, s.host)).state.2 },
        ⟨(Patch.uninstall (p, s.host)).result.map fun _ => .done,
          (Patch.uninstall (p, s.host)).trace⟩) := by
  have hstep := step_onPatch_eq (.uninstall id) rfl hp
  rw [map_eq] at hstep
  exact hstep

/-- After its end a patch is gone. -/
theorem step_drop_patch? (s : Session) (id : String) :
    (s.step (.drop id)).1.patch? id = none := by
  cases hget : (s.get? id).bind some with
  | none =>
      have hstate : (s.step (.drop id)).1 = s := withObject_refused hget
      rw [hstate, patch?_of_get?_none (by rwa [Option.bind_fun_some] at hget)]
  | some o =>
      -- The name is given up first, and what the object does at its end brings no patch back.
      have hnext : Triple (fun _ => True)
          (do Action.modify (·.erase id); onHost o.drop; return .done : Action Session Answer)
          (fun _ s => s.patch? id = none) fun _ s => s.patch? id = none := by
        refine .bind_modify (answer_beside _ _) fun s _ => ?_
        exact patch?_erase_self id
      have hstate : (s.step (.drop id)).1 = _ := withObject_state hget
      rw [hstate]
      exact hnext.after True.intro

/-- Which patches are installed is changed by commands on them alone. -/
theorem installed_step (hother : command.handled? ≠ some id) :
    (s.step command).1.patch? id = some p ∧ p.isInstalled = true ↔
      s.patch? id = some p ∧ p.isInstalled = true := by
  refine ⟨fun h => ?_, fun h => ⟨step_patch? h.1 hother, h.2⟩⟩
  cases hp : s.patch? id with
  | none =>
      -- A patch that is new is not installed.
      have hnew := (step_new hp hother h.1).1
      rw [h.2] at hnew
      exact absurd hnew.symm Bool.false_ne_true
  | some q =>
      have hq := step_patch? hp hother
      rw [h.1] at hq
      exact ⟨hq.symm, h.2⟩

/-- Pages are only ever handed out further up. -/
theorem next_le_step (hs : s.Accounted floor kept owned) (command : Command) :
    s.host.memory.next ≤ (s.step command).1.host.memory.next := by
  -- The account is kept with what is next as its floor, which the command does not go below.
  have hself : s.Accounted s.host.memory.next (fun _ _ => True) owned :=
    ⟨⟨hs.proper.names, fun _ => True.intro⟩, hs.owns.orderly, hs.owns.extents, Nat.le_refl _⟩
  have hstep := step_accounted hself command fun _ _ _ => True.intro
  exact hstep.owns.later

/-- Making a patch touches no memory. -/
theorem step_patch_same (s : Session) (other : String) (design : Design) (site : Site)
    (unprotected : Bool) :
    s.host.memory.Same (s.step (.patch other design site unprotected)).1.host.memory := by
  have hmake : Preserves (fun s' : Session => s.host.memory.Same s'.host.memory)
      (perform (.patch other design site unprotected)) := by
    refine .bind (.gets _) fun result => ?_
    cases result with
    | none => exact .ret _
    | some result =>
        refine .bind (.ofExcept _) fun source => .bind (.gets _) fun found => ?_
        cases found with
        | some _ => exact .ret _
        | none =>
            -- Only the site is looked for, and the loader has no part in memory.
            have hlocate : Preserves (fun host : Host => s.host.memory.Same host.memory)
                (do return Patch.place (← locate site) source unprotected : Action Host Patch) :=
              .bind (locate_untouched site _) fun _ => .ret _
            refine .bind (.within fun s' hs' => ?_) fun p => ?_
            · exact hlocate.before fun host hh => hh ▸ hs'
            · exact .bind (.modify fun _ h => h) fun _ => .ret _
  exact hmake.after (.refl _)

/-- The intercepts of all patches are live. -/
def InterceptsLive (s : Session) : Prop :=
  ∀ id p, s.patch? id = some p → p.source.IsLive

/-- Who owns the branches after a command on a patch. Nothing is asked of the branches of
    other patches but that they are as they were. -/
theorem owners_step {live' : List LiveBranch} (h : s.BranchesAccounted owned live)
    (hhandled : command.handled? = some id)
    (hothers : ∀ other p, other ≠ id →
      ((⟨some other, p⟩ : LiveBranch) ∈ live' ↔ (⟨some other, p⟩ : LiveBranch) ∈ live))
    (hself : ∀ p, (⟨some id, p⟩ : LiveBranch) ∈ live' ↔
      (s.step command).1.patch? id = some p ∧ p.isInstalled = true) (other : String) (p : Patch) :
    (⟨some other, p⟩ : LiveBranch) ∈ live' ↔
      (s.step command).1.patch? other = some p ∧ p.isInstalled = true := by
  by_cases hother : other = id
  · rw [hother]
    exact hself p
  · -- The branches of other patches are as they were, and so is what is installed.
    have hnot : command.handled? ≠ some other := fun heq =>
      hother (Option.some.inj (heq.symm.trans hhandled))
    rw [hothers other p hother, h.owners, installed_step hnot]

section Steps

variable (hs : s.Accounted floor (fun _ _ => True) owned) (h : s.BranchesAccounted owned live)

include hs h

/-- A command that handles no patch leaves the account as it is. -/
theorem step_unhandled (hhandled : command.handled? = none) (hpermits : s.Permits live command) :
    (s.step command).1.BranchesAccounted (s.leaks command ++ owned)
      (s.branchesAfter live command) := by
  have hbranches : s.branchesAfter live command = live := by
    cases command <;> first | rfl | exact absurd hhandled (Option.some_ne_none _)
  -- Most commands are asked not to write to the branches, and the others write nothing.
  have hbytes : ∀ b ∈ live, ∀ i < Branch.size,
      (s.step command).1.host.memory.contents (b.patch.site.toNat + i) =
        s.host.memory.contents (b.patch.site.toNat + i) := by
    cases command with
    | patch other design site unprotected =>
        intro b _ i _
        rw [(step_patch_same s other design site unprotected).contents]
    | failAllocations count => exact fun _ _ _ _ => rfl
    | arrangeProtections refusals => exact fun _ _ _ _ => rfl
    | install _ | uninstall _ | target _ | drop _ =>
        exact absurd hhandled (Option.some_ne_none _)
    | _ => exact hpermits
  rw [hbranches]
  refine ⟨h.anchored.subset (fun _ hb => hb) (next_le_step hs command) hbytes, fun id p => ?_,
    fun p hp e he => List.mem_append_right _ (h.orphans p hp e he)⟩
  rw [installed_step (by rw [hhandled]; exact (Option.some_ne_none id).symm)]
  exact h.owners id p

/-- A command on a patch that changes neither what is installed nor older contents
    leaves the account as it is. -/
theorem step_unchanged {live' : List LiveBranch} (hhandled : command.handled? = some id)
    (hlive : ∀ b, b ∈ live' ↔ b ∈ live)
    (hself : ∀ p, (s.step command).1.patch? id = some p ∧ p.isInstalled = true ↔
      s.patch? id = some p ∧ p.isInstalled = true)
    (hcontents : ∀ a < s.host.memory.next,
      (s.step command).1.host.memory.contents a = s.host.memory.contents a) :
    (s.step command).1.BranchesAccounted (s.leaks command ++ owned) live' := by
  refine ⟨h.anchored.subset (fun b hb => (hlive b).mp hb) (next_le_step hs command)
    fun b hb i hi => hcontents _ (h.anchored.placed b ((hlive b).mp hb) i hi),
    owners_step h hhandled (fun _ _ _ => hlive _) fun p => ?_,
    fun p hp e he => List.mem_append_right _ (h.orphans p ((hlive _).mp hp) e he)⟩
  rw [hlive, h.owners, hself]

/-- A command after which a patch is installed if it was, and then is what it was, leaves
    the account as it is. -/
theorem step_stayed {st : Patch × Host} (hhandled : command.handled? = some id)
    (hp : s.patch? id = some p) (hself : (s.step command).1.patch? id = some st.1)
    (hmemory : (s.step command).1.host.memory = st.2.memory) (hstays : p.Stays s.host.memory st)
    (hheld : p.isInstalled = true → st.1 = p) :
    (s.step command).1.BranchesAccounted (s.leaks command ++ owned) live := by
  have hinstalled : st.1.isInstalled = p.isInstalled := congrArg Option.isSome hstays.saved
  -- A patch may get its intercept here, but then it is not installed and has no branch.
  refine step_unchanged hs h hhandled (fun _ => .rfl) (fun q => ?_) fun a ha => ?_
  · rw [hself, hp, Option.some.injEq, Option.some.injEq]
    constructor
    · rintro ⟨rfl, hq⟩
      exact ⟨(hheld (hinstalled.symm.trans hq)).symm, hq⟩
    · rintro ⟨rfl, hq⟩
      exact ⟨hheld hq, hq⟩
  · rw [hmemory]
    exact hstays.contents a ha

/-- A command that is refused leaves the account as it is. -/
theorem step_refused_branches (hhandled : command.handled? = some id)
    (hstate : (s.step command).1 = s) :
    (s.step command).1.BranchesAccounted (s.leaks command ++ owned) live := by
  refine step_unchanged hs h hhandled (fun _ => .rfl) ?_ ?_ <;> rw [hstate]
  · exact fun _ => .rfl
  · exact fun _ _ => rfl

/-- A patch that is not installed any more takes its branch with it. -/
theorem step_removed {saved : List UInt8} (hhandled : command.handled? = some id)
    (hp : s.patch? id = some p) (hsaved : p.saved = some saved)
    (hself : ∀ q, (s.step command).1.patch? id = some q → q.isInstalled = false)
    (hcontents : (s.step command).1.host.memory.contents =
      (s.host.memory.write p.site.toNat saved).contents) :
    (s.step command).1.BranchesAccounted (s.leaks command ++ owned) (removed live id) := by
  have hinstalled : p.isInstalled = true := by
    rw [Patch.isInstalled, hsaved]
    rfl
  have hmem := (h.owners id p).mpr ⟨hp, hinstalled⟩
  -- The patch kept as many bytes as a branch has, so no more than its own are written.
  have hlength : saved.length = Branch.size := by
    rcases h.anchored.saved _ hmem with ⟨saved', hsaved', hlength⟩
    rw [hsaved, Option.some.injEq] at hsaved'
    rw [hsaved']
    exact hlength
  refine ⟨h.anchored.subset (fun b hb => (mem_removed.mp hb).1) (next_le_step hs command)
    fun b hb i hi => ?_, owners_step h hhandled (fun other q hother => ?_) fun q => ?_,
    fun q hq e he => List.mem_append_right _ (h.orphans q (mem_removed.mp hq).1 e he)⟩
  · -- The branches that stay are apart from the one that goes.
    rcases mem_removed.mp hb with ⟨hb, howner⟩
    rcases h.anchored.apart _ hmem b hb with heq | hapart
    · exact absurd (congrArg LiveBranch.owner heq).symm howner
    · exact contents_of_apart hlength hapart hcontents hi
  · rw [owner_mem_removed, and_iff_right hother]
  · -- The patch itself owns none any more, and is not installed.
    rw [owner_mem_removed]
    refine iff_of_false (fun hq => hq.1 rfl) fun hq => ?_
    rw [hself q hq.1] at hq
    exact Bool.false_ne_true hq.2

theorem step_uninstalled :
    (s.step (.uninstall id)).1.BranchesAccounted (s.leaks (.uninstall id) ++ owned)
      (s.branchesAfter live (.uninstall id)) := by
  cases hp : s.patch? id with
  | none =>
      have hstep := step_onPatch_refused (.uninstall id) rfl hp
      have hbranches : s.branchesAfter live (.uninstall id) = live := by
        simp only [branchesAfter, hstep]
      rw [hbranches]
      exact step_refused_branches hs h rfl (congrArg Prod.fst hstep)
  | some p =>
      have hact : Triple (fun st => st = (p, s.host))
          (do Patch.uninstall; return .done : Action (Patch × Host) Answer)
          (fun answer st => answer = .done ∧ ∃ saved, p.saved = some saved ∧
            st.1 = { p with saved := none } ∧
              (s.host.memory.write p.site.toNat saved).Same st.2.memory)
          fun _ st => st.1 = p ∧ s.host.memory.Same st.2.memory := by
        refine .bind (p.uninstall_clears s.host) fun _ => ?_
        exact .ret fun _ h => ⟨rfl, h⟩
      rcases step_onPatch (.uninstall id) rfl hp hact with ⟨st, hstate, hself, hend⟩
      unfold Ends at hend
      split at hend
      · -- The bytes from before are back, and the branch that covered them is gone.
        next answer hresult =>
          rcases hend with ⟨rfl, saved, hsaved, hpatch, hsame⟩
          have hbranches : s.branchesAfter live (.uninstall id) = removed live id := by
            simp only [branchesAfter, hresult]
          rw [hbranches]
          refine step_removed hs h rfl hp hsaved (fun q hq => ?_) ?_
          · rw [hself, hpatch, Option.some.injEq] at hq
            rw [← hq]
            rfl
          · rw [hstate]
            exact hsame.contents
      · -- Patch and bytes are as they were, and so is the list of branches.
        next fault hresult =>
          rcases hend with ⟨hpatch, hsame⟩
          have hbranches : s.branchesAfter live (.uninstall id) = live := by
            simp only [branchesAfter, hresult]
          rw [hbranches]
          refine step_stayed hs h rfl hp hself (hstate ▸ rfl) ?_ fun _ => hpatch
          exact ⟨hpatch ▸ rfl, hpatch ▸ rfl, fun a _ => congrFun hsame.contents a⟩

/-- A patch that is asked for its target stays where it is. The intercept of an installed
    patch exists, so nothing is generated for it. -/
theorem target_held (hp : s.patch? id = some p) :
    Triple (fun st => st = (p, s.host)) Patch.target
      (fun _ st => p.Stays s.host.memory st ∧ (p.isInstalled = true → st.1 = p))
      fun _ st => p.Stays s.host.memory st ∧ (p.isInstalled = true → st.1 = p) := by
  by_cases hinstalled : p.isInstalled = true
  · rcases h.anchored.stands _ ((h.owners id p).mpr ⟨hp, hinstalled⟩) with
      ⟨kind, code, region, hsource, -⟩
    have hknown : (Patch.target (p, s.host)).state = (p, s.host) := Patch.target_known hsource
    have hsame : p.Stays s.host.memory (p, s.host) ∧ (p.isInstalled = true → p = p) :=
      ⟨⟨rfl, rfl, fun _ _ => rfl⟩, fun _ => rfl⟩
    intro st hst
    rw [hst]
    split
    · rwa [hknown]
    · rwa [hknown]
  · exact (Patch.target_stays (hs.patch_owns hp)).weaken (fun _ hst => hst)
      (fun _ _ hst => ⟨hst, fun heq => absurd heq hinstalled⟩)
      fun _ _ hst => ⟨hst, fun heq => absurd heq hinstalled⟩

/-- The target of an installed patch is known, and that of another patch may be
    generated. -/
theorem step_target :
    (s.step (.target id)).1.BranchesAccounted (s.leaks (.target id) ++ owned)
      (s.branchesAfter live (.target id)) := by
  have hbranches : s.branchesAfter live (.target id) = live := rfl
  rw [hbranches]
  cases hp : s.patch? id with
  | none =>
      have hstep := step_onPatch_refused (.target id) rfl hp
      exact step_refused_branches hs h rfl (congrArg Prod.fst hstep)
  | some p =>
      -- What is answered depends on the target, but the answer changes nothing.
      have hstate := congrArg Prod.fst (step_target_eq hp)
      have hself : (s.step (.target id)).1.patch? id = some (Patch.target (p, s.host)).state.1 := by
        rw [hstate]
        exact patch?_insert_self _
      have hstays : p.Stays s.host.memory (Patch.target (p, s.host)).state ∧
          (p.isInstalled = true → (Patch.target (p, s.host)).state.1 = p) :=
        (target_held hs h hp).after rfl
      exact step_stayed hs h rfl hp hself (hstate ▸ rfl) hstays.1 hstays.2

/-- The end of an object that is no installed patch is no matter of the branches. -/
theorem step_dropped_calm {o : Object} {live' : List LiveBranch} (hget : s.get? id = some o)
    (ho : o.replaced? = none) (hlive : ∀ b, b ∈ live' ↔ b ∈ live) :
    (s.step (.drop id)).1.BranchesAccounted (s.leaks (.drop id) ++ owned) live' := by
  have hcalm := Object.drop_calm ho s.host.memory.contents
  rcases drop_state hget (hcalm.before fun host hh => hh ▸ rfl) with ⟨host, hhost, hstate⟩
  refine step_unchanged hs h rfl hlive (fun p => ?_) fun a _ => ?_
  · -- There was no installed patch under the name, and there is none now.
    rw [step_drop_patch?]
    refine ⟨fun hp => absurd hp.1.symm (Option.some_ne_none p), fun ⟨hp, hinstalled⟩ => ?_⟩
    rw [get?_of_patch? hp, Option.some.injEq] at hget
    rw [← hget, Object.replaced?, Option.map_eq_none_iff] at ho
    rw [Patch.isInstalled, ho] at hinstalled
    exact absurd hinstalled Bool.false_ne_true
  · rw [hstate]
    exact congrFun hhost a

/-- A patch that cannot be uninstalled at its end leaves its branch to nobody. -/
theorem step_abandoned (hp : s.patch? id = some p) (hinstalled : p.isInstalled = true)
    (hfail : (Patch.uninstall (p, s.host)).result.isOk = false) :
    (s.step (.drop id)).1.BranchesAccounted (s.leaks (.drop id) ++ owned)
      (live.map (LiveBranch.abandoned id)) := by
  have hget := get?_of_patch? hp
  rcases drop_state hget (Patch.drop_abandons hinstalled hfail) with ⟨host, hhost, hstate⟩
  have hleaks : s.leaks (.drop id) = p.extents := by
    rw [leaks, hget]
    exact if_pos ⟨hinstalled, hfail⟩
  -- The list of branches is as it was but for the owner of one, and so is memory.
  refine ⟨h.anchored.transfer (LiveBranch.abandoned id) (LiveBranch.patch_abandoned id)
    (fun b hb => List.mem_map.mp hb) (next_le_step hs _) fun b _ i _ => ?_,
    owners_step h rfl (fun other q hother => ?_) fun q => ?_, fun q hq e he => ?_⟩
  · rw [hstate]
    exact congrFun hhost _
  · rw [owner_mem_abandoned, and_iff_right hother]
  · rw [owner_mem_abandoned, step_drop_patch?]
    exact iff_of_false (fun hq => hq.1 rfl) fun hq => Option.some_ne_none q hq.1.symm
  · -- A branch without an owner had none before, or it was that of the patch.
    rcases mem_abandoned.mp hq with hq | hq
    · exact List.mem_append_right _ (h.orphans q hq.1 e he)
    · have hsame := ((h.owners id q).mp hq.2).1
      rw [hp, Option.some.injEq] at hsame
      rw [hleaks, hsame]
      exact List.mem_append_left _ he

/-- A name that stands for no patch is given up without a branch. -/
theorem step_dropped_plain (hp : s.patch? id = none) :
    (s.step (.drop id)).1.BranchesAccounted (s.leaks (.drop id) ++ owned) live := by
  cases hget : s.get? id with
  | none =>
      have hfound : (s.get? id).bind some = none := by
        rw [hget]
        rfl
      exact step_refused_branches hs h rfl (withObject_refused hfound)
  | some o =>
      refine step_dropped_calm hs h hget ?_ fun _ => .rfl
      have hview : o.patch? = none := by
        rw [patch?, hget] at hp
        exact hp
      cases o <;> first | rfl | exact absurd hview (Option.some_ne_none _)

/-- A patch that can be uninstalled at its end takes its branch with it. -/
theorem step_dropped_restored (hp : s.patch? id = some p)
    (hok : (Patch.uninstall (p, s.host)).result.isOk) :
    (s.step (.drop id)).1.BranchesAccounted (s.leaks (.drop id) ++ owned) (removed live id) := by
  rcases Patch.saved_of_uninstall hok with ⟨saved, hsaved⟩
  have hrestores := Patch.drop_restores hsaved hok
  rcases drop_state (get?_of_patch? hp) hrestores with ⟨host, hhost, hstate⟩
  refine step_removed hs h rfl hp hsaved (fun q hq => ?_) ?_
  · rw [step_drop_patch?] at hq
    exact absurd hq.symm (Option.some_ne_none q)
  · rw [hstate]
    exact hhost

/-- A patch that was not installed leaves no branch behind, so to disown its branches
    changes nothing. -/
theorem step_dropped_absent (hp : s.patch? id = some p) (habsent : p.isInstalled = false) :
    (s.step (.drop id)).1.BranchesAccounted (s.leaks (.drop id) ++ owned)
      (live.map (LiveBranch.abandoned id)) := by
  have hnew : ∀ q, (⟨some id, q⟩ : LiveBranch) ∉ live := by
    intro q hq
    rcases (h.owners id q).mp hq with ⟨hpatch, hinstalled⟩
    rw [hp, Option.some.injEq] at hpatch
    rw [← hpatch, habsent] at hinstalled
    exact Bool.false_ne_true hinstalled
  refine step_dropped_calm hs h (get?_of_patch? hp) ?_ fun b => ?_
  · -- It replaced nothing, as there is nothing that it saved.
    rw [Object.replaced?, Option.map_eq_none_iff]
    rwa [Patch.isInstalled, Option.isSome_eq_false_iff, Option.isNone_iff_eq_none] at habsent
  · rw [mem_abandoned]
    refine ⟨fun hb => ?_, fun hb => .inl ⟨hb, fun howner => ?_⟩⟩
    · rcases hb with hb | hb
      · exact hb.1
      · exact absurd hb.2 (hnew _)
    · exact hnew b.patch (howner ▸ hb)

theorem step_dropped :
    (s.step (.drop id)).1.BranchesAccounted (s.leaks (.drop id) ++ owned)
      (s.branchesAfter live (.drop id)) := by
  cases hp : s.patch? id with
  | none =>
      have hbranches : s.branchesAfter live (.drop id) = live := by
        simp only [branchesAfter, hp]
      rw [hbranches]
      exact step_dropped_plain hs h hp
  | some p =>
      by_cases hok : (Patch.uninstall (p, s.host)).result.isOk
      · have hbranches : s.branchesAfter live (.drop id) = removed live id := by
          simp only [branchesAfter, hp, hok, if_true]
        rw [hbranches]
        exact step_dropped_restored hs h hp hok
      · -- To fail at being uninstalled is also to have been absent.
        have hbranches : s.branchesAfter live (.drop id) =
            live.map (LiveBranch.abandoned id) := by
          simp only [branchesAfter, hp, hok, if_false, Bool.false_eq_true]
        rw [hbranches]
        by_cases hinstalled : p.isInstalled = true
        · exact step_abandoned hs h hp hinstalled (Bool.eq_false_iff.mpr hok)
        · exact step_dropped_absent hs h hp (Bool.eq_false_iff.mpr hinstalled)

/-- A branch that was installed is one more branch. -/
theorem step_landed {st : Patch × Host} (hp : s.patch? id = some p)
    (hnew : p.isInstalled = false) (hpermits : s.Permits live (.install id))
    (hself : (s.step (.install id)).1.patch? id = some st.1)
    (hmemory : (s.step (.install id)).1.host.memory = st.2.memory)
    (hlanded : p.Landed s.host.memory st) :
    (s.step (.install id)).1.BranchesAccounted (s.leaks (.install id) ++ owned)
      (⟨some id, st.1⟩ :: removed live id) := by
  rcases hpermits p hp hnew with ⟨-, hmapped, hapart⟩
  have hnext := next_le_step hs (.install id)
  -- The other branches are apart from the one that is written.
  have hothers : Anchored (removed live id) (s.step (.install id)).1.host.memory := by
    refine h.anchored.subset (fun b hb => (mem_removed.mp hb).1) hnext fun b hb i hi => ?_
    rw [hmemory]
    have hb' := (mem_removed.mp hb).1
    refine hlanded.others _ (h.anchored.placed b hb' i hi) ?_
    rcases hapart b hb' with hbefore | hafter <;> omega
  have hinstalled : st.1.isInstalled = true := by
    rcases hlanded.saved with ⟨saved, hsaved, -⟩
    rw [Patch.isInstalled, hsaved]
    rfl
  refine ⟨hothers.add (hmemory ▸ hlanded.stands) hlanded.saved (fun i hi => ?_) fun b hb => ?_,
    owners_step h rfl (fun other q hother => ?_) fun q => ?_, fun q hq e he => ?_⟩
  · -- The site was mapped before, so it lies below the pages that come next.
    rw [hlanded.site]
    exact Nat.lt_of_lt_of_le (hs.owns.orderly.lt_next (hmapped i hi)) hnext
  · have hb' := hapart b (mem_removed.mp hb).1
    rwa [Patch.Apart, ← hlanded.site] at hb'
  · rw [List.mem_cons, LiveBranch.mk.injEq, Option.some.injEq, or_iff_right fun hq => hother hq.1,
      owner_mem_removed, and_iff_right hother]
  · -- The branch of the patch is the new one, as any other of its own was taken out.
    rw [List.mem_cons, LiveBranch.mk.injEq, owner_mem_removed, hself]
    refine ⟨fun hq => ?_, fun hq => .inl ⟨rfl, (Option.some.inj hq.1).symm⟩⟩
    rcases hq with hq | hq
    · rw [hq.2]
      exact ⟨rfl, hinstalled⟩
    · exact absurd rfl hq.1
  · -- The new branch has an owner, so the orphans are those from before.
    rcases List.mem_cons.mp hq with heq | hq
    · exact absurd (congrArg LiveBranch.owner heq) (Option.some_ne_none id).symm
    · exact List.mem_append_right _ (h.orphans q (mem_removed.mp hq).1 e he)

/-- A patch that is installed already keeps its branch. -/
theorem step_installed_again (hp : s.patch? id = some p) (hinstalled : p.isInstalled = true) :
    (s.step (.install id)).1.BranchesAccounted (s.leaks (.install id) ++ owned)
      (s.branchesAfter live (.install id)) := by
  have hact : Triple (fun st => st = (p, s.host))
      (do Patch.install; return .done : Action (Patch × Host) Answer)
      (fun answer st => answer = .done ∧ st = (p, s.host)) fun _ _ => False := by
    refine .bind (Patch.install_held hinstalled) fun _ => ?_
    exact .ret fun _ h => ⟨rfl, h⟩
  rcases step_onPatch (.install id) rfl hp hact with ⟨st, hstate, hself, hend⟩
  unfold Ends at hend
  split at hend
  · next answer hresult =>
      rcases hend with ⟨rfl, rfl⟩
      have hbranches : s.branchesAfter live (.install id) =
          ⟨some id, p⟩ :: removed live id := by
        simp only [branchesAfter, hresult, hself]
      rw [hbranches]
      refine step_unchanged hs h rfl (fun b => ?_) (fun q => ?_) fun a _ => ?_
      · -- The branch that comes first is the one that was taken out.
        rw [List.mem_cons, mem_removed]
        refine ⟨fun hb => ?_, fun hb => ?_⟩
        · rcases hb with hb | hb
          · exact hb ▸ (h.owners id p).mpr ⟨hp, hinstalled⟩
          · exact hb.1
        · by_cases howner : b.owner = some id
          · -- A patch owns no branch but its own.
            have hpatch := ((h.owners id b.patch).mp (howner ▸ hb)).1
            rw [hp, Option.some.injEq] at hpatch
            rw [hpatch, ← howner]
            exact .inl rfl
          · exact .inr ⟨hb, howner⟩
      · rw [hself, hp]
      · rw [hstate]
  · exact hend.elim

theorem step_installed (hlive : s.InterceptsLive) (hpermits : s.Permits live (.install id)) :
    (s.step (.install id)).1.BranchesAccounted (s.leaks (.install id) ++ owned)
      (s.branchesAfter live (.install id)) := by
  cases hp : s.patch? id with
  | none =>
      have hstep := step_onPatch_refused (.install id) rfl hp
      have hbranches : s.branchesAfter live (.install id) = live := by
        simp only [branchesAfter, hstep]
      rw [hbranches]
      exact step_refused_branches hs h rfl (congrArg Prod.fst hstep)
  | some p =>
      by_cases hinstalled : p.isInstalled = true
      · exact step_installed_again hs h hp hinstalled
      have hnew : p.isInstalled = false := Bool.eq_false_iff.mpr hinstalled
      rcases (hpermits p hp hnew).1 with ⟨kind, code, memory, hsource⟩
      have hinstall := Patch.install_landed (hs.patch_owns hp) (hlive id p hp) hsource hnew
      have hact : Triple (fun st => st = (p, s.host))
          (do Patch.install; return .done : Action (Patch × Host) Answer)
          (fun answer st => answer = .done ∧ p.Landed s.host.memory st)
          fun _ st => p.Stays s.host.memory st := by
        refine .bind hinstall fun _ => ?_
        exact .ret fun _ h => ⟨rfl, h⟩
      rcases step_onPatch (.install id) rfl hp hact with ⟨st, hstate, hself, hend⟩
      unfold Ends at hend
      split at hend
      · -- The branch has landed, and joins the list.
        next answer hresult =>
          rcases hend with ⟨rfl, hlanded⟩
          have hbranches : s.branchesAfter live (.install id) =
              ⟨some id, st.1⟩ :: removed live id := by
            simp only [branchesAfter, hresult, hself]
          rw [hbranches]
          exact step_landed hs h hp hnew hpermits hself (hstate ▸ rfl) hlanded
      · -- Whatever failed, no bytes of the branch are in memory.
        next fault hresult =>
          have hbranches : s.branchesAfter live (.install id) = live := by
            simp only [branchesAfter, hresult]
          rw [hbranches]
          refine step_stayed hs h rfl hp hself (hstate ▸ rfl) hend fun heq => ?_
          exact absurd heq hinstalled

end Steps

end Session

end Hotpatch
