import Hotpatch.Proofs.Patching.Overlay

/-!
# Patches Beside A Command

A command leaves every patch alone but the one that it handles. There are four commands
that handle a patch. All others either make an object under a name that is free, or
put an object back under the name of one of its kind, and no such name is that of a
patch. Only one command makes new patches. A new patch is not installed, and its
intercept is not generated yet if it is to have one.

## Main definitions

* `Command.handled?`: The name of the patch that a command handles.
* `Session.Beside`: An action that leaves the patch of a name alone.

## Theorems

* `patch?_insert_of_ne`, `patch?_insert_plain`: The patches after an object was stored.
* `keep_beside`, `withObject_beside`: The shapes of commands.
* `perform_beside`, `step_patch?`: The patch of another name.
* `step_new`: A name without a patch.
-/

namespace Hotpatch

open Hotpatch.Action

/-- The name of the patch that a command handles. -/
def Command.handled? : Command → Option String
  | .install id => some id
  | .uninstall id => some id
  | .target id => some id
  | .drop id => some id
  | _ => none

namespace Session

variable {s : Session} {id other : String} {found : Option Patch} {p : Patch} {α : Type}

/-- An object stored under another name. -/
theorem patch?_insert_of_ne (h : id ≠ other) (o : Object) :
    (s.insert other o).patch? id = s.patch? id := by
  change ((s.objects.insert other o).get? id).bind Object.patch? = _
  rw [Objects.get?_insert_of_ne h]
  rfl

/-- An object as it was stored. -/
theorem patch?_insert_self (o : Object) : (s.insert id o).patch? id = o.patch? := by
  change ((s.objects.insert id o).get? id).bind Object.patch? = _
  rw [Objects.get?_insert_self]
  rfl

/-- An object that is no patch, stored where there was no patch. -/
theorem patch?_insert_plain {o : Object} (ho : o.patch? = none)
    (hother : id = other → s.patch? id = none) : (s.insert other o).patch? id = s.patch? id := by
  by_cases heq : id = other
  · rw [hother heq, heq, patch?_insert_self, ho]
  · exact patch?_insert_of_ne heq o

/-- An object taken from under another name. -/
theorem patch?_erase_of_ne (h : id ≠ other) : (s.erase other).patch? id = s.patch? id := by
  change ((s.objects.erase other).get? id).bind Object.patch? = _
  rw [Objects.get?_erase_of_ne h]
  rfl

theorem patch?_erase_self (id : String) : (s.erase id).patch? id = none := by
  change ((s.objects.erase id).get? id).bind Object.patch? = _
  rw [Objects.get?_erase_self]
  rfl

theorem patch?_of_get?_none (h : s.get? id = none) : s.patch? id = none := by
  rw [patch?, h]
  rfl

/-- An object that is seen as something else is no patch. -/
theorem patch?_of_view {view : Object → Option α} {a : α}
    (hview : ∀ o a, view o = some a → o.patch? = none)
    (h : (s.get? id).bind view = some a) : s.patch? id = none := by
  rcases Option.bind_eq_some_iff.mp h with ⟨o, hget, ho⟩
  rw [patch?, hget]
  exact hview o a ho

/-- An action on a session that leaves the patch of a name alone, or leaves the name
    without a patch. -/
abbrev Beside (id : String) (found : Option Patch) (act : Action Session α) : Prop :=
  Preserves (fun s => s.patch? id = found) act

theorem onHost_beside (act : Action Host α) : Beside id found (onHost act) := by
  -- Whatever the host does, the objects are those from before.
  refine .within fun s hs => ?_
  exact Triple.trivial.weaken (fun _ h => h) (fun _ _ _ => hs) fun _ _ _ => hs

/-- An action on the host and an answer. -/
theorem answer_beside (act : Action Host α) (answer : α → Answer) :
    Beside id found (do return answer (← onHost act)) := by
  refine .bind (onHost_beside act) fun a => ?_
  exact .ret (answer a)

/-- An object that is no patch, stored where there was no patch. -/
theorem insert_beside {o : Object} (ho : o.patch? = none) (hother : id = other → found = none) :
    Beside id found (Action.modify fun s => s.insert other o) := by
  refine .modify fun s hs => ?_
  have hinsert : (s.insert other o).patch? id = s.patch? id :=
    patch?_insert_plain ho fun heq => hs.trans (hother heq)
  exact hinsert.trans hs

theorem withFree_beside {act : Action Session Answer}
    (h : (id = other → found = none) → Beside id found act) :
    Beside id found (withFree other act) := by
  refine .bind_gets fun o => ?_
  cases o with
  | some _ => exact .ret fun _ hs => hs.1
  | none =>
      -- If the name is the one looked at, that it is free means that it has no patch.
      refine .assuming (fun s hs heq => ?_) fun hother => Triple.before (h hother) fun _ hs => hs.1
      exact hs.1.symm.trans (patch?_of_get?_none (heq ▸ hs.2))

/-- A new object takes a name that is free. -/
theorem keep_beside (make : Action Host α) {object : α → Object}
    (ho : ∀ a, (object a).patch? = none) (address : α → Address) :
    Beside id found (keep other make object address) := by
  refine withFree_beside fun hother => ?_
  refine .bind (onHost_beside make) fun a => ?_
  exact .bind (insert_beside (ho a) hother) fun _ => .ret _

/-- A command on an object that is no patch. -/
theorem withObject_beside {view : Object → Option α} {next : α → Action Session Answer}
    (hview : ∀ o a, view o = some a → o.patch? = none)
    (h : (id = other → found = none) → ∀ a, Beside id found (next a)) :
    Beside id found (withObject other view next) := by
  refine .bind_gets fun o => ?_
  cases o with
  | none => exact .ret fun _ hs => hs.1
  | some a =>
      -- What is found there is no patch, so the name has none.
      refine .assuming (fun s hs heq => ?_) fun hother =>
        Triple.before (h hother a) fun _ hs => hs.1
      exact hs.1.symm.trans (patch?_of_view hview (heq ▸ hs.2))

/-- A command that only looks at an object. -/
theorem look_beside {view : Object → Option α} {next : α → Action Session Answer}
    (h : ∀ a, Beside id found (next a)) : Beside id found (withObject other view next) := by
  refine .bind_gets fun o => ?_
  cases o with
  | none => exact .ret fun _ hs => hs.1
  | some a => exact Triple.before (h a) fun _ hs => hs.1

/-- A command on another patch. -/
theorem onPatch_beside (hother : id ≠ other) (act : Action (Patch × Host) Answer) :
    Beside id found (onPatch other act) := by
  refine look_beside fun p' => .within fun s hs => ?_
  have hafter : ∀ st : Patch × Host,
      Session.patch? { s.insert other (.patch st.1) with host := st.2 } id = found :=
    fun st => (patch?_insert_of_ne hother (.patch st.1)).trans hs
  exact Triple.trivial.weaken (fun _ h => h) (fun _ st _ => hafter st) fun _ st _ => hafter st

theorem onCode_beside {program : Program} {act : Action (Code × Host) α}
    {answer : α → Action Session Answer} (h : ∀ a, Beside id found (answer a)) :
    Beside id found (onCode program act answer) := by
  refine .bind (onHost_beside _) fun out => ?_
  rcases out with ⟨fault | a, runs⟩
  · exact .ret _
  · exact .bind (h a) fun _ => .ret _

/-- A routine takes over what another object was, under a name that is free or under
    that of the object. -/
theorem routine_beside {source : String} (r : Routine)
    (hsource : id = source → found = none) :
    Beside id found (do
      match (← Action.gets fun s => (s.erase source).get? other) with
      | none =>
        Action.modify fun s => (s.erase source).insert other (.routine r)
        return .address r.address
      | some _ => return .refused : Action Session Answer) := by
  refine .bind_gets fun o => ?_
  cases o with
  | some _ => exact .ret fun _ hs => hs.1
  | none =>
      -- Neither the name that is taken nor the one that is given up is that of a patch.
      refine .bind_modify (.ret fun _ h => h) fun s hs => ?_
      have herased : (s.erase source).patch? id = found := by
        by_cases heq : id = source
        · rw [hsource heq, heq]
          exact patch?_erase_self source
        · exact (patch?_erase_of_ne heq).trans hs.1
      refine (patch?_insert_plain rfl fun heq => ?_).trans herased
      exact patch?_of_get?_none (heq ▸ hs.2)

/-- An object that gives back what it owns, and is no patch before or after. -/
theorem giveBack_beside {view : Object → Option α} {object : α → Object}
    (give : α → Action Host α) (answer : α → Answer)
    (hview : ∀ o a, view o = some a → o.patch? = none) (ho : ∀ a, (object a).patch? = none) :
    Beside id found (withObject other view fun a => do
      let a' ← onHost (give a)
      Action.modify (·.insert other (object a'))
      return answer a') := by
  refine withObject_beside hview fun hother a => ?_
  refine .bind (onHost_beside (give a)) fun a' => ?_
  exact .bind (insert_beside (ho a') hother) fun _ => .ret _

/-- A new patch takes a name that is free, which is not the name of a patch. -/
theorem patch_beside (design : Design) (site : Site) (unprotected : Bool)
    (hnew : found = none → id ≠ other) :
    Beside id found (perform (.patch other design site unprotected)) := by
  refine .bind (.gets _) fun result => ?_
  cases result with
  | none => exact .ret _
  | some result =>
      refine .bind (.ofExcept _) fun source => withFree_beside fun hother => ?_
      have hne : id ≠ other := fun heq => hnew (hother heq) heq
      refine .bind (onHost_beside _) fun p => ?_
      refine .bind (.modify fun s hs => ?_) fun _ => .ret _
      exact (patch?_insert_of_ne hne (.patch p)).trans hs

/-- A command leaves every patch alone but the one that it handles. Unless it makes a
    patch itself, a name that has none has none after it either. -/
theorem perform_beside {command : Command} (hother : command.handled? ≠ some id)
    (hnew : found = none → ∀ other design site unprotected,
      command ≠ .patch other design site unprotected) :
    Beside id found (perform command) := by
  have hne : ∀ {other : String}, some other ≠ some id → id ≠ other := fun h heq => h (heq ▸ rfl)
  have hregion : ∀ o r, Object.region? o = some r → o.patch? = none := fun o r h =>
    Object.eq_of_region? h ▸ rfl
  cases command with
  -- the environment
  | mapPages id' length protection => exact keep_beside _ (fun _ => rfl) _
  | protection address => exact .gets _
  | failAllocations count => exact answer_beside _ fun _ => .done
  | arrangeProtections refusals => exact answer_beside _ fun _ => .done
  | peek address length => exact answer_beside _ _
  | poke address bytes => exact answer_beside _ _
  | flush address length => exact .ret _
  | guard address length probes =>
      refine .bind (onHost_beside _) fun before => ?_
      refine .bind (onHost_beside _) fun inside => ?_
      exact answer_beside _ _
  -- executable memory
  | allocate id' size => exact keep_beside _ (fun _ => rfl) _
  | ofBytes id' bytes => exact keep_beside _ (fun _ => rfl) _
  | generate id' program =>
      refine withFree_beside fun hid => onCode_beside fun r => ?_
      exact .bind (insert_beside rfl hid) fun _ => .ret _
  | write id' offset bytes => exact look_beside fun r => answer_beside _ _
  | read id' offset length => exact look_beside fun r => answer_beside _ _
  | contains id' address => exact look_beside fun r => .ret _
  | release id' => exact giveBack_beside _ _ hregion fun _ => rfl
  -- live code
  | resident id' site => exact keep_beside _ (fun _ => rfl) _
  | overwrite id' bytes => exact look_beside fun live => answer_beside _ _
  | overwriteWith id' program => exact look_beside fun live => onCode_beside fun _ => .ret _
  | inspect id' length => exact look_beside fun live => answer_beside _ _
  | assemble id' program => exact look_beside fun live => onCode_beside fun _ => .ret _
  | routine id' source =>
      refine withObject_beside (fun o r h => ?_) fun hsource r => routine_beside r hsource
      cases o <;> first | rfl | exact absurd h (Option.some_ne_none r).symm
  | routineRelease id' =>
      exact giveBack_beside _ _ (fun o r h => Object.eq_of_routine? h ▸ rfl) fun _ => rfl
  | trampoline id' b arity target => exact keep_beside _ (fun _ => rfl) _
  -- patches
  | patch id' design site unprotected =>
      refine patch_beside design site unprotected fun hnone => ?_
      exact absurd rfl (hnew hnone id' design site unprotected)
  | install id' => exact onPatch_beside (hne hother) _
  | uninstall id' => exact onPatch_beside (hne hother) _
  | target id' => exact onPatch_beside (hne hother) _
  -- write barriers
  | defineBarrier barrier => exact answer_beside _ fun _ => .done
  | setBarrier name =>
      refine .bind (.gets _) fun barrier => ?_
      cases barrier with
      | none => exact .ret _
      | some barrier => exact answer_beside _ _
  | clearBarrier => exact answer_beside _ _
  -- any object
  | drop id' =>
      -- The name that is given up is another's, as that of the patch would be handled.
      refine look_beside fun o => .bind (.modify fun s hs => ?_) fun _ => answer_beside _ _
      exact (patch?_erase_of_ne (hne hother)).trans hs
  | info id' => exact look_beside fun o => answer_beside _ _

/-- A patch that is not handled stays as it is. -/
theorem step_patch? {command : Command} (hp : s.patch? id = some p)
    (hother : command.handled? ≠ some id) : (s.step command).1.patch? id = some p := by
  exact (perform_beside hother fun h => absurd h (Option.some_ne_none p)).after hp

/-- A new patch is not installed, and leads to no intercept that is generated already. -/
theorem patch_new (other : String) (design : Design) (site : Site) (unprotected : Bool) :
    Triple (fun s => s.patch? id = none) (perform (.patch other design site unprotected))
      (fun _ s => ∀ p, s.patch? id = some p → p.isInstalled = false ∧ p.intercept? = none)
      fun _ s => ∀ p, s.patch? id = some p → p.isInstalled = false ∧ p.intercept? = none := by
  have hnone : ∀ s : Session, s.patch? id = none → ∀ p, s.patch? id = some p →
      p.isInstalled = false ∧ p.intercept? = none := by
    intro s hs p hp
    rw [hs] at hp
    exact absurd hp.symm (Option.some_ne_none p)
  refine .bind_gets fun result => ?_
  cases result with
  | none => exact .ret fun s h => hnone s h.1
  | some result =>
      refine .bind (Q := fun source s => source.target?.bind Target.memory? = none ∧
        s.patch? id = none) (.ofExcept (fun source s hsource h => ?_) fun _ s _ h => hnone s h.1)
          fun source => ?_
      · exact ⟨source_pending (h.2.trans (congrArg _ hsource)), h.1⟩
      · refine .assuming (fun _ h => h.1) fun hsource => ?_
        refine .bind_gets fun o => ?_
        cases o with
        | some _ => exact .ret fun s h => hnone s h.1.2
        | none =>
            refine .bind (Q := fun p s => s.patch? id = none ∧ p.isInstalled = false ∧
              p.intercept? = none) (.within fun s h => ?_) fun p => ?_
            · -- Its site may not be found, and then there is no patch.
              refine .bind (Triple.trivial.weaken (fun _ h => h) (fun _ _ h => h)
                fun _ _ _ => hnone _ h.1.2) fun address => .ret fun _ _ => ?_
              exact ⟨h.1.2, Patch.not_isInstalled_place address source unprotected, hsource⟩
            · -- The patch of the name is the new one, or there is none as before.
              refine .bind_modify (.ret fun _ h => h) fun s h p' hp' => ?_
              by_cases heq : id = other
              · rw [heq, patch?_insert_self] at hp'
                rw [← Option.some.inj hp']
                exact h.2
              · rw [patch?_insert_of_ne heq] at hp'
                exact hnone s h.1 p' hp'

/-- Where there was no patch there is a new one or none. -/
theorem step_new {command : Command} (hp : s.patch? id = none)
    (hother : command.handled? ≠ some id) {p : Patch}
    (hnew : (s.step command).1.patch? id = some p) :
    p.isInstalled = false ∧ p.intercept? = none := by
  by_cases hpatch : ∃ other design site unprotected,
      command = .patch other design site unprotected
  · rcases hpatch with ⟨other, design, site, unprotected, rfl⟩
    exact (patch_new other design site unprotected).after hp p hnew
  · have hnone : (s.step command).1.patch? id = none :=
      Triple.after (perform_beside hother fun _ other design site unprotected heq =>
        hpatch ⟨other, design, site, unprotected, heq⟩) hp
    rw [hnone] at hnew
    exact absurd hnew.symm (Option.some_ne_none p)

end Session

end Hotpatch
