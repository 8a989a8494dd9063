import Hotpatch.Proofs.Ownership.Objects
import Hotpatch.Session

/-!
# Ownership Through Commands

What a command does to the account of a session. The account of a session is
that of its objects, together with pages that no object owns any more. No
command but the end of an object changes the second part.

Commands act on the host and on the objects in turn. While one acts on the host
the objects stand still, so what it makes or gives back can be entered as the
difference of two accounts.

The same rules carry what installed patches replaced, since the commands that
handle patches are the only ones that change it.

## Main definitions

* `Session.Accounted`: The account of a session.
* `Session.Stands`: The account of a host while the objects stand still.
* `Command.subject?`: The name of a patch that is handled.

## Theorems

* `keep_accounted`, `withObject_accounted`, `onCode_stands`: The shapes of commands.
* `giveBack_accounted`, `routine_accounted`, `patch_accounted`, `handled_accounted`: The
  commands that change which object owns what.
* `perform_accounted`: All commands but the end of an object.
* `perform_drop`: The end of an object.
-/

namespace Hotpatch

open Hotpatch.Action

/-- The name of the object that a command installs, uninstalls or drops. -/
def Command.subject? : Command → Option String
  | .install id => some id
  | .uninstall id => some id
  | .drop id => some id
  | _ => none

section HostActions

variable {floor : Nat} {owned : List Extent}

/-- What holds of an account since any time holds of an account. -/
theorem Host.owns_of_since {σ α : Type} {act : Action σ α} {host : σ → Host}
    {after : α → List Extent}
    (h : ∀ origin, Triple (fun s => (host s).OwnsSince origin owned) act
      (fun a s => (host s).OwnsSince origin (after a ++ owned))
      fun _ s => (host s).OwnsSince origin owned) :
    Triple (fun s => (host s).Owns floor owned) act
      (fun a s => (host s).Owns floor (after a ++ owned))
      fun _ s => (host s).Owns floor owned := by
  refine .pointwise fun s howns => ?_
  refine (h (host s).memory).weaken (fun s' hs => ?_) (fun _ _ h => h.owns howns.later)
    fun _ _ h => h.owns howns.later
  rw [hs]
  exact howns.since

theorem Host.store_owns (address : Address) (bytes : List UInt8) :
    Preserves (Host.Owns floor owned) (Host.store address bytes) := by
  unfold store
  split
  · exact .fail _
  · exact .modify fun host h => h.write address.toNat bytes

theorem Host.protections_untouched (probes : List Address) :
    Untouched (Session.protections probes) := by
  intro m
  exact .gets _

theorem Region.write_owns (r : Region) (offset : Nat) (bytes : List UInt8) :
    Preserves (Host.Owns floor owned) (r.write offset bytes) := by
  refine .bind (.ofExcept _) fun address => ?_
  exact Host.store_owns address bytes

theorem Region.read_untouched (r : Region) (offset length : Nat) :
    Host.Untouched (r.read offset length) := by
  intro m
  refine .bind (.ofExcept _) fun address => ?_
  exact Host.load_untouched address length m

theorem LiveCode.overwrite_owns (live : LiveCode) (bytes : List UInt8) (unprotected : Bool) :
    Preserves (Host.Owns floor owned) (live.overwrite bytes unprotected) := by
  refine .pointwise fun host howns => ?_
  refine (live.overwrite_writes host.memory bytes unprotected).weaken
    (fun h hh => hh ▸ .refl host.memory) (fun _ _ hs => howns.written hs)
    fun _ _ hs => howns.same hs

theorem LiveCode.overwriteWith_owns (live : LiveCode) :
    Preserves (fun st : Code × Host => st.2.Owns floor owned) live.overwriteWith := by
  -- Running the code is no matter of the host, and writing what it gave is one of contents.
  have hassemble : Preserves (fun st : Code × Host => st.2.Owns floor owned)
      (Code.assemble live.address).onFirst := .onFirst (fun _ _ h => h) fun _ _ h => h
  refine hassemble.bind fun bytes => ?_
  exact (live.overwrite_owns bytes false).onSecond

namespace Session

theorem locate_untouched (site : Site) : Host.Untouched (locate site) := by
  intro m
  cases site with
  | absolute address => exact .ret address
  | inModule resolver name offset =>
      refine .bind (.bind (.within fun host h => ?_) fun _ => .ret _) fun _ => .ret _
      intro loader _
      split <;> exact h

theorem describe_untouched (o : Object) : Host.Untouched (describe o) := by
  intro m
  have hread : ∀ r : Region, Preserves (fun host => m.Same host.memory)
      (do return (⟨o, some (← r.readAll.attempt)⟩ : Info)) :=
    fun r => .bind (.attempt (r.read_untouched 0 r.size m)) fun _ => .ret _
  cases o with
  | trampoline t => exact hread t.region
  | patch p =>
      simp only [describe]
      split
      · next region _ => exact hread region
      · exact .ret _
  | page _ _ => exact .ret _
  | region _ => exact .ret _
  | resident _ => exact .ret _
  | routine _ => exact .ret _

theorem bridge_owns (arity : Nat) (target : Address) (b : Bridge) :
    Triple (Host.Owns floor owned) (bridge arity target b)
      (fun t host => host.Owns floor (t.region.extents ++ owned))
      fun _ host => host.Owns floor owned := by
  cases b with
  | direct direction =>
      exact Host.owns_of_since fun _ => Trampoline.build_owns direction arity target
  | fastcallEntry => exact Host.owns_of_since fun _ => Trampoline.build_owns _ arity target
  | stdcallEntry => exact Host.owns_of_since fun _ => Trampoline.build_owns _ arity target

end Session

end HostActions

namespace Session

variable {floor : Nat} {kept : String → Option (Address × List UInt8) → Prop}
  {owned before : List Extent}
  {os : Objects} {s : Session} {α : Type}

/-- The account of a session: what its objects own, and other pages. -/
structure Accounted (floor : Nat) (kept : String → Option (Address × List UInt8) → Prop)
    (owned : List Extent) (s : Session) : Prop where
  proper : s.objects.Proper kept
  owns : s.host.Owns floor (s.objects.extents ++ owned)

/-- The account of a host, while the objects of its session stand still. -/
structure Stands (floor : Nat) (os : Objects) (owned : List Extent) (s : Session) : Prop where
  objects : s.objects = os
  owns : s.host.Owns floor owned

theorem Accounted.stands (h : s.Accounted floor kept owned) :
    s.Stands floor s.objects (s.objects.extents ++ owned) :=
  ⟨rfl, h.owns⟩

theorem Stands.accounted (h : s.Stands floor os (os.extents ++ owned)) (hos : os.Proper kept) :
    s.Accounted floor kept owned where
  proper := h.objects ▸ hos
  owns := h.objects ▸ h.owns

/-- An object enters under a name, with its part of the account. -/
theorem Stands.insert {id : String} {o : Object}
    (h : s.Stands floor os (o.extents ++ ((os.erase id).extents ++ owned))) (hos : os.Proper kept)
    (hkept : kept id o.replaced?) : (s.insert id o).Accounted floor kept owned := by
  have hperm : (os.insert id o).extents.Perm _ := Objects.extents_insert hos.names
  refine ⟨?_, h.owns.perm ?_⟩
  · rw [Session.insert, h.objects]
    exact hos.insert hkept
  · rw [Session.insert, h.objects, ← List.append_assoc]
    exact (hperm.append_right owned).symm

/-- A new object enters under a name that is free. -/
theorem Stands.insert_new {id : String} {o : Object}
    (h : s.Stands floor os (o.extents ++ (os.extents ++ owned))) (hos : os.Proper kept)
    (hfree : os.get? id = none) (ho : o.replaced? = none) :
    (s.insert id o).Accounted floor kept owned := by
  have hnew : s.Stands floor os (o.extents ++ ((os.erase id).extents ++ owned)) := by
    rw [Objects.erase_of_get?_none hfree]
    exact h
  have hkept := hos.kept id
  rw [Objects.replaced?, hfree] at hkept
  exact hnew.insert hos (ho ▸ hkept)

/-- The part of the account that is under a name. -/
theorem stands_of_get? {id : String} {o : Object} (hos : os.Proper kept)
    (hget : os.get? id = some o) :
    s.Stands floor os (os.extents ++ owned) ↔
      s.Stands floor os (o.extents ++ ((os.erase id).extents ++ owned)) := by
  have hperm := (Objects.extents_of_get? hos.names hget).append_right owned
  rw [List.append_assoc] at hperm
  exact ⟨fun h => ⟨h.objects, h.owns.perm hperm⟩, fun h => ⟨h.objects, h.owns.perm hperm.symm⟩⟩

section Shapes

variable {act : Action Host α} {after : α → List Extent}

/-- An action on the host that never fails leaves the objects alone. -/
theorem onHost_stands
    (h : Triple (Host.Owns floor before) act (fun a host => host.Owns floor (after a))
    fun _ _ => False) :
    Triple (Stands floor os before) (onHost act) (fun a => Stands floor os (after a))
      fun _ _ => False := by
  refine .within fun s hs => ?_
  exact h.weaken (fun host hh => hh ▸ hs.owns) (fun _ _ hh => ⟨hs.objects, hh⟩) fun _ _ hh => hh

/-- An action on the host that is no matter of its account. -/
theorem onHost_accounted (h : ∀ owned, Preserves (Host.Owns floor owned) act) :
    Preserves (Accounted floor kept owned) (onHost act) := by
  refine .within fun s hs => ?_
  exact (h _).weaken (fun host hh => hh ▸ hs.owns) (fun _ _ hh => ⟨hs.proper, hh⟩)
    fun _ _ hh => ⟨hs.proper, hh⟩

theorem onHost_untouched (h : Host.Untouched act) :
    Preserves (Accounted floor kept owned) (onHost act) := by
  refine onHost_accounted fun owned => ?_
  exact h.preserves Host.stable_owns

/-- A command that is answered by what the host answers, and changes no object. -/
theorem answer_accounted (h : Preserves (Accounted floor kept owned) (onHost act))
    (answer : α → Answer) :
    Preserves (Accounted floor kept owned) (do return answer (← onHost act)) := by
  refine h.bind fun a => ?_
  exact .ret (answer a)

/-- A command that needs a free name. -/
theorem withFree_accounted {id : String} {next : Action Session Answer}
    (h : ∀ os : Objects, os.Proper kept → os.get? id = none →
      Triple (Stands floor os (os.extents ++ owned)) next (fun _ => Accounted floor kept owned)
        fun _ => Accounted floor kept owned) :
    Preserves (Accounted floor kept owned) (withFree id next) := by
  refine .pointwise fun s hs => ?_
  refine .bind_known (a := s.objects.get? id) (fun s' h => h ▸ rfl) ?_
  cases hfree : s.objects.get? id with
  | some _ => exact .ret fun s' h => h ▸ hs
  | none =>
      have hnext := h s.objects hs.proper hfree
      exact hnext.before fun s' h => h ▸ hs.stands

/-- An object that is made for a name, and enters under it. -/
theorem keep_accounted {id : String} {object : α → Object} {address : α → Address}
    (h : ∀ owned, Triple (Host.Owns floor owned) act
      (fun a host => host.Owns floor ((object a).extents ++ owned) ∧ (object a).replaced? = none)
      fun _ host => host.Owns floor owned) :
    Preserves (Accounted floor kept owned) (keep id act object address) := by
  refine withFree_accounted fun os hos hfree => ?_
  refine .bind (Q := fun a s => s.Stands floor os ((object a).extents ++ (os.extents ++ owned)) ∧
    (object a).replaced? = none) (.within fun s hs => ?_) fun a => ?_
  · -- While the object is made, what it owns is in no object's part of the account.
    exact (h _).weaken (fun host hh => hh ▸ hs.owns) (fun _ _ hh => ⟨⟨hs.objects, hh.1⟩, hh.2⟩)
      fun _ _ hh => Stands.accounted ⟨hs.objects, hh⟩ hos
  · refine .bind_modify (.ret fun _ h => h) fun s hs => ?_
    exact hs.1.insert_new hos hfree hs.2

/-- An object that is no patch, made for a name. -/
theorem keep_plain {id : String} {object : α → Object} {address : α → Address}
    (h : ∀ owned, Triple (Host.Owns floor owned) act
      (fun a host => host.Owns floor ((object a).extents ++ owned))
      fun _ host => host.Owns floor owned)
    (ho : ∀ a, (object a).replaced? = none) :
    Preserves (Accounted floor kept owned) (keep id act object address) := by
  refine keep_accounted fun owned => ?_
  exact (h owned).weaken (fun _ hs => hs) (fun a _ hs => ⟨hs, ho a⟩) fun _ _ hs => hs

/-- A command on the object of a name, which may take its place. -/
theorem withObject_accounted {id : String} {view : Object → Option α}
    {next : α → Action Session Answer}
    (h : ∀ (os : Objects) (o : Object) (a : α), os.Proper kept → os.get? id = some o →
      view o = some a → Triple (Stands floor os (o.extents ++ ((os.erase id).extents ++ owned)))
        (next a) (fun _ => Accounted floor kept owned) fun _ => Accounted floor kept owned) :
    Preserves (Accounted floor kept owned) (withObject id view next) := by
  refine .pointwise fun s hs => ?_
  refine .bind_known (a := (s.objects.get? id).bind view) (fun s' h => h ▸ rfl) ?_
  cases hfound : (s.objects.get? id).bind view with
  | none => exact .ret fun s' h => h ▸ hs
  | some a =>
      -- The part of the object is told apart from the rest, for the command to account for.
      rcases Option.bind_eq_some_iff.mp hfound with ⟨o, hget, hview⟩
      have hstands := (stands_of_get? hs.proper hget).mp hs.stands
      exact (h s.objects o a hs.proper hget hview).before fun s' h => h ▸ hstands

/-- A command that only looks at the object of a name. -/
theorem withObject_preserves {id : String} {view : Object → Option α}
    {next : α → Action Session Answer} (h : ∀ a, Preserves (Accounted floor kept owned) (next a)) :
    Preserves (Accounted floor kept owned) (withObject id view next) := by
  refine .bind_gets fun found => ?_
  cases found with
  | none => exact .ret fun _ h => h.1
  | some a => exact Triple.before (h a) fun _ h => h.1

/-- Code of the user's that is run on the host, and what is done with the
    result. -/
theorem onCode_stands {program : Program} {act : Action (Code × Host) α}
    {answer : α → Action Session Answer} {Q : Session → Prop}
    (h : Triple (fun st : Code × Host => st.2.Owns floor before) act
      (fun a st => st.2.Owns floor (after a)) fun _ st => st.2.Owns floor before)
    (hanswer : ∀ a, Triple (Stands floor os (after a)) (answer a) (fun _ => Q) fun _ => Q)
    (hfail : ∀ s, s.Stands floor os before → Q s) :
    Triple (Stands floor os before) (onCode program act answer) (fun _ => Q) fun _ => Q := by
  refine .bind (Q := fun out => Ends (fun a => Stands floor os (after a))
    (fun _ => Stands floor os before) out.1) ?_ fun out => ?_
  · -- The objects stand still while the code is run, whichever way that ends.
    refine .within fun s hs => ?_
    refine .within fun host hhost => ?_
    refine .bind (h.before fun st hst => ?_).settle fun out => ?_
    · rw [hst, hhost]
      exact hs.owns
    · refine .bind_gets fun _ => .ret fun st hst => ?_
      cases out with
      | ok a => exact ⟨hs.objects, hst.1⟩
      | error _ => exact ⟨hs.objects, hst.1⟩
  · rcases out with ⟨fault | a, runs⟩
    · exact .ret fun s hs => hfail s hs
    · exact .bind (hanswer a) fun _ => .ret fun _ h => h

/-- Code of the user's that is no matter of the account. -/
theorem onCode_accounted {program : Program} {act : Action (Code × Host) α}
    {answer : α → Answer}
    (h : ∀ owned, Preserves (fun st : Code × Host => st.2.Owns floor owned) act) :
    Preserves (Accounted floor kept owned) (onCode program act fun a => return answer a) := by
  refine .pointwise fun s hs => ?_
  have hback : ∀ s' : Session, s'.Stands floor s.objects (s.objects.extents ++ owned) →
      s'.Accounted floor kept owned := fun s' hs' => hs'.accounted hs.proper
  exact Triple.before (onCode_stands (h _) (fun a => .ret hback) hback) fun s' hs' =>
    hs' ▸ hs.stands

end Shapes

/-- A patch that is handled together with the host, and keeps its place. -/
theorem onPatch_accounted {id : String} {act : Action (Patch × Host) Answer}
    (h : ∀ (owned : List Extent) (p : Patch), kept id (p.saved.map (p.site, ·)) →
      Triple (fun st : Patch × Host => st.1 = p ∧ Patch.Accounted floor owned st) act
        (fun _ st => Patch.Accounted floor owned st ∧ kept id (st.1.saved.map (st.1.site, ·)))
        fun _ st => Patch.Accounted floor owned st ∧ kept id (st.1.saved.map (st.1.site, ·))) :
    Preserves (Accounted floor kept owned) (onPatch id act) := by
  refine withObject_accounted fun os o p hos hget hview => .within fun s hs => ?_
  have ho := Object.eq_of_patch? hview
  have hkept : kept id (p.saved.map (p.site, ·)) := by
    have hid := hos.kept id
    rwa [Objects.replaced?, hget, ho] at hid
  -- The patch is out of the account while it is handled, and goes back under its name.
  have hend : ∀ st : Patch × Host, Patch.Accounted floor ((os.erase id).extents ++ owned) st ∧
      kept id (st.1.saved.map (st.1.site, ·)) →
      Accounted floor kept owned { s.insert id (.patch st.1) with host := st.2 } := by
    rintro st ⟨haccount, hst⟩
    rw [Patch.Accounted, ← Object.extents_patch] at haccount
    have hnew : Stands floor os _ { s with host := st.2 } := ⟨hs.objects, haccount⟩
    exact hnew.insert hos hst
  refine (h _ p hkept).weaken (fun st hst => ?_) (fun _ => hend) fun _ => hend
  rw [hst]
  refine ⟨rfl, ?_⟩
  rw [Patch.Accounted, ← Object.extents_patch, ← ho]
  exact hs.owns

/-- A known address is what a branch to it leads to, and is not zero. -/
theorem ofAddress_map_eq_ok {kind : Branch} {target : Address} {source : Source}
    (h : (Target.ofAddress target).map (Source.branch kind) = .ok source) :
    target ≠ 0 ∧ source = .branch kind (.fixed target) := by
  rw [Target.ofAddress, branchTarget] at h
  split at h
  · have hfault : Except.error (Fault.nullAddress "branch target") = Except.ok source := h
    exact absurd hfault (by simp only [reduceCtorEq, not_false_eq_true])
  · next hne => exact ⟨hne, (Except.ok.inj h).symm⟩

/-- What a new patch writes leads to no intercept that is generated already. -/
theorem source_pending {design : Design} {source : Source}
    (h : s.source design = some (.ok source)) : source.target?.bind Target.memory? = none := by
  have hfixed : ∀ (kind : Branch) (target : Address),
      (Target.ofAddress target).map (Source.branch kind) = .ok source →
        source.target?.bind Target.memory? = none := by
    intro kind target hmap
    rw [(ofAddress_map_eq_ok hmap).2]
    rfl
  cases design with
  | literal bytes =>
      rw [← Except.ok.inj (Option.some.inj h)]
      rfl
  | inPlace program =>
      rw [← Except.ok.inj (Option.some.inj h)]
      rfl
  | branchInto kind program =>
      -- The intercept is not generated before it is needed.
      rw [← Except.ok.inj (Option.some.inj h)]
      rfl
  | branchTo kind target => exact hfixed kind target (Option.some.inj h)
  | branchToObject kind id =>
      -- An object is a target by its address, and that is known now.
      rcases Option.bind_eq_some_iff.mp h with ⟨target, -, hmap⟩
      cases target with
      | error fault =>
          have hfault : Except.error fault = Except.ok source := Option.some.inj hmap
          exact absurd hfault (by simp only [reduceCtorEq, not_false_eq_true])
      | ok address => exact hfixed kind address (Option.some.inj hmap)

/-- Changes of the host that its memory takes no part in. -/
theorem arrange_accounted {f : Host → Host} (h : ∀ host, (f host).memory = host.memory) :
    Preserves (Accounted floor kept owned) (do onHost (.modify f); return Answer.done) := by
  refine answer_accounted (onHost_accounted fun owned => ?_) fun _ => .done
  refine .modify fun host hh => hh.same ?_
  rw [h]
  exact .refl _

theorem installBarrier_accounted (barrier : Option Barrier) :
    Preserves (Accounted floor kept owned) (onHost (Host.installBarrier barrier)) := by
  refine onHost_accounted fun owned => ?_
  exact (Host.installBarrier_calm barrier).triple Host.stable_owns

theorem guard_accounted (address : Address) (length : Nat) (probes : List Address) :
    Preserves (Accounted floor kept owned) (perform (.guard address length probes)) := by
  have hprobe : Preserves (Accounted floor kept owned) (onHost (protections probes)) :=
    onHost_untouched (Host.protections_untouched probes)
  refine .bind hprobe fun before => ?_
  refine .bind ?_ fun inside => ?_
  · refine onHost_accounted fun owned => .attempt ?_
    have hinside : Preserves (Host.Owns floor owned) (protections probes) :=
      (Host.protections_untouched probes).preserves Host.stable_owns
    -- Protections are no matter of the account, so neither lifting nor restoring them counts.
    exact Host.withWritable_triple Host.stable_owns (fun _ => Host.stable_owns)
      (fun _ => Host.stable_owns) (fun _ _ h => h) address length hinside
  · exact .bind hprobe fun after => .ret _

theorem generate_accounted (id : String) (program : Program) :
    Preserves (Accounted floor kept owned) (perform (.generate id program)) := by
  refine withFree_accounted fun os hos hfree => ?_
  have hgenerate : Triple (fun st : Code × Host => st.2.Owns floor (os.extents ++ owned))
      Region.generate (fun r st => st.2.Owns floor (r.extents ++ (os.extents ++ owned)))
      fun _ st => st.2.Owns floor (os.extents ++ owned) :=
    Host.owns_of_since fun _ => Region.generate_owns
  refine onCode_stands hgenerate (fun r => ?_) fun s hs => hs.accounted hos
  -- The region enters with the answer, which is only given if there is one.
  exact .bind_modify (.ret fun _ h => h) fun s hs => hs.insert_new hos hfree rfl

/-- An object that is no patch, and gives back what it owns under its name. Its part of the
    account is out while that is done, and is then replaced. -/
theorem giveBack_accounted {id : String} {view : Object → Option α} {object : α → Object}
    {give : α → Action Host α} (answer : α → Answer)
    (hview : ∀ {o a}, view o = some a → o = object a) (hplain : ∀ a, (object a).replaced? = none)
    (h : ∀ a owned, Triple (Host.Owns floor ((object a).extents ++ owned)) (give a)
      (fun a' host => host.Owns floor ((object a').extents ++ owned)) fun _ _ => False) :
    Preserves (Accounted floor kept owned) (withObject id view fun a => do
      let a' ← onHost (give a)
      Action.modify (·.insert id (object a'))
      return answer a') := by
  refine withObject_accounted fun os o a hos hget ha => ?_
  have ho : o = object a := hview ha
  -- What is said of the name holds for an object that replaced nothing.
  have hkept : kept id none := by
    have hid := hos.kept id
    rwa [Objects.replaced?, hget, ho, Option.bind_some, hplain] at hid
  rw [ho]
  refine .bind (Q := fun a' => Stands floor os
    ((object a').extents ++ ((os.erase id).extents ++ owned))) ?_ fun a' => ?_
  · exact (onHost_stands (h a _)).weaken (fun _ hs => hs) (fun _ _ hs => hs) fun _ _ hf => hf.elim
  · refine .bind_modify (.ret fun _ hs => hs) fun s hs => hs.insert hos ?_
    rw [hplain]
    exact hkept

/-- An object that becomes a routine gives up its name before the new name is looked at. -/
theorem routine_accounted (id source : String) :
    Preserves (Accounted floor kept owned) (perform (.routine id source)) := by
  refine withObject_accounted fun os o r hos hget hview => ?_
  rcases Object.extents_of_toRoutine? hview with ⟨hextents, hreplaced⟩
  have hkept := hos.kept source
  rw [Objects.replaced?, hget, Option.bind_some, hreplaced] at hkept
  refine .bind_gets fun found => ?_
  refine .assuming (fun s h => h.2.symm.trans (h.1.objects ▸ rfl))
    fun (hfound : found = (os.erase source).get? id) => ?_
  cases found with
  | some _ =>
      -- The new name is taken, and nothing was changed yet.
      exact .ret fun s h => ((stands_of_get? hos hget).mpr h.1).accounted hos
  | none =>
      refine .bind_modify (.ret fun _ h => h) fun s h => ?_
      -- A routine owns what the object owned, so its part moves with it to the new name.
      have hnew : Stands floor (os.erase source) ((Object.routine r).extents ++ _)
          (s.erase source) :=
        ⟨congrArg _ h.1.objects, hextents ▸ h.1.owns⟩
      exact hnew.insert_new (hos.erase hkept) hfound.symm rfl

/-- A new patch owns nothing yet. Its intercept, if it gets one, comes later. -/
theorem patch_accounted (id : String) (design : Design) (site : Site) (unprotected : Bool) :
    Preserves (Accounted floor kept owned) (perform (.patch id design site unprotected)) := by
  refine .bind_gets fun found => ?_
  cases found with
  | none => exact .ret fun _ h => h.1
  | some result =>
      -- The source was made from the session as it was before the command.
      refine .bind (Q := fun source s => source.target?.bind Target.memory? = none ∧
        Accounted floor kept owned s) (.ofExcept (fun source s hsource h => ?_)
          fun _ _ _ h => h.1) fun source => ?_
      · exact ⟨source_pending (h.2.trans (congrArg _ hsource)), h.1⟩
      · refine .assuming (fun _ h => h.1) fun hsource => ?_
        have hintercept : ∀ address, (Patch.place address source unprotected).intercept? = none :=
          fun _ => hsource
        refine Triple.before (keep_accounted fun owned => ?_) fun _ h => h.2
        have hlocate : Preserves (Host.Owns floor owned) (locate site) :=
          (locate_untouched site).preserves Host.stable_owns
        refine .bind hlocate fun _ => .ret fun host h => ⟨?_, rfl⟩
        rw [Object.extents_patch, Patch.extents_eq_intercept, hintercept]
        exact h

/-- An action on a patch that is no matter of the account. Whether it leaves the patch
    installed is free. -/
theorem handled_accounted {id : String} {act : Action (Patch × Host) Unit}
    (hid : ∀ replaced, kept id replaced)
    (h : ∀ (owned : List Extent) (p : Patch),
      Triple (fun st : Patch × Host => st.1 = p ∧ Patch.Accounted floor owned st) act
        (fun _ => Patch.Accounted floor owned) fun _ => Patch.Accounted floor owned) :
    Preserves (Accounted floor kept owned) (onPatch id (do act; return .done)) := by
  refine onPatch_accounted fun owned p _ => ?_
  refine .bind (Q := fun _ => Patch.Accounted floor owned) ?_ fun _ => .ret fun _ hst => ?_
  · exact (h owned p).weaken (fun _ hst => hst) (fun _ _ hst => hst) fun _ _ hst => ⟨hst, hid _⟩
  · exact ⟨hst, hid _⟩

/-- A target that is generated leaves the patch installed or not, as it was. -/
theorem target_accounted (id : String) :
    Preserves (Accounted floor kept owned) (perform (.target id)) := by
  refine onPatch_accounted fun owned p hkept => .pointwise fun st hst => ?_
  -- Whether there is an intercept then or not, it belongs to the patch.
  have hend : ∀ st', Patch.Resourced st.2.memory owned p st' →
      Patch.Accounted floor owned st' ∧ kept id (st'.1.saved.map (st'.1.site, ·)) := by
    intro st' h
    refine ⟨h.accounted hst.2.later, ?_⟩
    rcases h with ⟨source, hpatch, -⟩
    rw [hpatch]
    exact hkept
  refine .bind (Q := fun _ => Patch.Resourced st.2.memory owned p) ?_ fun found => ?_
  · refine (Patch.target_owns p).weaken (fun st' h => ?_) (fun _ _ h => h) fun _ => hend
    rw [h]
    have howns := hst.2
    rw [Patch.Accounted, hst.1] at howns
    exact ⟨hst.1, howns.since⟩
  · cases found with
    | none => exact .ret hend
    | some address => exact .ret hend

theorem setBarrier_accounted (name : String) :
    Preserves (Accounted floor kept owned) (perform (.setBarrier name)) := by
  refine .bind_gets fun found => ?_
  cases found with
  | none => exact .ret fun _ h => h.1
  | some barrier =>
      have hinstall : Preserves (Accounted floor kept owned)
          (do return Answer.name (← onHost (Host.installBarrier (some barrier)))) :=
        answer_accounted (installBarrier_accounted (some barrier)) .name
      exact Triple.before hinstall fun _ h => h.1

/-- Every command but the end of an object leaves the pages alone that no object
    owns. What a patch replaced is changed by commands on it alone. -/
theorem perform_accounted {command : Command} (hdrop : ∀ id, command ≠ .drop id)
    (hsubject : ∀ id, command.subject? = some id → ∀ r, kept id r) :
    Preserves (Accounted floor kept owned) (perform command) := by
  cases command with
  -- the environment
  | mapPages id length protection =>
      have hpages : ∀ owned, Triple (Host.Owns floor owned) (Host.allocatePages length protection)
          (fun base host => host.Owns floor ([⟨base.toNat, wholePages length⟩] ++ owned))
          fun _ host => host.Owns floor owned :=
        fun owned => Host.owns_of_since fun origin =>
          (Host.allocatePages_owns length protection).weaken (fun _ h => h) (fun _ _ h => h.1)
            fun _ _ h => h
      exact keep_plain hpages fun _ => rfl
  | protection address => exact .gets _
  | failAllocations count => exact arrange_accounted fun _ => rfl
  | arrangeProtections refusals => exact arrange_accounted fun _ => rfl
  | peek address length =>
      exact answer_accounted (onHost_untouched (Host.load_untouched address length)) .bytes
  | poke address bytes =>
      have hstore : Preserves (Accounted floor kept owned) (onHost (Host.store address bytes)) :=
        onHost_accounted fun _ => Host.store_owns address bytes
      exact answer_accounted hstore fun _ => .done
  | flush address length => exact .ret _
  | guard address length probes => exact guard_accounted address length probes
  -- executable memory
  | allocate id size =>
      have hregion : ∀ owned, Triple (Host.Owns floor owned) (Region.allocate size)
          (fun r host => host.Owns floor (r.extents ++ owned))
          fun _ host => host.Owns floor owned :=
        fun owned => Host.owns_of_since fun origin =>
          (Region.allocate_owns size).weaken (fun _ h => h) (fun _ _ h => h.1) fun _ _ h => h
      exact keep_plain hregion fun _ => rfl
  | ofBytes id bytes =>
      have hregion : ∀ owned, Triple (Host.Owns floor owned) (Region.ofBytes bytes)
          (fun r host => host.Owns floor (r.extents ++ owned))
          fun _ host => host.Owns floor owned :=
        fun owned => Host.owns_of_since fun _ => Region.ofBytes_owns bytes
      exact keep_plain hregion fun _ => rfl
  | generate id program => exact generate_accounted id program
  | write id offset bytes =>
      refine withObject_preserves fun r => ?_
      have hwrite : Preserves (Accounted floor kept owned) (onHost (r.write offset bytes)) :=
        onHost_accounted fun _ => r.write_owns offset bytes
      exact answer_accounted hwrite fun _ => .done
  | read id offset length =>
      refine withObject_preserves fun r => ?_
      exact answer_accounted (onHost_untouched (r.read_untouched offset length)) .bytes
  | contains id address => exact withObject_preserves fun r => .ret _
  | release id =>
      exact giveBack_accounted (fun _ => .done) Object.eq_of_region? (fun _ => rfl)
        fun r _ => r.release_keeps
  -- live code
  | resident id site =>
      -- Code that is already there is owned by nobody.
      refine keep_plain (fun owned => ?_) fun _ => rfl
      have hlocate : Preserves (Host.Owns floor owned) (locate site) :=
        (locate_untouched site).preserves Host.stable_owns
      exact .bind hlocate fun _ => .ret fun _ h => h
  | overwrite id bytes =>
      refine withObject_preserves fun live => ?_
      have hwrite : Preserves (Accounted floor kept owned) (onHost (live.overwrite bytes false)) :=
        onHost_accounted fun _ => live.overwrite_owns bytes false
      exact answer_accounted hwrite .count
  | overwriteWith id program =>
      refine withObject_preserves fun live => ?_
      exact onCode_accounted fun _ => live.overwriteWith_owns
  | inspect id length =>
      refine withObject_preserves fun live => ?_
      exact answer_accounted (onHost_untouched (Host.load_untouched live.address length)) .bytes
  | assemble id program =>
      -- The code is run for its bytes, and the host takes no part in that.
      refine withObject_preserves fun live => onCode_accounted fun owned => ?_
      exact .onFirst (fun _ _ h => h) fun _ _ h => h
  | routine id source => exact routine_accounted id source
  | routineRelease id =>
      exact giveBack_accounted (fun r => .flag r.region?.isSome) Object.eq_of_routine?
        (fun _ => rfl) fun r _ => Object.releaseRoutine_keeps r
  | trampoline id b arity target =>
      exact keep_plain (fun _ => bridge_owns arity target b) fun _ => rfl
  -- patches
  | patch id design site unprotected => exact patch_accounted id design site unprotected
  | install id =>
      refine handled_accounted (hsubject id rfl) fun owned p => ?_
      exact Patch.install_owns.before fun _ h => h.2
  | uninstall id =>
      refine handled_accounted (hsubject id rfl) fun owned p => ?_
      exact (Patch.uninstall_owns p).weaken (fun _ h => h) (fun _ _ h => h.2) fun _ _ h => h.2
  | target id => exact target_accounted id
  -- write barriers
  | defineBarrier barrier => exact arrange_accounted fun _ => rfl
  | setBarrier name => exact setBarrier_accounted name
  | clearBarrier => exact answer_accounted (installBarrier_accounted none) .name
  -- any object
  | drop id => exact absurd rfl (hdrop id)
  | info id =>
      refine withObject_preserves fun o => ?_
      exact answer_accounted (onHost_untouched (describe_untouched o)) .info

/-- What a command leaves mapped that no object owns any more. -/
def leaks (s : Session) : Command → List Extent
  | .drop id => ((s.get? id).map fun o => o.leaks s.host).getD []
  | _ => []

/-- An object that is dropped leaves the objects first, and then gives back what
    it owns. -/
theorem perform_drop {id : String} (hkept : kept id none) (hs : s.Accounted floor kept owned) :
    Triple (fun s' => s' = s) (perform (.drop id))
      (fun _ => Accounted floor kept (s.leaks (.drop id) ++ owned))
      fun _ => Accounted floor kept (s.leaks (.drop id) ++ owned) := by
  refine .bind_known (a := s.get? id) (fun s' h => by rw [h, Option.bind_fun_some]) ?_
  cases hfound : s.get? id with
  | none =>
      refine .ret fun s' h => ?_
      rw [leaks, hfound, h]
      exact hs
  | some o =>
      -- Without its name the object is no longer counted, so its part stands apart.
      have hstands := (stands_of_get? hs.proper hfound).mp hs.stands
      have hleaks : s.leaks (.drop id) = o.leaks s.host := by
        rw [leaks, hfound]
        rfl
      rw [hleaks]
      refine .bind_modify (M := fun s' => s' = s.erase id) ?_ fun s' h => h ▸ rfl
      refine .bind (Q := fun _ => Accounted floor kept (o.leaks s.host ++ owned))
        (.within fun s' h => ?_)
        fun _ => .ret fun _ h => h
      rw [h]
      -- The end of the object never fails, and what it leaks is owned by nobody from now on.
      refine (o.drop_owns s.host hstands.owns).weaken (fun _ hh => hh) (fun _ host hh => ?_)
        fun _ _ hh => hh.elim
      exact ⟨hs.proper.erase hkept, hh.perm (List.perm_append_comm_assoc _ _ _)⟩

end Session

end Hotpatch
