import Hotpatch.Proofs.Bracketing.Patches
import Hotpatch.Proofs.Ends
import Hotpatch.Proofs.Faults.Late
import Hotpatch.Proofs.Patching.Overlay

/-!
# Failed Commands

A command that fails does no harm. Everything that was mapped is mapped still, with
the bytes and the protections that it had, and every patch is installed or not as it
was, and keeps the same bytes. What a failed command may leave behind is an intercept
that was generated, and that is in pages of its own.

Wherever a command can fail it either made something new until then, which touches
nothing old, or it was about to write, and writes land as a whole or not at all. A
fault of encoding comes from the first kind of failure, so no barrier was called.

## Main definitions

* `Session.Harmless`: What a failed command leaves behind.
* `Session.Spares`: An action that fails without harm.

## Theorems

* `Spares.keep`, `Spares.onPatch`, `Spares.onCode`: The shapes of commands.
* `giveBack_spares`, `patch_spares`, `uninstall_spares`: Commands that go through stages.
* `perform_spares`: The commands of a session.
* `step_harmless`: What a failed command leaves behind.
-/

namespace Hotpatch

open Hotpatch.Action

namespace Session

/-- Older memory is intact, and patches have replaced what they had. After a fault of
    encoding no barrier was called. -/
structure Harmless (s : Session) (fault : Fault) (st : Session × List Event) : Prop where
  intact : s.host.memory.Intact st.1.host.memory
  patches : ∀ id, (st.1.patch? id).map (fun p => (p.site, p.saved)) =
    (s.patch? id).map fun p => (p.site, p.saved)
  early : fault.isEncoding = true → ∀ event ∈ st.2, event.IsQuiet

/-- An action that fails without harm, also if its answer is what reports the fault. -/
def Spares (s : Session) (act : Action Session Answer) : Prop :=
  s.Concludes act (fun a st => ∀ fault, a.fault? = some fault → s.Harmless fault st)
    fun fault st => s.Harmless fault st

variable {s : Session} {host : Host} {events : List Event} {fault : Fault} {α : Type}
  {id : String}

/-- What is made aside does no harm. -/
theorem Harmless.of_prepared (h : Prepared s.host.memory s.host.slot (host, events))
    (fault : Fault) : s.Harmless fault ({ s with host }, events) where
  intact := h.intact
  patches _ := rfl
  early _ := h.quiet

/-- A write that is refused does no harm. -/
theorem Harmless.of_intact (h : s.host.memory.Intact host.memory)
    (hlate : fault.isEncoding = false) : s.Harmless fault ({ s with host }, events) := by
  refine ⟨h, fun _ => rfl, fun hearly => ?_⟩
  -- A barrier may have been called, but then the fault is not one of encoding.
  rw [hlate] at hearly
  exact absurd hearly Bool.false_ne_true

/-- A patch that is put back unharmed does no harm. -/
theorem Harmless.of_patch {p p' : Patch} (hp : s.patch? id = some p)
    (h : p.Unharmed s.host.memory (p', host))
    (hearly : fault.isEncoding = true → ∀ event ∈ events, event.IsQuiet) :
    s.Harmless fault ({ s.insert id (.patch p') with host }, events) := by
  refine ⟨h.intact, fun other => ?_, hearly⟩
  by_cases hother : other = id
  · have hnew : Session.patch? { s.insert id (.patch p') with host } other = some p' := by
      rw [hother]
      change ((s.objects.insert id (.patch p')).get? id).bind Object.patch? = some p'
      rw [Objects.get?_insert_self]
      rfl
    rw [hnew, hother, hp, Option.map_some, Option.map_some, h.site, h.saved]
  · have hsame : Session.patch? { s.insert id (.patch p') with host } other = s.patch? other := by
      change ((s.objects.insert id (.patch p')).get? other).bind Object.patch? = _
      rw [Objects.get?_insert_of_ne hother]
      rfl
    rw [hsame]

theorem Harmless.self (s : Session) (fault : Fault) : s.Harmless fault (s, []) where
  intact := .refl _
  patches _ := rfl
  early _ _ hmem := absurd hmem List.not_mem_nil

/-- An action that never fails, and whose answer reports no fault either. -/
def Answers (P : Session → Prop) (act : Action Session Answer) : Prop :=
  Triple P act (fun answer _ => answer.fault? = none) fun _ _ => False

theorem Answers.ret {P : Session → Prop} {answer : Answer} (h : answer.fault? = none) :
    Answers P (return answer) :=
  Triple.ret fun _ _ => h

/-- An action on the host that never fails. -/
theorem Answers.onHost {P : Session → Prop} {H : Host → Prop} {act : Action Host α}
    {next : α → Action Session Answer}
    (h : Triple H act (fun _ _ => True) fun _ _ => False) (hP : ∀ s, P s → H s.host)
    (hnext : ∀ a, Answers (fun _ => True) (next a)) : Answers P (Session.onHost act >>= next) := by
  refine .bind (Q := fun _ _ => True) (.within fun s hs => ?_) hnext
  exact h.weaken (fun host hhost => hhost ▸ hP s hs) (fun _ _ h => h) fun _ _ h => h

namespace Spares

variable {Q : α → Host × List Event → Prop}

/-- What never fails does no harm. -/
theorem answered {P : Session → Prop} {act : Action Session Answer} (h : Answers P act) :
    Triple (fun st => P st.1) act.traced
      (fun a st => ∀ fault, a.fault? = some fault → s.Harmless fault st) s.Harmless := by
  refine (lift h).weaken (fun _ hst => hst) (fun answer _ hnone fault hf => ?_)
    fun _ _ hst => hst.elim
  rw [hnone] at hf
  exact absurd hf.symm (Option.some_ne_none _)

theorem of_answers {act : Action Session Answer} (h : Answers (fun s' => s' = s) act) :
    s.Spares act := by
  refine (answered h).before fun st hst => ?_
  rw [hst]

/-- An action on the host that fails without harm, and what never fails after it. -/
theorem bind {act : Action Host α} {next : α → Action Session Answer}
    (h : Triple (fun st => st = (s.host, [])) act.traced Q
      fun fault st => s.Harmless fault ({ s with host := st.1 }, st.2))
    (hnext : ∀ a, Answers (fun _ => True) (next a)) : s.Spares (onHost act >>= next) := by
  rw [Spares, Concludes, traced_bind]
  refine .bind (onHost_ends (Q := fun _ _ => True) ?_) fun a => ?_
  · exact h.weaken (fun _ hst => hst) (fun _ _ _ => True.intro) fun _ _ hst => hst
  · exact answered (hnext a)

theorem withFree {act : Action Session Answer} (h : s.Spares act) :
    s.Spares (Session.withFree id act) := by
  refine withFree_ends ?_ h
  exact nofun

theorem withObject {view : Object → Option α} {next : α → Action Session Answer}
    (h : ∀ a, (s.get? id).bind view = some a → s.Spares (next a)) :
    s.Spares (Session.withObject id view next) := by
  -- To be refused is an answer, and reports no fault.
  have hrefused : ∀ fault, Answer.refused.fault? = some fault → s.Harmless fault (s, []) := nofun
  exact withObject_ends (fun _ => hrefused) h

theorem keep {make : Action Host α} {object : α → Object} {address : α → Address}
    (h : Triple (fun st => st = (s.host, [])) make.traced Q
      fun fault st => s.Harmless fault ({ s with host := st.1 }, st.2)) :
    s.Spares (Session.keep id make object address) := by
  have hrefused : ∀ fault, Answer.refused.fault? = some fault → s.Harmless fault (s, []) := nofun
  refine keep_ends hrefused ?_
  exact h.weaken (fun _ hst => hst) (fun _ _ _ => nofun) fun _ _ hst => hst

/-- A command on a patch. Its fault is reported as a fault. -/
theorem onPatch {act : Action (Patch × Host) Answer}
    (h : ∀ p, s.patch? id = some p → Triple (fun st => st = ((p, s.host), [])) act.traced
      (fun answer _ => answer.fault? = none) fun fault st => p.Unharmed s.host.memory st.1 ∧
        (fault.isEncoding = true → ∀ event ∈ st.2, event.IsQuiet)) :
    s.Spares (Session.onPatch id act) := by
  refine onPatch_ends (fun _ => nofun) fun p hp => ?_
  refine (h p hp).weaken (fun _ hst => hst) (fun answer _ hnone fault hf => ?_)
    fun fault st hst => ?_
  · rw [hnone] at hf
    exact absurd hf.symm (Option.some_ne_none _)
  · exact .of_patch hp hst.1 hst.2

/-- A command that runs code of the user's. Its fault is answered. -/
theorem onCode {program : Program} {act : Action (Code × Host) α}
    {answer : α → Action Session Answer}
    {Q : α → (Code × Host) × List Event → Prop}
    (h : Triple (fun st => st = (({ program }, s.host), [])) act.traced Q
      fun fault st => s.Harmless fault ({ s with host := st.1.2 }, st.2))
    (hanswer : ∀ a, Answers (fun _ => True) (answer a)) :
    s.Spares (Session.onCode program act answer) := by
  refine onCode_ends (h.weaken (fun _ hst => hst) (fun a st _ => ?_)
    fun fault st hst runs fault' hf => ?_)
  · -- What is answered after a success reports none.
    refine (lift (hanswer a)).weaken (fun _ _ => True.intro) (fun _ _ _ _ => nofun)
      fun _ _ hst => hst.elim
  · rw [← Option.some.inj hf]
    exact hst

end Spares

/-- What is done aside on a host fails without harm. -/
theorem harmless_of_keeps {σ : Type} {get : σ → Host} {act : Action σ α}
    (h : Keeps (Prepared s.host.memory s.host.slot) get act) :
    Triple (fun st => get st.1 = s.host ∧ st.2 = []) act.traced (fun _ _ => True)
      fun fault st => s.Harmless fault ({ s with host := get st.1 }, st.2) := by
  refine h.triple.weaken (fun st hst => ?_) (fun _ _ _ => True.intro)
    fun fault st hst => .of_prepared hst fault
  rw [hst.1, hst.2]
  exact .start s.host

theorem onHost_harmless {act : Action Host α}
    (h : Keeps (Prepared s.host.memory s.host.slot) (fun host => host) act) :
    Triple (fun st => st = (s.host, [])) act.traced (fun _ _ => True)
      fun fault st => s.Harmless fault ({ s with host := st.1 }, st.2) := by
  refine (harmless_of_keeps h).before fun st hst => ?_
  rw [hst]
  exact ⟨rfl, rfl⟩

theorem onCode_harmless {program : Program} {act : Action (Code × Host) α}
    (h : Keeps (Prepared s.host.memory s.host.slot) Prod.snd act) :
    Triple (fun st => st = (({ program }, s.host), [])) act.traced (fun _ _ => True)
      fun fault st => s.Harmless fault ({ s with host := st.1.2 }, st.2) := by
  refine (harmless_of_keeps h).before fun st hst => ?_
  rw [hst]
  exact ⟨rfl, rfl⟩

/-- What lands or not does no harm if it does not. -/
theorem lands_harmless {m' : Memory} {act : Action Host α}
    (h : Host.Lands s.host.memory m' act) :
    Triple (fun st => st = (s.host, [])) act.traced (fun _ _ => True)
      fun fault st => s.Harmless fault ({ s with host := st.1 }, st.2) := by
  refine (h s.host.slot []).weaken (fun st hst => ?_) (fun _ _ _ => True.intro)
    fun fault st hst => .of_intact ?_ hst.1
  · rw [hst]
    exact Host.at_self (s.host, [])
  · rw [hst.2.memory]
    exact .refl _

theorem write_harmless (r : Region) (offset : Nat) (bytes : List UInt8) :
    Triple (fun st => st = (s.host, [])) (r.write offset bytes).traced (fun _ _ => True)
      fun fault st => s.Harmless fault ({ s with host := st.1 }, st.2) := by
  unfold Region.write
  rw [traced_bind, traced_ofExcept]
  refine .bind (Q := fun _ st => st = (s.host, []))
    (.ofExcept (fun _ _ _ hst => hst) fun fault _ _ hst => ?_) fun address => ?_
  · -- An access out of bounds is refused before the host is asked for anything.
    rw [hst]
    exact .self s fault
  · exact lands_harmless (Host.store_lands s.host.memory address bytes)

theorem overwrite_harmless (live : LiveCode) (bytes : List UInt8) (unprotected : Bool) :
    Triple (fun st => s.host.memory.Intact st.1.memory)
      (live.overwrite bytes unprotected).traced (fun _ _ => True)
      fun fault st => s.Harmless fault ({ s with host := st.1 }, st.2) := by
  by_cases hbytes : bytes = []
  · rw [hbytes]
    exact fun _ _ => True.intro
  · refine .pointwise fun st hst => ?_
    refine (live.overwrite_from st hbytes unprotected).weaken (fun _ h => h)
      (fun _ _ _ => True.intro) fun fault st' h => .of_intact ?_ h.1
    -- It lands as a whole or changes nothing.
    rw [h.2.memory]
    exact hst

/-- Code that is written over live code is generated before any of it is written. -/
theorem overwriteWith_harmless {program : Program} (live : LiveCode)
    (hassemble : Keeps (Prepared s.host.memory s.host.slot) Prod.snd
      ((Code.assemble live.address).onFirst : Action (Code × Host) (List UInt8))) :
    Triple (fun st => st = (({ program }, s.host), [])) live.overwriteWith.traced
      (fun _ _ => True)
      fun fault st => s.Harmless fault ({ s with host := st.1.2 }, st.2) := by
  unfold LiveCode.overwriteWith
  rw [traced_bind]
  refine .bind (Q := fun _ st => s.host.memory.Intact st.1.2.memory) ?_ fun bytes => ?_
  · -- If the code fails, all that was done is to prepare for the write.
    refine hassemble.triple.weaken (fun st hst => ?_) (fun _ _ hst => hst.intact)
      fun fault _ hst => .of_prepared hst fault
    rw [hst]
    exact .start s.host
  · rw [Action.onSecond, traced_within]
    refine .within fun st hst => ?_
    refine (overwrite_harmless live bytes false).before fun _ h => ?_
    rw [h]
    exact hst

section Arms

/-- Changes of the host that cannot fail. -/
theorem arrange_spares (f : Host → Host) : s.Spares (do onHost (.modify f); return .done) := by
  have hmodify : Triple (fun _ => True) (Action.modify f) (fun _ _ => True) fun _ _ => False :=
    .modify fun _ h => h
  exact .of_answers (.onHost hmodify (fun _ _ => True.intro) fun _ => .ret rfl)

theorem installBarrier_answers (barrier : Option Barrier) (P : Session → Prop) :
    Answers P (do return .name (← onHost (Host.installBarrier barrier))) := by
  have hinstall : Triple (fun _ => True) (Host.installBarrier barrier) (fun _ _ => True)
      fun _ _ => False := by
    refine .bind_gets fun _ => ?_
    exact .bind_modify (M := fun _ => True) (.ret fun _ h => h) fun _ _ => True.intro
  exact .onHost hinstall (fun _ _ => True.intro) fun _ => .ret rfl

/-- The range may be refused, but then that is the answer of the guard and no fault of its
    own. -/
theorem guard_spares (address : Address) (length : Nat) (probes : List Address) :
    s.Spares (perform (.guard address length probes)) := by
  have hprobe : Triple (fun _ => True) (protections probes) (fun _ _ => True) fun _ _ => False :=
    .gets fun _ h => h
  refine .of_answers ?_
  refine .bind (Q := fun _ _ => True) (.within fun _ _ => hprobe.before fun _ _ => True.intro)
    fun before => ?_
  refine .bind (Q := fun _ _ => True) (.within fun _ _ => ?_) fun inside => ?_
  · -- What is attempted always answers, with a fault or without.
    exact fun _ _ => True.intro
  · exact Answers.onHost hprobe (fun _ _ => True.intro) fun _ => .ret rfl

/-- Releasing a region that is live asks the host for nothing that it can refuse. -/
theorem release_answers (r : Region) :
    Triple (fun _ => True) r.release (fun _ _ => True) fun _ _ => False := by
  refine .pointwise fun host _ => ?_
  -- That it is known to be calm includes that it never fails.
  refine (r.release_calm host.memory.contents).weaken (fun h hh => ?_) (fun _ _ _ => True.intro)
    fun _ _ hf => hf
  rw [hh]

theorem releaseRoutine_answers (r : Routine) :
    Triple (fun _ => True) r.release (fun _ _ => True) fun _ _ => False := by
  cases r with
  | resident live => exact .ret fun _ h => h
  | owned region => exact .bind (release_answers region) fun _ => .ret fun _ h => h

/-- An object that gives back what it owns cannot fail to. -/
theorem giveBack_spares {view : Object → Option α} {give : α → Action Host α}
    {object : α → Object} {answer : α → Answer} (hanswer : ∀ a, (answer a).fault? = none)
    (h : ∀ a, Triple (fun _ => True) (give a) (fun _ _ => True) fun _ _ => False) :
    s.Spares (withObject id view fun a => do
      let a' ← onHost (give a)
      Action.modify (·.insert id (object a'))
      return answer a') := by
  refine .withObject fun a _ => .of_answers ?_
  refine .onHost (h a) (fun _ _ => True.intro) fun a' => ?_
  exact .bind_modify (M := fun _ => True) (.ret fun _ _ => hanswer a') fun _ h => h

theorem routine_spares (id source : String) : s.Spares (perform (.routine id source)) := by
  refine .withObject fun r _ => .of_answers ?_
  refine .bind_gets fun found => ?_
  cases found with
  | none => exact .bind_modify (M := fun _ => True) (.ret fun _ _ => rfl) fun _ _ => True.intro
  | some _ =>
      -- That the name is taken is an answer.
      exact .ret fun _ _ => rfl

theorem setBarrier_spares (name : String) : s.Spares (perform (.setBarrier name)) := by
  refine .of_answers (.bind_gets fun found => ?_)
  cases found with
  | none => exact .ret fun _ _ => rfl
  | some barrier => exact installBarrier_answers (some barrier) _

/-- A new patch is only described. Its target may be null and its module may not be found,
    and either is known before there is a patch. -/
theorem patch_spares {floor : Nat}
    (hmaking : Tending floor (Prepared s.host.memory s.host.slot)) (id : String) (design : Design)
    (site : Site) (unprotected : Bool) :
    s.Spares (perform (.patch id design site unprotected)) := by
  unfold Spares Concludes perform
  rw [traced_bind, traced_gets]
  refine .bind_gets fun found => ?_
  cases found with
  | none =>
      dsimp only
      rw [traced_pure]
      exact .ret fun _ _ => nofun
  | some result =>
      dsimp only
      rw [traced_bind, traced_ofExcept]
      refine .bind (Q := fun _ st => st = (s, []))
        (.ofExcept (fun _ _ _ h => h.1) fun fault _ _ h => ?_) fun source => ?_
      · rw [h.1]
        exact .self s fault
      · -- A module that was loaded to find the site stays loaded, in pages of its own.
        refine Spares.keep (onHost_harmless ?_)
        exact .bind (hmaking.locate site) fun _ => .ret _

theorem install_spares (horderly : s.host.memory.Orderly) (haligned : s.host.memory.Aligned)
    (id : String) : s.Spares (perform (.install id)) := by
  refine .onPatch fun p _ => ?_
  rw [traced_bind, traced_pure]
  have hinstall := (p.install_ends horderly haligned).weaken (fun _ h => h)
    (fun _ _ _ => True.intro) fun _ _ h => h
  exact .bind hinstall fun _ => .ret fun _ _ => rfl

/-- The bytes under a patch are put back as a whole or not at all, and a refusal comes after
    the barrier was called, so it is no fault of encoding. -/
theorem uninstall_spares (id : String) : s.Spares (perform (.uninstall id)) := by
  refine .onPatch fun p _ => ?_
  rw [traced_bind, traced_pure]
  have huninstall : Triple (fun st => st = ((p, s.host), [])) Patch.uninstall.traced
      (fun _ _ => True) fun fault st => p.Unharmed s.host.memory st.1 ∧
        (fault.isEncoding = true → ∀ event ∈ st.2, event.IsQuiet) := by
    refine (p.uninstall_ends s.host).weaken (fun _ h => h) (fun _ _ _ => True.intro)
      fun fault st h => ⟨⟨?_, ?_, ?_⟩, fun hearly => ?_⟩
    · rw [h.2.1]
    · rw [h.2.1]
    · rw [h.2.2]
      exact .refl _
    · rw [h.1] at hearly
      exact absurd hearly Bool.false_ne_true
  exact .bind huninstall fun _ => .ret fun _ _ => rfl

theorem target_spares (horderly : s.host.memory.Orderly) (haligned : s.host.memory.Aligned)
    (id : String) : s.Spares (perform (.target id)) := by
  refine .onPatch fun p _ => ?_
  rw [traced_bind]
  refine .bind (p.target_ends horderly haligned) fun found => ?_
  cases found with
  | none =>
      dsimp only
      rw [traced_pure]
      exact .ret fun _ _ => rfl
  | some address =>
      dsimp only
      rw [traced_pure]
      exact .ret fun _ _ => rfl

/-- An object goes away whatever becomes of what it owns, so its end never fails. -/
theorem drop_spares {floor : Nat} {kept : String → Option (Address × List UInt8) → Prop}
    {owned : List Extent} (hs : s.Accounted floor kept owned) (id : String) :
    s.Spares (perform (.drop id)) := by
  refine .withObject fun o ho => .of_answers ?_
  rw [Option.bind_fun_some] at ho
  -- What it owns is in the account, so giving it back is never refused.
  have hstands := (stands_of_get? hs.proper ho).mp hs.stands
  have hdrop : Triple (fun host => host = s.host) o.drop (fun _ _ => True) fun _ _ => False :=
    (o.drop_owns s.host hstands.owns).weaken (fun _ h => h) (fun _ _ _ => True.intro)
      fun _ _ h => h
  refine .bind_modify (M := fun s' => s' = s.erase id) ?_ fun s' h => h ▸ rfl
  exact Answers.onHost hdrop (fun _ h => h ▸ rfl) fun _ => .ret rfl

end Arms

/-- Every command fails without harm. What is made before something is written lies in new
    pages, and a write that is refused writes nothing. -/
theorem perform_spares {floor : Nat} {kept : String → Option (Address × List UInt8) → Prop}
    {owned : List Extent} (hs : s.Accounted floor kept owned) (haligned : s.host.memory.Aligned)
    (command : Command) : s.Spares (perform command) := by
  have horderly := hs.owns.orderly
  have hupkeep := upkeep_prepared horderly haligned s.host.slot
  have hmaking := hupkeep.tending
  cases command with
  -- the environment
  | mapPages id length protection =>
      have hpages := (hupkeep.allocatePages length protection).keeps
      exact .keep (onHost_harmless hpages)
  | protection address => exact .of_answers (.gets fun _ _ => rfl)
  | failAllocations count => exact arrange_spares _
  | arrangeProtections refusals => exact arrange_spares _
  | peek address length =>
      have hload := onHost_harmless (s := s) (Upkeep.load_keeps address length)
      exact .bind hload fun _ => .ret rfl
  | poke address bytes =>
      -- Only the null address is refused, and that before anything is written.
      have hstore := lands_harmless (s := s) (Host.store_lands _ address bytes)
      exact .bind hstore fun _ => .ret rfl
  | flush address length => exact .of_answers (.ret rfl)
  | guard address length probes => exact guard_spares address length probes
  -- executable memory
  | allocate id size =>
      have hallocate := (hmaking.allocate size).keeps
      exact .keep (onHost_harmless hallocate)
  | ofBytes id bytes => exact .keep (onHost_harmless (hmaking.ofBytes bytes))
  | generate id program =>
      -- If the second run fails, the region of the first is given back within the command.
      refine .withFree (.onCode (onCode_harmless hmaking.generate) fun r => ?_)
      exact .bind_modify (M := fun _ => True) (.ret fun _ _ => rfl) fun _ h => h
  | write id offset bytes =>
      refine .withObject fun r _ => ?_
      exact .bind (write_harmless r offset bytes) fun _ => .ret rfl
  | read id offset length =>
      refine .withObject fun r _ => ?_
      have hread := onHost_harmless (s := s) (Upkeep.read_keeps r offset length)
      exact .bind hread fun _ => .ret rfl
  | contains id address => exact .withObject fun r _ => .of_answers (.ret rfl)
  | release id => exact giveBack_spares (fun _ => rfl) release_answers
  -- live code
  | resident id site =>
      refine .keep (onHost_harmless ?_)
      exact .bind (hmaking.locate site) fun _ => .ret _
  | overwrite id bytes =>
      refine .withObject fun live _ => ?_
      have hwrite := (overwrite_harmless (s := s) live bytes false).before
        fun st (hst : st = (s.host, [])) => hst ▸ .refl _
      exact .bind hwrite fun _ => .ret rfl
  | overwriteWith id program =>
      refine .withObject fun live _ => ?_
      have hassemble := hmaking.assemble live.address
      exact .onCode (overwriteWith_harmless live hassemble) fun _ => .ret rfl
  | inspect id length =>
      refine .withObject fun live _ => ?_
      have hload := onHost_harmless (s := s) (Upkeep.load_keeps live.address length)
      exact .bind hload fun _ => .ret rfl
  | assemble id program =>
      refine .withObject fun live _ => ?_
      exact .onCode (onCode_harmless (hmaking.assemble live.address)) fun _ => .ret rfl
  | routine id source => exact routine_spares id source
  | routineRelease id => exact giveBack_spares (fun _ => rfl) releaseRoutine_answers
  | trampoline id b arity target =>
      exact .keep (onHost_harmless (hmaking.bridge arity target b))
  -- patches
  | patch id design site unprotected => exact patch_spares hmaking id design site unprotected
  | install id => exact install_spares horderly haligned id
  | uninstall id => exact uninstall_spares id
  | target id => exact target_spares horderly haligned id
  -- write barriers
  | defineBarrier barrier => exact arrange_spares _
  | setBarrier name => exact setBarrier_spares name
  | clearBarrier => exact .of_answers (installBarrier_answers none _)
  -- any object
  | drop id => exact drop_spares hs id
  | info id =>
      refine .withObject fun o _ => ?_
      have hdescribe := onHost_harmless (s := s) (Upkeep.describe_keeps o)
      exact .bind hdescribe fun _ => .ret rfl

/-- What a failed command leaves behind. -/
theorem step_harmless {floor : Nat} {kept : String → Option (Address × List UInt8) → Prop}
    {owned : List Extent} (hs : s.Accounted floor kept owned) (haligned : s.host.memory.Aligned)
    {command : Command} (hfault : (s.step command).2.fault? = some fault) :
    s.Harmless fault ((s.step command).1, (s.step command).2.trace) := by
  have hend := step_concludes (perform_spares hs haligned command)
  simp only [Reply.fault?] at hfault
  split at hend
  · -- The command succeeded, and its answer reports the fault of code that it ran.
    next answer hanswer =>
      rw [hanswer] at hfault
      exact hend fault hfault
  · next fault' herror =>
      rw [herror, Option.some.injEq] at hfault
      exact hfault ▸ hend

end Session

end Hotpatch
