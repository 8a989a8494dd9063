import Hotpatch.Proofs.Ownership.Run
import Hotpatch.Proofs.Patching.Effects
import Hotpatch.Proofs.Patching.Layers

/-!
# Live Memory As An Overlay

While patches come and go, live memory is the initial memory under the layers of
the patches that are installed, and every patch keeps what its range shows under
it. A patch that enters memory becomes the topmost layer. A patch that leaves it
may have any place among the layers, as long as no layer above reaches into its
range, and then the others keep what they have.

Steps may fail at any point. A step that fails changes neither the layers nor the
contents below the pages that come next, which is where all patched bytes are.

## Main definitions

* `Session.layersAfter`, `Session.layers`: The layers after commands.
* `Session.Allows`, `Session.Admits`: What is asked of the commands.
* `Session.Overlaid`: Live memory is an overlay.

## Theorems

* `Overlaid.push`, `Overlaid.pop`: A layer comes or goes.
* `step_overlaid`: An overlay through a command.
* `overlaid_of_run`: Live memory is an overlay at any time.
-/

namespace Hotpatch

open Hotpatch.Action

/-- A command that handles a patch installs, uninstalls or drops it. -/
theorem Command.subject?_eq_some {command : Command} {id : String}
    (h : command.subject? = some id) :
    command = .install id ∨ command = .uninstall id ∨ command = .drop id := by
  cases command <;> simp only [subject?, Option.some.injEq, reduceCtorEq] at h
  · exact .inl (h ▸ rfl)
  · exact .inr (.inl (h ▸ rfl))
  · exact .inr (.inr (h ▸ rfl))

namespace Session

def patch? (s : Session) (id : String) : Option Patch :=
  (s.get? id).bind Object.patch?

/-- The bytes that the installed patch of a name replaced, and where. -/
def replaced? (s : Session) (id : String) : Option (Address × List UInt8) :=
  s.objects.replaced? id

/-- What the patch of a name is to write; nothing if it cannot be found out. -/
def replacement (s : Session) (id : String) : List UInt8 :=
  match s.patch? id with
  | some p => (p.replacement s.host).toOption.getD []
  | none => []

/-- The layers after a command. A patch that is installed by it is the topmost
    layer, and a patch that is no more installed has none. -/
def layersAfter (s : Session) (layers : List Layer) (command : Command) : List Layer :=
  match command.subject? with
  | none => layers
  | some id =>
    match s.replaced? id, (s.step command).1.replaced? id with
    | none, some (site, _) => ⟨id, site, s.replacement id⟩ :: layers
    | some _, none => layers.filter (·.id ≠ id)
    | _, _ => layers

/-- The layers after a list of commands. -/
def layers (s : Session) (before : List Layer) : List Command → List Layer
  | [] => before
  | command :: rest => (s.step command).1.layers (s.layersAfter before command) rest

/-- No layer above that of a patch overlaps it. -/
def Topmost (layers : List Layer) (id : String) : Prop :=
  ∀ above l below, layers = above ++ l :: below → l.id = id → ∀ l' ∈ above, ¬ l'.Overlaps l

/-- What is asked of a command. A patch goes where memory was mapped from the
    start, it goes away only when nothing is above it, and an installed patch that
    is dropped can be uninstalled. No other command writes to memory that was mapped
    from the start. -/
def Allows (origin : Memory) (s : Session) (layers : List Layer) : Command → Prop
  | .install id => ∀ p, s.patch? id = some p → p.isInstalled = false →
      ∀ i < (s.replacement id).length, origin.Mapped (p.site.toNat + i)
  | .uninstall id => Topmost layers id
  | .drop id => Topmost layers id ∧ ∀ p, s.patch? id = some p → p.isInstalled = true →
      (Patch.uninstall (p, s.host)).result.isOk
  | command => ∀ a, origin.Mapped a →
      (s.step command).1.host.memory.contents a = s.host.memory.contents a

/-- What is asked of a list of commands. -/
def Admits (origin : Memory) (s : Session) (before : List Layer) : List Command → Prop
  | [] => True
  | command :: rest => s.Allows origin before command ∧
      (s.step command).1.Admits origin (s.layersAfter before command) rest

/-- Live memory is the initial memory under the layers of the installed patches,
    and each of these keeps what is under it. -/
structure Overlaid (origin : Memory) (layers : List Layer) (s : Session) : Prop where
  live : ∀ a, origin.Mapped a → s.host.memory.contents a = shown origin.contents layers a
  names : (layers.map Layer.id).Nodup
  saved : Saved origin.contents s.replaced? layers
  placed : ∀ l ∈ layers, ∀ a, l.Covers a → origin.Mapped a
  installed : ∀ id, s.replaced? id ≠ none → ∃ l ∈ layers, l.id = id

variable {origin : Memory} {layers : List Layer} {s s' : Session} {command : Command}
  {id : String}

/-- A layer is that of an installed patch. -/
theorem Overlaid.replaced?_ne_none (h : s.Overlaid origin layers) {l : Layer} (hl : l ∈ layers) :
    s.replaced? l.id ≠ none := by
  rcases List.append_of_mem hl with ⟨above, below, hsplit⟩
  have hsaved := h.saved
  rw [hsplit] at hsaved
  rw [hsaved.of_append]
  exact Option.some_ne_none _

/-- The initial memory is an overlay without layers. -/
theorem overlaid_start (hnone : ∀ id, s.replaced? id = none) : s.Overlaid s.host.memory [] where
  live _ _ := rfl
  names := .nil
  saved := True.intro
  placed _ hl := absurd hl List.not_mem_nil
  installed id h := absurd (hnone id) h

/-- An overlay is one as long as patches and patched memory stay as they are. -/
theorem Overlaid.congr (h : s.Overlaid origin layers)
    (hreplaced : ∀ id, s'.replaced? id = s.replaced? id)
    (hcontents : ∀ a, origin.Mapped a → s'.host.memory.contents a = s.host.memory.contents a) :
    s'.Overlaid origin layers where
  live a ha := (hcontents a ha).trans (h.live a ha)
  names := h.names
  saved := h.saved.congr fun l _ => hreplaced l.id
  placed := h.placed
  installed id hid := h.installed id (hreplaced id ▸ hid)

/-- A patch that enters memory is the topmost layer. -/
theorem Overlaid.push (h : s.Overlaid origin layers) {l : Layer}
    (hnew : s.replaced? l.id = none)
    (hothers : ∀ id, id ≠ l.id → s'.replaced? id = s.replaced? id)
    (hself : s'.replaced? l.id = some (l.site, l.replaced origin.contents layers))
    (hplaced : ∀ a, l.Covers a → origin.Mapped a)
    (hcontents : ∀ a, origin.Mapped a →
      s'.host.memory.contents a = (l.byte? a).getD (s.host.memory.contents a)) :
    s'.Overlaid origin (l :: layers) := by
  -- The patch was not installed, so none of the layers is its own.
  have hother : ∀ l' ∈ layers, l'.id ≠ l.id := fun l' hl' heq =>
    h.replaced?_ne_none hl' (heq ▸ hnew)
  refine ⟨fun a ha => ?_, ?_, ⟨hself, ?_⟩, fun l' hl' => ?_, fun id hid => ?_⟩
  · rw [hcontents a ha, shown_cons, h.live a ha]
  · rw [List.map_cons, List.nodup_cons]
    refine ⟨fun hmem => ?_, h.names⟩
    rcases List.mem_map.mp hmem with ⟨l', hl', heq⟩
    exact hother l' hl' heq
  · -- The layers below keep what is under them, where nothing has changed.
    exact h.saved.congr fun l' hl' => hothers l'.id (hother l' hl')
  · rcases List.mem_cons.mp hl' with rfl | hl'
    · exact hplaced
    · exact h.placed l' hl'
  · -- Every installed patch had a layer, or is the one that enters.
    by_cases heq : id = l.id
    · exact ⟨l, List.mem_cons_self, heq.symm⟩
    · rw [hothers id heq] at hid
      rcases h.installed id hid with ⟨l', hl', hid'⟩
      exact ⟨l', List.mem_cons_of_mem l hl', hid'⟩

/-- A patch that leaves memory takes its layer with it, and nobody notices. -/
theorem Overlaid.pop (h : s.Overlaid origin layers) {site : Address} {saved : List UInt8}
    (hold : s.replaced? id = some (site, saved)) (htop : Topmost layers id)
    (hothers : ∀ other, other ≠ id → s'.replaced? other = s.replaced? other)
    (hself : s'.replaced? id = none)
    (hcontents : ∀ a, origin.Mapped a →
      s'.host.memory.contents a = (s.host.memory.write site.toNat saved).contents a) :
    s'.Overlaid origin (layers.filter (·.id ≠ id)) := by
  rcases h.installed id (hold ▸ Option.some_ne_none _) with ⟨l, hl, hid⟩
  rcases List.append_of_mem hl with ⟨above, below, hsplit⟩
  have htop' := htop above l below hsplit hid
  rcases h with ⟨hlive, hnames, hsaved, hplaced, hinstalled⟩
  rw [hsplit] at hlive hnames hsaved hplaced hinstalled
  -- What the patch put back is what its layer replaced.
  have hkept := hsaved.of_append
  rw [hid, hold, Option.some.injEq, Prod.mk.injEq] at hkept
  rw [(List.perm_middle.map Layer.id).nodup_iff, List.map_cons, List.nodup_cons] at hnames
  -- No two layers have one name, so all but this one stay.
  have hother : ∀ l' ∈ above ++ below, l'.id ≠ id := fun l' hl' heq =>
    hnames.1 (List.mem_map.mpr ⟨l', hl', heq.trans hid.symm⟩)
  have hrest : layers.filter (·.id ≠ id) = above ++ below := by
    have hkeep : (above ++ below).filter (·.id ≠ id) = above ++ below :=
      List.filter_eq_self.mpr fun l' hl' => decide_eq_true (hother l' hl')
    rw [List.filter_append] at hkeep
    rw [hsplit, List.filter_append, List.filter_cons_of_neg (by simp only [hid, ne_eq,
      not_true_eq_false, decide_false, Bool.false_eq_true, not_false_eq_true]), hkeep]
  rw [hrest]
  refine ⟨fun a ha => ?_, hnames.2, ?_, fun l' hl' => ?_, fun other hid' => ?_⟩
  · rw [hcontents a ha, hkept.1, hkept.2]
    exact shown_restore htop' (hlive a ha)
  · -- What the others keep is unchanged, as no layer above had a byte under this one.
    exact (hsaved.remove htop').congr fun l' hl' => hothers l'.id (hother l' hl')
  · refine hplaced l' ?_
    rcases List.mem_append.mp hl' with hl' | hl'
    · exact List.mem_append_left _ hl'
    · exact List.mem_append_right _ (List.mem_cons_of_mem l hl')
  · by_cases heq : other = id
    · rw [heq] at hid'
      exact absurd hself hid'
    · -- The layer of any other patch is not the one that went.
      rw [hothers other heq] at hid'
      rcases hinstalled other hid' with ⟨l', hl', hname⟩
      refine ⟨l', ?_, hname⟩
      rcases List.mem_append.mp hl' with hl' | hl'
      · exact List.mem_append_left _ hl'
      · rcases List.mem_cons.mp hl' with rfl | hl'
        · exact absurd (hname.symm.trans hid) heq
        · exact List.mem_append_right _ hl'

section Steps

variable {floor : Nat} {kept : String → Option (Address × List UInt8) → Prop}
  {owned : List Extent} {p : Patch}

/-- A command changes what patches replaced only for the patch that it handles. -/
theorem replaced?_step (hs : s.Accounted floor kept owned) (command : Command)
    {other : String} (hother : command.subject? ≠ some other) :
    (s.step command).1.replaced? other = s.replaced? other := by
  -- The condition on what is kept is that it is what it was, but for the handled patch.
  have hself : s.Accounted floor
      (fun id r => command.subject? ≠ some id → r = s.replaced? id) owned :=
    ⟨⟨hs.proper.names, fun _ _ => rfl⟩, hs.owns⟩
  have hstep := step_accounted hself command fun id hid r hne => absurd hid hne
  exact hstep.proper.kept other hother

/-- A command on the patch of one name leaves what the patch of another replaced. -/
theorem replaced?_step_of_ne (hs : s.Accounted floor kept owned)
    (hid : command.subject? = some id) {other : String} (hother : other ≠ id) :
    (s.step command).1.replaced? other = s.replaced? other := by
  refine replaced?_step hs command fun heq => hother ?_
  exact (Option.some.inj (hid.symm.trans heq)).symm

/-- The layers stay as they are if what the handled patch replaced does. -/
theorem layersAfter_of_eq (h : (s.step command).1.replaced? id = s.replaced? id)
    (hid : command.subject? = some id) : s.layersAfter layers command = layers := by
  simp only [layersAfter, hid, h]
  cases s.replaced? id <;> rfl

theorem get?_of_patch? (h : s.patch? id = some p) : s.get? id = some (.patch p) := by
  rcases Option.bind_eq_some_iff.mp h with ⟨o, hget, ho⟩
  rw [hget, Object.eq_of_patch? ho]

theorem replaced?_of_patch? (h : s.patch? id = some p) :
    s.replaced? id = p.saved.map (p.site, ·) := by
  rw [replaced?, Objects.replaced?]
  change (s.get? id).bind Object.replaced? = _
  rw [get?_of_patch? h]
  rfl

/-- A command on the object of a name ends as what is done with the object. -/
theorem withObject_state {α : Type} {view : Object → Option α} {next : α → Action Session Answer}
    {a : α} (h : (s.get? id).bind view = some a) :
    (withObject id view next s).state = (next a s).state := by
  have hfound : (Action.gets (fun s : Session => (s.get? id).bind view) s).result = .ok (some a) :=
    congrArg Except.ok h
  exact congrArg Outcome.state (bind_ok hfound)

/-- A command on the object of a name is refused where there is none. -/
theorem withObject_refused {α : Type} {view : Object → Option α}
    {next : α → Action Session Answer} (h : (s.get? id).bind view = none) :
    (withObject id view next s).state = s := by
  have hfound : (Action.gets (fun s : Session => (s.get? id).bind view) s).result = .ok none :=
    congrArg Except.ok h
  exact congrArg Outcome.state (bind_ok hfound)

/-- An action on a patch and the host ends in their new states, whether it succeeds
    or not. -/
theorem onPatch_state {act : Action (Patch × Host) Unit} {Q E : Patch × Host → Prop}
    (hp : s.patch? id = some p)
    (h : Triple (fun st => st = (p, s.host)) act (fun _ => Q) fun _ => E) :
    ∃ st, (Q st ∨ E st) ∧ (onPatch id (do act; return .done) s).state =
      { s.insert id (.patch st.1) with host := st.2 } := by
  have hact : Triple (fun st => st = (p, s.host)) (do act; return Answer.done)
      (fun _ st => Q st ∨ E st) fun _ st => Q st ∨ E st := by
    refine .bind (Q := fun _ st => Q st ∨ E st) ?_ fun _ => .ret fun _ hst => hst
    exact h.weaken (fun _ hst => hst) (fun _ _ => .inl) fun _ _ => .inr
  exact ⟨((do act; return .done : Action (Patch × Host) Answer) (p, s.host)).state,
    hact.after rfl, withObject_state hp⟩

/-- Dropping an object takes it from the session and ends it. -/
theorem drop_state {o : Object} {Q : Host → Prop} (hget : s.get? id = some o)
    (h : Triple (fun host => host = s.host) o.drop (fun _ => Q) fun _ _ => False) :
    ∃ host, Q host ∧ (s.step (.drop id)).1 = { s.erase id with host } := by
  have hact : Triple (fun s' => s' = s)
      (do Action.modify (·.erase id); onHost o.drop; return .done : Action Session Answer)
      (fun _ s' => ∃ host, Q host ∧ s' = { s.erase id with host }) fun _ _ => False := by
    -- The name is given up first, and then the object ends on the host.
    refine .bind_modify (M := fun s' => s' = s.erase id) ?_ fun s' h => h ▸ rfl
    refine .bind (Q := fun _ s' => ∃ host, Q host ∧ s' = { s.erase id with host })
      (.within fun s' hs' => ?_) fun _ => .ret fun _ h => h
    rw [hs']
    exact h.weaken (fun _ h => h) (fun _ host h => ⟨host, h, rfl⟩) fun _ _ h => h
  have hend := hact s rfl
  have hstate : (s.step (.drop id)).1 = _ :=
    withObject_state ((Option.bind_fun_some _).trans hget)
  rw [hstate]
  split at hend
  · exact hend
  · exact hend.elim

/-- The account of the host of a session, with the part of a patch first. -/
theorem Accounted.patch_owns (hs : s.Accounted floor kept owned) (hp : s.patch? id = some p) :
    s.host.Owns floor (p.extents ++ ((s.objects.erase id).extents ++ owned)) := by
  have hstands := (stands_of_get? hs.proper (get?_of_patch? hp)).mp hs.stands
  rw [Object.extents_patch] at hstands
  exact hstands.owns

/-- What the patch of a name replaced, after the patch was put in its place. -/
theorem replaced?_put (st : Patch × Host) :
    Session.replaced? { s.insert id (.patch st.1) with host := st.2 } id =
      st.1.saved.map (st.1.site, ·) := by
  change ((s.objects.insert id (.patch st.1)).get? id).bind Object.replaced? = _
  rw [Objects.get?_insert_self]
  rfl

/-- A command that finds no patch to handle leaves the session as it is. -/
theorem step_refused (h : s.Overlaid origin layers) (hid : command.subject? = some id)
    (hstate : (s.step command).1 = s) :
    (s.step command).1.Overlaid origin (s.layersAfter layers command) := by
  rw [layersAfter_of_eq (by rw [hstate]) hid, hstate]
  exact h

/-- Under a name that was given up there is no patch that replaced anything. -/
theorem replaced?_erase (id : String) (host : Host) :
    Session.replaced? { s.erase id with host } id = none := by
  change ((s.objects.erase id).get? id).bind Object.replaced? = none
  rw [Objects.get?_erase_self]
  rfl

theorem replaced?_of_get? {o : Object} (hget : s.get? id = some o) :
    s.replaced? id = o.replaced? := by
  change (s.get? id).bind Object.replaced? = _
  rw [hget]
  rfl

variable (hs : s.Accounted floor kept owned) (h : s.Overlaid origin layers)

include hs h

/-- An object that replaced nothing goes without a trace in patched memory. -/
theorem step_drop_plain {o : Object} (hget : s.get? id = some o) (ho : o.replaced? = none) :
    (s.step (.drop id)).1.Overlaid origin (s.layersAfter layers (.drop id)) := by
  have hcalm := Object.drop_calm ho s.host.memory.contents
  rcases drop_state hget (hcalm.before fun host hh => hh ▸ rfl) with ⟨host, hhost, hstate⟩
  have hself : (s.step (.drop id)).1.replaced? id = s.replaced? id := by
    rw [hstate, replaced?_erase, replaced?_of_get? hget, ho]
  rw [layersAfter_of_eq hself rfl]
  refine h.congr (fun other => ?_) fun a _ => ?_
  · by_cases hother : other = id
    · rw [hother, hself]
    · exact replaced?_step_of_ne hs rfl hother
  · rw [hstate]
    exact congrFun hhost a

/-- An installed patch that goes puts back what it replaced, as if it were uninstalled. -/
theorem step_drop_installed {saved : List UInt8} (hget : s.get? id = some (.patch p))
    (hsaved : p.saved = some saved) (hallows : s.Allows origin layers (.drop id)) :
    (s.step (.drop id)).1.Overlaid origin (s.layersAfter layers (.drop id)) := by
  have hp : s.patch? id = some p := by
    rw [patch?, hget]
    rfl
  have hold : s.replaced? id = some (p.site, saved) := by
    rw [replaced?_of_patch? hp, hsaved]
    rfl
  -- It is allowed to go only where it can be uninstalled.
  have hok := hallows.2 p hp (by rw [Patch.isInstalled, hsaved]; rfl)
  rcases drop_state hget (Patch.drop_restores hsaved hok) with ⟨host, hhost, hstate⟩
  have hself : (s.step (.drop id)).1.replaced? id = none := by
    rw [hstate, replaced?_erase]
  have hlayers : s.layersAfter layers (.drop id) = layers.filter (·.id ≠ id) := by
    simp only [layersAfter, Command.subject?, hold, hself]
  rw [hlayers]
  refine h.pop hold hallows.1 (fun other hother => replaced?_step_of_ne hs rfl hother) hself ?_
  intro a _
  rw [hstate]
  exact congrFun hhost a

theorem step_drop (hallows : s.Allows origin layers (.drop id)) :
    (s.step (.drop id)).1.Overlaid origin (s.layersAfter layers (.drop id)) := by
  cases hget : s.get? id with
  | none =>
      have hfound : (s.get? id).bind some = none := by
        rw [hget]
        rfl
      exact step_refused h rfl (withObject_refused hfound)
  | some o =>
      cases ho : o.replaced? with
      | none => exact step_drop_plain hs h hget ho
      | some entry =>
          -- Only an installed patch replaced anything.
          cases o with
          | patch p =>
              rcases Option.map_eq_some_iff.mp ho with ⟨saved, hsaved, -⟩
              exact step_drop_installed hs h hget hsaved hallows
          | _ => exact absurd ho (by simp only [Object.replaced?, reduceCtorEq, not_false_eq_true])

variable (hmapped : ∀ a, origin.Mapped a → a < s.host.memory.next)

include hmapped

/-- A command that leaves its patch and contents as they are leaves the overlay as
    it is. -/
theorem step_stays {st : Patch × Host} (hid : command.subject? = some id)
    (hp : s.patch? id = some p) (hst : p.Stays s.host.memory st)
    (hstate : (s.step command).1 = { s.insert id (.patch st.1) with host := st.2 }) :
    (s.step command).1.Overlaid origin (s.layersAfter layers command) := by
  have hself : (s.step command).1.replaced? id = s.replaced? id := by
    rw [hstate, replaced?_put, hst.saved, hst.site, replaced?_of_patch? hp]
  rw [layersAfter_of_eq hself hid]
  refine h.congr (fun other => ?_) fun a ha => ?_
  · by_cases hother : other = id
    · rw [hother, hself]
    · exact replaced?_step_of_ne hs hid hother
  · -- What was generated meanwhile is in pages that were not mapped at the start.
    rw [hstate]
    exact hst.contents a (hmapped a ha)

theorem step_install (hallows : s.Allows origin layers (.install id)) :
    (s.step (.install id)).1.Overlaid origin (s.layersAfter layers (.install id)) := by
  cases hp : s.patch? id with
  | none => exact step_refused h rfl (withObject_refused hp)
  | some p =>
      rcases onPatch_state hp (Patch.install_lands (hs.patch_owns hp)) with ⟨st, hst, hstate⟩
      have hstate' : (s.step (.install id)).1 = _ := hstate
      rcases hst with (hstays | ⟨hnew, bytes, hbytes, m, hm, hsite, hsaved, hcontents⟩) | hstays
      · exact step_stays hs h hmapped rfl hp hstays hstate'
      · have hold : s.replaced? id = none := by
          rw [replaced?_of_patch? hp, hnew]
          rfl
        have hself : (s.step (.install id)).1.replaced? id =
            some (p.site, m.read p.site.toNat bytes.length) := by
          rw [hstate', replaced?_put, hsaved, hsite]
          rfl
        have hreplacement : s.replacement id = bytes := by
          simp only [replacement, hp, hbytes]
          rfl
        have hlayers : s.layersAfter layers (.install id) = ⟨id, p.site, bytes⟩ :: layers := by
          simp only [layersAfter, Command.subject?, hold, hself, hreplacement]
        -- The patched range was mapped from the start, so nothing that was handed
        -- out on the way is part of it.
        have hrange : ∀ i < bytes.length, origin.Mapped (p.site.toNat + i) := by
          have hplaced := hallows p hp (by rw [Patch.isInstalled, hnew]; rfl)
          rwa [hreplacement] at hplaced
        rw [hlayers]
        refine h.push hold (fun other hother => ?_) ?_ (fun a ha => ?_) fun a ha => ?_
        · exact replaced?_step_of_ne hs rfl hother
        · -- What the patch keeps was read from live memory, which showed the layers below.
          rw [hself, Layer.replaced, Memory.read]
          refine congrArg (fun bytes => some (p.site, bytes)) ?_
          refine List.map_inj_left.mpr fun i hi => ?_
          have hi' := hrange i (List.mem_range.mp hi)
          rw [hm _ (hmapped _ hi'), h.live _ hi']
        · rcases ha with ⟨hlow, hhigh⟩
          have ha' := hrange (a - p.site.toNat) (by simp only at hlow hhigh; omega)
          rwa [show p.site.toNat + (a - p.site.toNat) = a by simp only at hlow; omega] at ha'
        · rw [hstate']
          change st.2.memory.contents a = _
          rw [hcontents, ← hm a (hmapped a ha)]
          exact write_layer m ⟨id, p.site, bytes⟩ a
      · exact step_stays hs h hmapped rfl hp hstays hstate'

theorem step_uninstall (hallows : s.Allows origin layers (.uninstall id)) :
    (s.step (.uninstall id)).1.Overlaid origin (s.layersAfter layers (.uninstall id)) := by
  cases hp : s.patch? id with
  | none => exact step_refused h rfl (withObject_refused hp)
  | some p =>
      rcases onPatch_state hp (Patch.uninstall_lifts p s.host) with ⟨st, hst, hstate⟩
      have hstate' : (s.step (.uninstall id)).1 = _ := hstate
      rcases hst with ⟨saved, hsaved, hlifts⟩ | hstays
      · -- The patch was installed, so it has a layer, which is taken away.
        have hold : s.replaced? id = some (p.site, saved) := by
          rw [replaced?_of_patch? hp, hsaved]
          rfl
        have hself : (s.step (.uninstall id)).1.replaced? id = none := by
          rw [hstate', replaced?_put, hlifts.saved]
          rfl
        have hlayers : s.layersAfter layers (.uninstall id) = layers.filter (·.id ≠ id) := by
          simp only [layersAfter, Command.subject?, hold, hself]
        rw [hlayers]
        refine h.pop hold hallows (fun other hother => ?_) hself fun a _ => ?_
        · exact replaced?_step_of_ne hs rfl hother
        · rw [hstate']
          exact congrFun hlifts.contents a
      · exact step_stays hs h hmapped rfl hp hstays hstate'

/-- An overlay through a command. -/
theorem step_overlaid (hallows : s.Allows origin layers command) :
    (s.step command).1.Overlaid origin (s.layersAfter layers command) := by
  cases hid : command.subject? with
  | none =>
      -- No patch is handled, so all there is to know is that nothing is written.
      have hlayers : s.layersAfter layers command = layers := by
        simp only [layersAfter, hid]
      rw [hlayers]
      refine h.congr (fun other => ?_) ?_
      · exact replaced?_step hs command (hid ▸ (Option.some_ne_none other).symm)
      · cases command <;> first | exact hallows | exact absurd hid (Option.some_ne_none _)
  | some id =>
      rcases Command.subject?_eq_some hid with rfl | rfl | rfl
      · exact step_install hs h hmapped hallows
      · exact step_uninstall hs h hmapped hallows
      · exact step_drop hs h hallows

end Steps

/-- An overlay through a list of commands. -/
theorem run_overlaid {floor : Nat} {owned : List Extent} (commands : List Command)
    (hs : s.Accounted floor (fun _ _ => True) owned) (hfloor : ∀ a, origin.Mapped a → a < floor)
    (h : s.Overlaid origin layers) (hadmits : s.Admits origin layers commands) :
    (s.run commands).1.Overlaid origin (s.layers layers commands) := by
  induction commands generalizing s layers owned with
  | nil => exact h
  | cons command rest ih =>
      -- What was mapped at the start is below all pages that are handed out later.
      have hmapped : ∀ a, origin.Mapped a → a < s.host.memory.next := fun a ha =>
        Nat.lt_of_lt_of_le (hfloor a ha) hs.owns.later
      have hstep := step_overlaid hs h hmapped hadmits.1
      exact ih (step_accounted hs command fun _ _ _ => True.intro) hstep hadmits.2

/-- A run that is admitted is admitted up to any of its steps. -/
theorem Admits.of_append {done rest : List Command}
    (h : s.Admits origin layers (done ++ rest)) : s.Admits origin layers done := by
  induction done generalizing s layers with
  | nil => exact True.intro
  | cons command done ih => exact ⟨h.1, ih h.2⟩

/-- Live memory is an overlay at any time. After each step of a run, bytes that were
    mapped at the start are those of the topmost layer that covers them, or what
    they were. Every installed patch has a layer, and keeps what is under it, and
    once no patch is installed memory is what it was. -/
theorem overlaid_of_run (loader : Loader) (setup done rest : List Command) {start : Session}
    (hstart : start = ((Session.start loader).run setup).1)
    (hnone : ∀ id, start.replaced? id = none)
    (hadmits : start.Admits start.host.memory [] (done ++ rest)) :
    (∀ a, start.host.memory.Mapped a → (start.run done).1.host.memory.contents a =
        shown start.host.memory.contents (start.layers [] done) a) ∧
      (∀ above l below, start.layers [] done = above ++ l :: below →
        ∃ saved, (start.run done).1.replaced? l.id = some (l.site, saved) ∧
          saved.length = l.bytes.length ∧
          ∀ i (hi : i < saved.length),
            saved[i] = shown start.host.memory.contents below (l.site.toNat + i)) ∧
      (∀ id, (start.run done).1.replaced? id ≠ none → ∃ l ∈ start.layers [] done, l.id = id) ∧
      ((∀ id, (start.run done).1.replaced? id = none) → ∀ a, start.host.memory.Mapped a →
        (start.run done).1.host.memory.contents a = start.host.memory.contents a) := by
  have hsetup := run_accounted setup (start_accounted loader)
  rw [← hstart] at hsetup
  -- From here on the account is kept with the start as its floor.
  have hs : start.Accounted start.host.memory.next (fun _ _ => True) _ :=
    ⟨hsetup.proper, hsetup.owns.orderly, hsetup.owns.extents, Nat.le_refl _⟩
  have h := run_overlaid done hs (fun a ha => hs.owns.orderly.lt_next ha) (overlaid_start hnone)
    hadmits.of_append
  refine ⟨h.live, fun above l below hsplit => ?_, h.installed, fun hgone a ha => ?_⟩
  · have hsaved := h.saved
    rw [hsplit] at hsaved
    refine ⟨_, hsaved.of_append, Layer.length_replaced, fun i hi => ?_⟩
    simp only [Layer.replaced, List.getElem_map, List.getElem_range]
  · -- Every layer is that of an installed patch, so without one there are no layers.
    have hlayers : start.layers [] done = [] :=
      List.eq_nil_iff_forall_not_mem.mpr fun l hl => h.replaced?_ne_none hl (hgone l.id)
    rw [h.live a ha, hlayers, shown_nil]

/-- The topmost layer can always go. -/
theorem topmost_head {l : Layer} (hid : l.id ∉ layers.map Layer.id) :
    Topmost (l :: layers) l.id := by
  intro above l' below hsplit hl'
  cases above with
  | nil => exact fun _ h => absurd h List.not_mem_nil
  | cons head rest =>
      -- A layer further down would have the same name as the topmost.
      rw [List.cons_append, List.cons.injEq] at hsplit
      refine absurd (List.mem_map.mpr ⟨l', ?_, hl'⟩) hid
      rw [hsplit.2]
      exact List.mem_append_right _ List.mem_cons_self

theorem allows_install {site : Address} {bytes : List UInt8}
    (hsite : (s.patch? id).map Patch.site = some site) (hbytes : s.replacement id = bytes)
    (hrange : ∀ i < bytes.length, origin.Mapped (site.toNat + i)) :
    s.Allows origin layers (.install id) := by
  intro p hp _ i hi
  rw [hp, Option.map_some, Option.some.injEq] at hsite
  rw [hsite]
  exact hrange i (hbytes ▸ hi)

/-- A page, and two patches in it that overlap. -/
def nestedSetup : List Command :=
  [.mapPages "page" 16 .readWriteExecute,
    .patch "lower" (.literal [1, 2, 3]) (.absolute 0x10000000) false,
    .patch "upper" (.literal [7, 8]) (.absolute 0x10000001) true]

def nested : Session :=
  ((Session.start ⟨[], []⟩).run nestedSetup).1

/-- Both patches are installed, the upper one at the second attempt. -/
def nestedInstalls : List Command :=
  [.install "lower", .failProtections 1, .install "upper", .install "upper"]

theorem nested_mapped {i : Nat} (hi : i < 0x1000) :
    nested.host.memory.Mapped (0x10000000 + i) := by
  refine ⟨⟨0x10000000, 0x1000⟩, List.mem_singleton_self _, Nat.le_add_right _ _, ?_⟩
  simp only
  omega

set_option maxRecDepth 4000 in
/-- The patches may leave in reverse order. -/
theorem nested_admits :
    nested.Admits nested.host.memory []
      (nestedInstalls ++ [.uninstall "upper", .drop "lower"]) := by
  have hlower : ∀ i < [1, 2, 3].length, nested.host.memory.Mapped (0x10000000 + i) :=
    fun i hi => nested_mapped (Nat.lt_trans hi (by decide))
  have hupper : ∀ i < [7, 8].length, nested.host.memory.Mapped (0x10000001 + i) := by
    intro i hi
    rw [show 0x10000001 + i = 0x10000000 + (1 + i) by omega]
    simp only [List.length_cons, List.length_nil] at hi
    exact nested_mapped (by omega)
  -- Each patch is the topmost one when it goes.
  refine ⟨allows_install rfl rfl hlower, fun _ _ => rfl, allows_install rfl rfl hupper,
    allows_install rfl rfl hupper, ?_, ⟨?_, ?_⟩, True.intro⟩
  · change Topmost [⟨"upper", 0x10000001, [7, 8]⟩, ⟨"lower", 0x10000000, [1, 2, 3]⟩] "upper"
    exact topmost_head (by decide)
  · change Topmost [⟨"lower", 0x10000000, [1, 2, 3]⟩] "lower"
    exact topmost_head (by decide)
  · intro p hp _
    rw [← Option.some.inj hp]
    rfl

set_option maxRecDepth 4000 in
/-- What is seen where both patches are is the byte of the upper one, until it
    goes. -/
theorem overlaid_of_nested :
    (∀ id, nested.replaced? id = none) ∧
      nested.Admits nested.host.memory []
        (nestedInstalls ++ [.uninstall "upper", .drop "lower"]) ∧
      (nested.run nestedInstalls).1.host.memory.contents (0x10000000 + 1) = 7 := by
  have hnone : ∀ id, nested.replaced? id = none := by
    refine Objects.replaced?_eq_none fun entry hentry => ?_
    change entry ∈ [_, _, _] at hentry
    simp only [List.mem_cons, List.not_mem_nil, or_false] at hentry
    rcases hentry with rfl | rfl | rfl <;> rfl
  have hrun := overlaid_of_run ⟨[], []⟩ nestedSetup nestedInstalls
    [.uninstall "upper", .drop "lower"] rfl hnone nested_admits
  exact ⟨hnone, nested_admits, hrun.1 (0x10000000 + 1) (nested_mapped (by decide))⟩

end Session

end Hotpatch
