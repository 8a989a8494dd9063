import Hotpatch.Action

/-!
# Triples

What an action does, as a condition on the state before and two on the state
after: one for when it answers, and one for when it fails. An action does not
undo anything when it fails, so the second matters as much as the first.

There is one rule for each way to build an action. A rule for an action that
cannot fail asks nothing of the second condition.

## Main definitions

* `Action.Triple`: What an action does.
* `Action.Ends`: What holds of either end.
* `Action.Preserves`: What an action leaves true.

## Theorems

* `Triple.bind`: One action after another.
* `Triple.attempt`, `Triple.settle`: A fault as part of an answer.
* `Triple.within`: An action on a part of a state.
* `Triple.weaken`: Conditions that follow from others.
-/

namespace Hotpatch

namespace Action

variable {σ τ ρ α β : Type}

/-- From any state of one kind an action answers with a state of a second kind,
    or fails with one of a third. -/
def Triple (P : σ → Prop) (act : Action σ α) (Q : α → σ → Prop) (E : Fault → σ → Prop) :
    Prop :=
  ∀ s, P s → match (act s).result with
    | .ok a => Q a (act s).state
    | .error fault => E fault (act s).state

/-- A condition on how an action ended and on the state after it. -/
def Ends (Q : α → σ → Prop) (E : Fault → σ → Prop) (result : Except Fault α) (s : σ) : Prop :=
  match result with
  | .ok a => Q a s
  | .error fault => E fault s

/-- What holds of either end. -/
theorem Ends.elim {Q : σ → Prop} {result : Except Fault α} {s : σ}
    (h : Ends (fun _ => Q) (fun _ => Q) result s) : Q s := by
  unfold Ends at h
  split at h <;> exact h

namespace Triple

variable {P P' : σ → Prop} {Q Q' : α → σ → Prop} {R : β → σ → Prop}
  {E E' : Fault → σ → Prop} {act : Action σ α}

theorem of_ok (h : Triple P act Q E) {s : σ} (hs : P s) {a : α} (ha : (act s).result = .ok a) :
    Q a (act s).state := by
  have hpost := h s hs
  rw [ha] at hpost
  exact hpost

/-- What holds at either end holds of the state after. -/
theorem after {Q : σ → Prop} (h : Triple P act (fun _ => Q) fun _ => Q) {s : σ} (hs : P s) :
    Q (act s).state := by
  have hend := h s hs
  split at hend <;> exact hend

/-- Conditions that follow from others. -/
theorem weaken (h : Triple P act Q E) (hP : ∀ s, P' s → P s) (hQ : ∀ a s, Q a s → Q' a s)
    (hE : ∀ fault s, E fault s → E' fault s) : Triple P' act Q' E' := by
  intro s hs
  have hpost := h s (hP s hs)
  split at hpost
  · exact hQ _ _ hpost
  · exact hE _ _ hpost

theorem before (h : Triple P act Q E) (hP : ∀ s, P' s → P s) : Triple P' act Q E := by
  intro s hs
  exact h s (hP s hs)

/-- Two things that are known of one action. -/
theorem both {P' : σ → Prop} {Q' : α → σ → Prop} {E' : Fault → σ → Prop} (h : Triple P act Q E)
    (h' : Triple P' act Q' E') :
    Triple (fun s => P s ∧ P' s) act (fun a s => Q a s ∧ Q' a s)
      fun fault s => E fault s ∧ E' fault s := by
  intro s hs
  have hpost := h s hs.1
  have hpost' := h' s hs.2
  -- The action ends in one way, which both conditions are about.
  split at hpost
  · next a ha =>
      rw [ha] at hpost'
      exact ⟨hpost, hpost'⟩
  · next fault hf =>
      rw [hf] at hpost'
      exact ⟨hpost, hpost'⟩

/-- A triple for each state before. -/
theorem pointwise (h : ∀ s₀, P s₀ → Triple (fun s => s = s₀) act Q E) : Triple P act Q E := by
  intro s hs
  exact h s hs s rfl

/-- How an action ends, next to what holds of its end. -/
theorem recorded {s₀ : σ} (h : Triple (fun s => s = s₀) act Q E) :
    Triple (fun s => s = s₀) act (fun a s => (act s₀).result = .ok a ∧ Q a s)
      fun fault s => (act s₀).result = .error fault ∧ E fault s := by
  intro s hs
  have hpost := h s hs
  rw [hs] at hpost ⊢
  split
  · next a ha =>
      rw [ha] at hpost
      exact ⟨ha, hpost⟩
  · next fault hf =>
      rw [hf] at hpost
      exact ⟨hf, hpost⟩

/-- A fact that the state before gives and that is not about a state. -/
theorem assuming {p : Prop} (hp : ∀ s, P s → p) (h : p → Triple P act Q E) : Triple P act Q E := by
  intro s hs
  exact h (hp s hs) s hs

theorem bind {f : α → Action σ β} (h : Triple P act Q E) (hf : ∀ a, Triple (Q a) (f a) R E) :
    Triple P (act >>= f) R E := by
  intro s hs
  have hpost := h s hs
  rcases hr : (act s).result with fault | a
  · -- The second action is not begun, so its state is that of the fault.
    rw [hr] at hpost
    rw [bind_error hr]
    exact hpost
  · rw [hr] at hpost
    rw [bind_ok hr]
    exact hf a _ hpost

theorem ret {a : α} (h : ∀ s, P s → Q a s) : Triple P (pure a) Q E :=
  h

theorem fail {fault : Fault} (h : ∀ s, P s → E fault s) :
    Triple P (Action.fail fault : Action σ α) Q E :=
  h

theorem ofExcept {result : Except Fault α} (hok : ∀ a s, result = .ok a → P s → Q a s)
    (herror : ∀ fault s, result = .error fault → P s → E fault s) :
    Triple P (Action.ofExcept result) Q E := by
  intro s hs
  cases result with
  | ok a => exact hok a s rfl hs
  | error fault => exact herror fault s rfl hs

/-- What comes after a failure does not matter. -/
theorem fail_bind {fault : Fault} {f : α → Action σ β} (h : ∀ s, P s → E fault s) :
    Triple P (Action.fail fault >>= f) R E :=
  h

theorem trivial : Triple P act (fun _ _ => True) fun _ _ => True := by
  intro s _
  split <;> exact True.intro

theorem gets {f : σ → α} (h : ∀ s, P s → Q (f s) s) : Triple P (Action.gets f) Q E :=
  h

/-- A value of the state, and an action that is given it. -/
theorem bind_gets {f : σ → α} {next : α → Action σ β}
    (h : ∀ a, Triple (fun s => P s ∧ f s = a) (next a) R E) :
    Triple P (Action.gets f >>= next) R E := by
  intro s hs
  exact h (f s) s ⟨hs, rfl⟩

/-- A value of the state that is known before, and an action that is given it. -/
theorem bind_known {f : σ → α} {a : α} {next : α → Action σ β} (ha : ∀ s, P s → f s = a)
    (h : Triple P (next a) R E) : Triple P (Action.gets f >>= next) R E := by
  refine bind_gets fun a' => assuming (p := a' = a) ?_ fun heq => ?_
  · intro s hs
    exact hs.2.symm.trans (ha s hs.1)
  · rw [heq]
    exact h.before fun _ hs => hs.1

theorem modify {f : σ → σ} {Q : Unit → σ → Prop} (h : ∀ s, P s → Q () (f s)) :
    Triple P (Action.modify f) Q E :=
  h

theorem bind_modify {f : σ → σ} {next : Unit → Action σ β} {M : σ → Prop}
    (h : Triple M (next ()) R E) (hM : ∀ s, P s → M (f s)) :
    Triple P (Action.modify f >>= next) R E := by
  intro s hs
  exact h (f s) (hM s hs)

theorem emit {event : Event} {Q : Unit → σ → Prop} (h : ∀ s, P s → Q () s) :
    Triple P (Action.emit event) Q E :=
  h

theorem log {n : Note} {Q : Unit → σ → Prop} (h : ∀ s, P s → Q () s) :
    Triple P (Action.log n) Q E :=
  h

theorem bind_log {n : Note} {next : Unit → Action σ β} (h : Triple P (next ()) R E) :
    Triple P (Action.log n >>= next) R E :=
  h

theorem attempt {Q : Except Fault α → σ → Prop} {E' : Fault → σ → Prop}
    (h : Triple P act (fun a => Q (.ok a)) fun fault => Q (.error fault)) :
    Triple P act.attempt Q E' := by
  intro s hs
  have hpost := h s hs
  -- To attempt is to answer in any case, with the result as it is.
  change Q (act s).result (act s).state
  rcases hr : (act s).result with fault | a
  · rw [hr] at hpost
    exact hpost
  · rw [hr] at hpost
    exact hpost

/-- An action whose fault is part of its answer, with what holds of either end. -/
theorem settle {E' : Fault → σ → Prop} (h : Triple P act Q E) :
    Triple P act.attempt (Ends Q E) E' :=
  attempt h

/-- An end that is kept becomes the end of the action. -/
theorem reraise {result : Except Fault α} :
    Triple (Ends Q E result) (Action.ofExcept result) Q E := by
  intro s hs
  cases result with
  | ok a => exact hs
  | error fault => exact hs

theorem within {get : τ → σ} {set : τ → σ → τ} {P : τ → Prop} {Q : α → τ → Prop}
    {E : Fault → τ → Prop}
    (h : ∀ t, P t → Triple (fun s => s = get t) act (fun a s => Q a (set t s))
      fun fault s => E fault (set t s)) :
    Triple P (Action.within get set act) Q E := by
  intro t ht
  -- The part is looked up once, so the condition may be about this very state.
  exact h t ht (get t) rfl

theorem onSecond (h : Triple P act Q E) :
    Triple (fun t : ρ × σ => P t.2) act.onSecond (fun a t => Q a t.2)
      fun fault t => E fault t.2 := by
  intro t ht
  exact h t.2 ht

/-- An action on the first half of a state leaves the second half alone. -/
theorem onFirst {act : Action ρ α} {Q : α → ρ × σ → Prop} {E : Fault → ρ × σ → Prop}
    (hQ : ∀ a t, P t.2 → Q a t) (hE : ∀ fault t, P t.2 → E fault t) :
    Triple (fun t : ρ × σ => P t.2) act.onFirst Q E := by
  intro t ht
  split
  · exact hQ _ _ ht
  · exact hE _ _ ht

end Triple

/-- An action that keeps a condition, whether it answers or fails. -/
def Preserves (P : σ → Prop) (act : Action σ α) : Prop :=
  Triple P act (fun _ => P) fun _ => P

namespace Preserves

variable {P : σ → Prop} {act : Action σ α}

theorem bind {f : α → Action σ β} (h : Preserves P act) (hf : ∀ a, Preserves P (f a)) :
    Preserves P (act >>= f) :=
  Triple.bind h hf

theorem ret (a : α) : Preserves P (pure a : Action σ α) :=
  Triple.ret fun _ h => h

theorem fail (fault : Fault) : Preserves P (Action.fail fault : Action σ α) :=
  Triple.fail fun _ h => h

theorem ofExcept (result : Except Fault α) : Preserves P (Action.ofExcept result : Action σ α) :=
  Triple.ofExcept (fun _ _ _ h => h) fun _ _ _ h => h

theorem gets (f : σ → α) : Preserves P (Action.gets f) :=
  Triple.gets fun _ h => h

theorem modify {f : σ → σ} (h : ∀ s, P s → P (f s)) : Preserves P (Action.modify f) :=
  Triple.modify h

theorem attempt (h : Preserves P act) : Preserves P act.attempt :=
  Triple.attempt h

end Preserves

end Action

end Hotpatch
