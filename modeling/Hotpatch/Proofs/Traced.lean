import Hotpatch.Proofs.Triple

/-!
# Traced Actions

An action cannot see the events before it, and a triple does not see events at
all. To speak about them, they are put where a triple looks: a traced action has
the events so far as a part of its state, and adds its own to them. It is built in
the same way as the action itself, so the rules for triples are all that it needs.

A condition on a part of the state and on the events is kept by an action if the
traced action preserves it. These have rules of their own, one for each way to
build an action that adds no events.

## Main definitions

* `Action.traced`: An action with the events in its state.
* `Action.Keeps`: A condition on states and events that an action preserves.
* `Action.Gives`: The same, and what is known of the answer.

## Theorems

* `traced_bind`: One action after another, traced.
* `trace_of_traced`: What a traced action says of an action.
* `Keeps.bind`, `Keeps.within`: What keeps a condition, put together.
-/

namespace Hotpatch

namespace Action

variable {σ ρ τ α β : Type}

/-- An action with the events so far in its state. -/
def traced (act : Action σ α) : Action (σ × List Event) α :=
  fun st =>
    let o := act st.1
    ⟨o.result, (o.state, st.2 ++ o.trace), []⟩

/-- Traces are joined in the order of the actions, so tracing them one by one is the
    same. -/
theorem traced_bind (act : Action σ α) (f : α → Action σ β) :
    (act >>= f).traced = act.traced >>= fun a => (f a).traced := by
  funext st
  change _ = andThen act.traced (fun a => (f a).traced) st
  -- The second action finds the events of the first in its state, and adds its own there.
  rcases h : act st.1 with ⟨_ | a, s, t⟩
  · have hresult : (act st.1).result = .error _ := congrArg Outcome.result h
    simp only [traced, andThen, bind_error hresult, h]
  · have hresult : (act st.1).result = .ok _ := congrArg Outcome.result h
    simp only [traced, andThen, bind_ok hresult, h, List.append_assoc, List.append_nil]

theorem traced_pure (a : α) : (pure a : Action σ α).traced = pure a := by
  funext st
  change (⟨.ok a, (st.1, st.2 ++ []), []⟩ : Outcome _ _) = ⟨.ok a, st, []⟩
  rw [List.append_nil]

theorem traced_fail (fault : Fault) :
    (Action.fail fault : Action σ α).traced = Action.fail fault := by
  funext st
  simp only [traced, fail, List.append_nil]

theorem traced_ofExcept (result : Except Fault α) :
    (Action.ofExcept result : Action σ α).traced = Action.ofExcept result := by
  funext st
  simp only [traced, ofExcept, List.append_nil]

theorem traced_gets (f : σ → α) : (Action.gets f).traced = Action.gets fun st => f st.1 := by
  funext st
  simp only [traced, gets, List.append_nil]

theorem traced_modify (f : σ → σ) :
    (Action.modify f).traced = Action.modify fun st => (f st.1, st.2) := by
  funext st
  simp only [traced, modify, List.append_nil]

/-- An event is all that is added. -/
theorem traced_emit (event : Event) :
    (Action.emit event : Action σ Unit).traced =
      Action.modify fun st => (st.1, st.2 ++ [event]) :=
  rfl

theorem traced_attempt (act : Action σ α) : act.attempt.traced = act.traced.attempt :=
  rfl

theorem traced_within (get : τ → σ) (set : τ → σ → τ) (act : Action σ α) :
    (Action.within get set act).traced =
      Action.within (fun st => (get st.1, st.2)) (fun st part => (set st.1 part.1, part.2))
        act.traced :=
  rfl

/-- What is known of an action is known of the traced action. -/
theorem lift {P : σ → Prop} {Q : α → σ → Prop} {E : Fault → σ → Prop} {act : Action σ α}
    (h : Triple P act Q E) :
    Triple (fun st => P st.1) act.traced (fun a st => Q a st.1) fun fault st => E fault st.1 := by
  intro st hst
  exact h st.1 hst

/-- What a traced action says of an action. -/
theorem trace_of_traced {act : Action σ α} {s : σ} {Q : α → σ × List Event → Prop}
    {E : Fault → σ × List Event → Prop} (h : Triple (fun st => st = (s, [])) act.traced Q E) :
    match (act s).result with
    | .ok a => Q a ((act s).state, (act s).trace)
    | .error fault => E fault ((act s).state, (act s).trace) :=
  h (s, []) rfl

/-- A condition on a part of the state and on the events, kept by an action whether
    it answers or fails. -/
def Keeps (C : ρ × List Event → Prop) (part : σ → ρ) (act : Action σ α) : Prop :=
  Preserves (fun st : σ × List Event => C (part st.1, st.2)) act.traced

/-- A condition that is kept, by an action that answers with something special. -/
def Gives (C : ρ × List Event → Prop) (part : σ → ρ) (p : α → Prop) (act : Action σ α) : Prop :=
  Triple (fun st : σ × List Event => C (part st.1, st.2)) act.traced
    (fun a st => C (part st.1, st.2) ∧ p a) fun _ st => C (part st.1, st.2)

namespace Keeps

variable {C : ρ × List Event → Prop} {part : σ → ρ} {act : Action σ α}

theorem triple (h : Keeps C part act) :
    Triple (fun st : σ × List Event => C (part st.1, st.2)) act.traced
      (fun _ st => C (part st.1, st.2)) fun _ st => C (part st.1, st.2) :=
  h

/-- What is kept holds of the state and the events that an action ends with. -/
theorem after (h : Keeps C part act) {s : σ} (hs : C (part s, [])) :
    C (part (act s).state, (act s).trace) := by
  have hend := h.triple (s, []) hs
  split at hend <;> exact hend

theorem bind {f : α → Action σ β} (h : Keeps C part act) (hf : ∀ a, Keeps C part (f a)) :
    Keeps C part (act >>= f) := by
  rw [Keeps, traced_bind]
  exact Preserves.bind h hf

theorem ret (a : α) : Keeps C part (pure a : Action σ α) := by
  rw [Keeps, traced_pure]
  exact .ret a

theorem fail (fault : Fault) : Keeps C part (Action.fail fault : Action σ α) := by
  rw [Keeps, traced_fail]
  exact .fail fault

/-- What comes after a failure does not matter. -/
theorem fail_bind (fault : Fault) (f : α → Action σ β) :
    Keeps C part (Action.fail fault >>= f) := by
  rw [Keeps, traced_bind, traced_fail]
  exact Triple.fail_bind fun _ h => h

theorem ofExcept (result : Except Fault α) :
    Keeps C part (Action.ofExcept result : Action σ α) := by
  rw [Keeps, traced_ofExcept]
  exact .ofExcept result

theorem gets (f : σ → α) : Keeps C part (Action.gets f) := by
  rw [Keeps, traced_gets]
  exact .gets _

theorem attempt (h : Keeps C part act) : Keeps C part act.attempt := by
  rw [Keeps, traced_attempt]
  exact Preserves.attempt h

/-- A change of what is beside the part. -/
theorem modify {f : σ → σ} (h : ∀ s, part (f s) = part s) : Keeps C part (Action.modify f) := by
  rw [Keeps, traced_modify]
  refine .modify fun st hst => ?_
  -- No event is added, and the part is as it was.
  rw [h]
  exact hst

/-- An action on a state that has the part. -/
theorem within {part' : τ → ρ} {get : τ → σ} {set : τ → σ → τ} (h : Keeps C part act)
    (hget : ∀ t, part (get t) = part' t) (hset : ∀ t s, part' (set t s) = part s) :
    Keeps C part' (Action.within get set act) := by
  rw [Keeps, traced_within]
  refine Triple.within fun st hst => ?_
  -- The events are carried along, and the part is the same seen from either state.
  refine h.triple.weaken (fun s hs => ?_) (fun _ s hs => ?_) fun _ s hs => ?_
  · rw [hs, hget]
    exact hst
  · simp only [hset]
    exact hs
  · simp only [hset]
    exact hs

/-- An action on a state that has nothing of the part. -/
theorem beside {part' : τ → ρ} {get : τ → σ} {set : τ → σ → τ}
    (h : ∀ r, Keeps C (fun _ : σ => r) act) (hset : ∀ t s, part' (set t s) = part' t) :
    Keeps C part' (Action.within get set act) := by
  rw [Keeps, traced_within]
  refine Triple.within fun st hst => ?_
  -- To the action the part is a constant, namely what it was before.
  refine (h (part' st.1)).triple.weaken (fun s hs => ?_) (fun _ s hs => ?_) fun _ s hs => ?_
  · rw [hs]
    exact hst
  · simp only [hset]
    exact hs
  · simp only [hset]
    exact hs

/-- After an action that answers with something special. -/
theorem bind_gives {p : α → Prop} {f : α → Action σ β} (h : Gives C part p act)
    (hf : ∀ a, p a → Keeps C part (f a)) : Keeps C part (act >>= f) := by
  rw [Keeps, traced_bind]
  refine Triple.bind h fun a => ?_
  -- What is special about the answer is no matter of the state, so it can be assumed.
  refine .assuming (fun _ hs => hs.2) fun hp => ?_
  exact (hf a hp).triple.before fun _ hs => hs.1

theorem onFirst {act : Action σ α} (h : ∀ r : ρ, Keeps C (fun _ : σ => r) act) :
    Keeps C Prod.snd (act.onFirst : Action (σ × ρ) α) := by
  refine .beside h ?_
  intro _ _
  rfl

theorem onSecond {act : Action ρ α} (h : Keeps C id act) :
    Keeps C Prod.snd (act.onSecond : Action (σ × ρ) α) := by
  refine .within h ?_ ?_
  · intro _
    rfl
  · intro _ _
    rfl

end Keeps

namespace Gives

variable {C : ρ × List Event → Prop} {part : σ → ρ} {act : Action σ α} {p : α → Prop}

theorem keeps (h : Gives C part p act) : Keeps C part act := by
  rw [Keeps, Preserves]
  exact h.weaken (fun _ hs => hs) (fun _ _ hs => hs.1) fun _ _ hs => hs

theorem bind {q : β → Prop} {f : α → Action σ β} (h : Gives C part p act)
    (hf : ∀ a, p a → Gives C part q (f a)) : Gives C part q (act >>= f) := by
  rw [Gives, traced_bind]
  refine Triple.bind h fun a => ?_
  refine .assuming (fun _ hs => hs.2) fun hp => ?_
  -- From here on it is only the second answer that is asked about.
  exact Triple.before (hf a hp) fun _ hs => hs.1

/-- An answer that is always special. -/
theorem bind_keeps {q : β → Prop} {f : α → Action σ β} (h : Keeps C part act)
    (hf : ∀ a, Gives C part q (f a)) : Gives C part q (act >>= f) := by
  rw [Gives, traced_bind]
  exact h.triple.bind hf

theorem ret {a : α} (ha : p a) : Gives C part p (pure a : Action σ α) := by
  rw [Gives, traced_pure]
  exact .ret fun _ hs => ⟨hs, ha⟩

theorem fail (fault : Fault) : Gives C part p (Action.fail fault : Action σ α) := by
  rw [Gives, traced_fail]
  exact .fail fun _ hs => hs

theorem onSecond {act : Action ρ α} (h : Gives C id p act) :
    Gives C Prod.snd p (act.onSecond : Action (σ × ρ) α) := by
  rw [Gives, Action.onSecond, traced_within]
  refine .within fun st hst => ?_
  exact Triple.before h fun s hs => hs ▸ hst

end Gives

end Action

end Hotpatch
