import Hotpatch.Event

/-!
# Actions

An operation on a state that may fail and that lets the outside see events.
Failing does not undo anything: the state and the events up to the fault stay,
and what an operation must put back it puts back itself. That makes "a failed
operation changes nothing" a statement to be proved of each operation, and not
a feature of the language it is written in.

Events are the output of an action and no part of its state, so an action can
neither see nor drop the events before it.

## Main definitions

* `Outcome`: What an action leaves behind.
* `Action`: An operation on a state.
* `Action.attempt`: An action whose fault is part of its answer.
* `Action.onFirst`, `Action.onSecond`: An action on one half of a state.
* `Action.within`: An action on a part of a state.

## Theorems

* `Action.bind_ok`, `Action.bind_error`: One action after another.
* `Action.bind_ofExcept`, `Action.map_eq`: An action whose answer is worked on.
-/

namespace Hotpatch

/-- What an action leaves behind. -/
structure Outcome (σ α : Type) where
  result : Except Fault α
  state : σ
  trace : List Event

/-- An operation on a state that may fail and that lets the outside see
    events. -/
def Action (σ α : Type) : Type :=
  σ → Outcome σ α

namespace Action

variable {σ ρ τ α β : Type}

/-- The action that answers and does nothing. -/
def ret (a : α) : Action σ α :=
  fun s => ⟨.ok a, s, []⟩

/-- One action, and another with its answer unless the first fails. -/
def andThen (first : Action σ α) (second : α → Action σ β) : Action σ β :=
  fun s =>
    let o := first s
    match o.result with
    | .error fault => ⟨.error fault, o.state, o.trace⟩
    | .ok a =>
      let o' := second a o.state
      ⟨o'.result, o'.state, o.trace ++ o'.trace⟩

instance : Monad (Action σ) where
  pure := ret
  bind := andThen

/-- Answering and going on are units of each other, and going on is associative,
    because traces are joined in the order of the actions. -/
instance : LawfulMonad (Action σ) := by
  refine LawfulMonad.mk' (Action σ) ?_ ?_ ?_
  · intro α act
    funext s
    change andThen act ret s = act s
    rcases h : act s with ⟨_ | _, _, _⟩ <;>
      simp only [andThen, ret, h, List.append_nil]
  · intro α β a f
    funext s
    change andThen (ret a) f s = f a s
    simp only [andThen, ret, List.nil_append]
  · intro α β γ act f g
    funext s
    change andThen (andThen act f) g s = andThen act (fun a => andThen (f a) g) s
    rcases h : act s with ⟨_ | a, s', _⟩
    · simp only [andThen, h]
    · rcases h' : f a s' with ⟨_ | _, _, _⟩ <;>
        simp only [andThen, h, h', List.append_assoc]

def fail (fault : Fault) : Action σ α :=
  fun s => ⟨.error fault, s, []⟩

/-- The action whose answer is already known. -/
def ofExcept (result : Except Fault α) : Action σ α :=
  fun s => ⟨result, s, []⟩

/-- An action whose fault is part of its answer. -/
def attempt (act : Action σ α) : Action σ (Except Fault α) :=
  fun s =>
    let o := act s
    ⟨.ok o.result, o.state, o.trace⟩

def gets (f : σ → α) : Action σ α :=
  fun s => ⟨.ok (f s), s, []⟩

def modify (f : σ → σ) : Action σ Unit :=
  fun s => ⟨.ok (), f s, []⟩

def emit (event : Event) : Action σ Unit :=
  fun s => ⟨.ok (), s, [event]⟩

def log (n : Note) : Action σ Unit :=
  emit (.note n)

/-- An action on a part of a state. -/
def within (get : τ → σ) (set : τ → σ → τ) (act : Action σ α) : Action τ α :=
  fun t =>
    let o := act (get t)
    ⟨o.result, set t o.state, o.trace⟩

def onFirst (act : Action σ α) : Action (σ × ρ) α :=
  within Prod.fst (fun t s => (s, t.2)) act

def onSecond (act : Action σ α) : Action (ρ × σ) α :=
  within Prod.snd (fun t s => (t.1, s)) act

/-- An action goes on after an answer. -/
theorem bind_ok {first : Action σ α} {second : α → Action σ β} {s : σ} {a : α}
    (h : (first s).result = .ok a) :
    (first >>= second) s = ⟨(second a (first s).state).result,
      (second a (first s).state).state,
      (first s).trace ++ (second a (first s).state).trace⟩ := by
  change andThen first second s = _
  simp only [andThen, h]

/-- An action stops at a fault, and what it did before stays. -/
theorem bind_error {first : Action σ α} {second : α → Action σ β} {s : σ} {fault : Fault}
    (h : (first s).result = .error fault) :
    (first >>= second) s = ⟨.error fault, (first s).state, (first s).trace⟩ := by
  change andThen first second s = _
  simp only [andThen, h]

/-- What is worked out from an answer comes in its place, or the fault of working it out. -/
theorem bind_ofExcept (act : Action σ α) (f : α → Except Fault β) (s : σ) :
    (do ofExcept (f (← act)) : Action σ β) s =
      ⟨(act s).result.bind f, (act s).state, (act s).trace⟩ := by
  rcases h : act s with ⟨_ | a, s', trace⟩
  · have hresult : (act s).result = .error _ := congrArg Outcome.result h
    rw [bind_error hresult, h]
    rfl
  · have hresult : (act s).result = .ok _ := congrArg Outcome.result h
    rw [bind_ok hresult, h]
    exact congrArg _ (List.append_nil trace)

/-- An answer is put in another form. -/
theorem map_eq (act : Action σ α) (f : α → β) (s : σ) :
    (do return f (← act) : Action σ β) s =
      ⟨(act s).result.map f, (act s).state, (act s).trace⟩ := by
  refine (bind_ofExcept act (fun a => .ok (f a)) s).trans ?_
  cases (act s).result <;> rfl

end Action

end Hotpatch
