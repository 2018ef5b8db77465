import Mathlib.Order.Defs.Unbundled

/-!
# Programs That May Not Come Back

A program of a device works on a state and either returns a value or ends early: the board restarts,
or power fails. What has been done to the state by then stays done, so both ways of ending carry the
state.

Two kinds of facts are proved along the structure of such programs. `Moves R p` holds however `p`
ends, and for a reflexive and transitive relation it is enough to look at the single operations.
`Returns P p Q` only constrains the runs that return, so that an early end needs no case of its own.

## Main definitions

* `Proc`, `Result`: A program on a state, and how it ends.
* `update`, `look`, `leave`: A change of the state, a look at it and the early end.
* `Moves`, `Returns`: A relation that a program respects, and a postcondition.

## Theorems

* `Moves.bind`, `Moves.ite`: A sequence and a branch.
* `Returns.bind`, `Returns.ite`: The same for postconditions.
* `Returns.moved`: A postcondition that a relation keeps survives the rest of a program.
-/

namespace Brandy.Process

/-- How a program ends: with a value, or early. -/
inductive Result (σ ε α : Type) where
  | ret (a : α) (s : σ)
  | gone (e : ε) (s : σ)

/-- A program on states `σ` that may end early with an `ε`. -/
def Proc (σ ε α : Type) := σ → Result σ ε α

section

variable {σ ε α β : Type}

/-- The state at the end. -/
def Result.state : Result σ ε α → σ
  | .ret _ s => s
  | .gone _ s => s

/-- The value that is returned. -/
def Result.value : Result σ ε α → Option α
  | .ret a _ => some a
  | .gone _ _ => none

/-- Going on with a result. -/
def Result.bind (r : Result σ ε α) (f : α → Proc σ ε β) : Result σ ε β :=
  match r with
  | .ret a s => f a s
  | .gone e s => .gone e s

instance : Monad (Proc σ ε) where
  pure a := fun s => .ret a s
  bind p f := fun s => (p s).bind f

/-- A change of the state. -/
def update (f : σ → σ) : Proc σ ε Unit := fun s => .ret () (f s)

/-- A look at the state. -/
def look (f : σ → α) : Proc σ ε α := fun s => .ret (f s) s

/-- The early end. -/
def leave (e : ε) : Proc σ ε α := fun s => .gone e s

@[simp] theorem pure_run {a : α} {s : σ} : (pure a : Proc σ ε α) s = .ret a s := rfl

@[simp] theorem bind_run (p : Proc σ ε α) (f : α → Proc σ ε β) (s : σ) :
    (p >>= f) s = (p s).bind f := rfl

@[simp] theorem update_run (f : σ → σ) (s : σ) :
    (update f : Proc σ ε Unit) s = .ret () (f s) := rfl

variable (f : σ → α)

@[simp] theorem look_run (s : σ) : (look f : Proc σ ε α) s = .ret (f s) s := rfl

@[simp] theorem ret_bind (a : α) (s : σ) (f : α → Proc σ ε β) :
    (Result.ret a s).bind f = f a s := rfl

@[simp] theorem gone_bind (e : ε) (s : σ) (f : α → Proc σ ε β) :
    (Result.gone e s : Result σ ε α).bind f = .gone e s := rfl

@[simp] theorem ret_state (a : α) (s : σ) : (Result.ret a s : Result σ ε α).state = s := rfl

/-- However `p` ends, it has taken the state to one related by `R`. -/
def Moves (R : σ → σ → Prop) (p : Proc σ ε α) : Prop := ∀ s, R s (p s).state

variable {R : σ → σ → Prop}

theorem Moves.pure [Std.Refl R] (a : α) : Moves R (Pure.pure a : Proc σ ε α) :=
  fun s => refl_of R s

theorem Moves.look [Std.Refl R] : Moves R (look f : Proc σ ε α) :=
  fun s => refl_of R s

theorem Moves.leave [Std.Refl R] (e : ε) : Moves R (leave e : Proc σ ε α) :=
  fun s => refl_of R s

theorem Moves.update {f : σ → σ} (h : ∀ s, R s (f s)) : Moves R (update f : Proc σ ε Unit) := h

variable {p : Proc σ ε α}

theorem Moves.run (hp : Moves R p) {s s' : σ} {a : α} (h : p s = .ret a s') : R s s' := by
  have hs := hp s
  rwa [h] at hs

/-- A sequence respects a transitive relation that its parts respect. -/
theorem Moves.bind [IsTrans σ R] {f : α → Proc σ ε β} (hp : Moves R p) (hf : ∀ a, Moves R (f a)) :
    Moves R (p >>= f) := by
  intro s
  have hs := hp s
  rw [bind_run]
  cases hps : p s with
  | ret a s' =>
    rw [hps] at hs
    exact trans_of R hs (hf a s')
  | gone e s' =>
    rw [hps] at hs
    exact hs

theorem Moves.ite {c : Prop} [Decidable c] {q : Proc σ ε α} (hp : c → Moves R p)
    (hq : ¬ c → Moves R q) : Moves R (if c then p else q) := by
  split
  · exact hp ‹_›
  · exact hq ‹_›

/-- When `p` is started in a state with `P` and returns, `Q` holds. -/
def Returns (P : σ → Prop) (p : Proc σ ε α) (Q : α → σ → Prop) : Prop :=
  ∀ s, P s → ∀ a s', p s = .ret a s' → Q a s'

variable {P : σ → Prop} {Q : α → σ → Prop} {T : β → σ → Prop}

theorem Returns.pure {a : α} (h : ∀ s, P s → Q a s) : Returns P (Pure.pure a : Proc σ ε α) Q := by
  intro s hs a' s' hrun
  cases hrun
  exact h s hs

theorem Returns.look :
    Returns P (look f : Proc σ ε α) fun a s => a = f s ∧ P s := by
  intro s hs a s' hrun
  cases hrun
  exact ⟨rfl, hs⟩

theorem Returns.leave (e : ε) : Returns P (leave e : Proc σ ε α) Q := by
  intro s _ a s' hrun
  cases hrun

/-- The postcondition of the first part is what the second part starts with. -/
theorem Returns.bind {f : α → Proc σ ε β} (hp : Returns P p Q) (hf : ∀ a, Returns (Q a) (f a) T) :
    Returns P (p >>= f) T := by
  intro s hs b s' hrun
  rw [bind_run] at hrun
  cases hps : p s with
  | ret a s₁ =>
    rw [hps, ret_bind] at hrun
    exact hf a s₁ (hp s hs a s₁ hps) b s' hrun
  | gone e s₁ =>
    rw [hps, gone_bind] at hrun
    cases hrun

theorem Returns.ite {c : Prop} [Decidable c] {q : Proc σ ε α} (hp : c → Returns P p Q)
    (hq : ¬ c → Returns P q Q) : Returns P (if c then p else q) Q := by
  split
  · exact hp ‹_›
  · exact hq ‹_›

theorem Returns.moved (hp : Moves R p) (hP : ∀ s s', P s → R s s' → P s') :
    Returns P p fun _ => P := by
  intro s hs a s' hrun
  have hmove := hp s
  rw [hrun] at hmove
  exact hP s s' hs hmove

end

end Brandy.Process
