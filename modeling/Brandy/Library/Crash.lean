import Mathlib.Tactic

/-!
# Computations That Lose Power

A device is changed by atomic operations, and power may fail between any two of them. `Run` is a
computation on a device with a budget: the number of atomic operations that still complete, or no
bound at all. When the budget is used up the next operation does not happen and the computation ends
in the state the device is in.

## Main definitions

* `Run`, `Result`: A computation with a budget, and how it ends.
* `atomic`, `observe`: One operation of the device, and a look at it.
* `loop`, `steps`: An operation for each of some indices, and what all of them do.

## Theorems

* `loop_run`: What a loop leaves under any budget.
* `steps_succ`: The last step of a loop.
-/

namespace Brandy.Crash

/-- How a computation ends: with a value, the device and the power left, or with the device at the
    moment power was lost. -/
inductive Result (σ α : Type) where
  | done (a : α) (s : σ) (power : Option Nat)
  | lost (s : σ)

/-- A computation on a device, given the number of operations that power lasts for, or `none` when
    it does not fail. -/
def Run (σ α : Type) := σ → Option Nat → Result σ α

/-- The device at the end. -/
def Result.state {σ α : Type} : Result σ α → σ
  | .done _ s _ => s
  | .lost s => s

/-- Going on with a result. -/
def Result.bind {σ α β : Type} (r : Result σ α) (f : α → Run σ β) : Result σ β :=
  match r with
  | .done a s power => f a s power
  | .lost s => .lost s

instance {σ : Type} : Monad (Run σ) where
  pure a := fun s power => .done a s power
  bind r f := fun s power => (r s power).bind f

/-- One operation of the device. -/
def atomic {σ : Type} (f : σ → σ) : Run σ Unit := fun s power =>
  match power with
  | none => .done () (f s) none
  | some 0 => .lost s
  | some (n + 1) => .done () (f s) (some n)

/-- Looking at the device. -/
def observe {σ α : Type} (f : σ → α) : Run σ α := fun s power => .done (f s) s power

/-- An operation for each of `n` indices from `i` on. -/
def loop {σ : Type} (f : Nat → σ → σ) : Nat → Nat → Run σ Unit
  | 0, _ => pure ()
  | n + 1, i => do
    atomic (f i)
    loop f n (i + 1)

/-- The operations of `n` indices from `i` on, one after the other. -/
def steps {σ : Type} (f : Nat → σ → σ) : Nat → Nat → σ → σ
  | 0, _, s => s
  | n + 1, i, s => steps f n (i + 1) (f i s)

section

variable {σ α β : Type}

@[simp] theorem pure_run (a : α) (s : σ) (power : Option Nat) :
    (pure a : Run σ α) s power = .done a s power := rfl

@[simp] theorem bind_run (r : Run σ α) (f : α → Run σ β) (s : σ) (power : Option Nat) :
    (r >>= f) s power = (r s power).bind f := rfl

@[simp] theorem bind_done (a : α) (s : σ) (power : Option Nat) (f : α → Run σ β) :
    (Result.done a s power).bind f = f a s power := rfl

variable (s : σ)

@[simp] theorem bind_lost (f : α → Run σ β) :
    (Result.lost s : Result σ α).bind f = .lost s := rfl

@[simp] theorem observe_run (f : σ → α) (s : σ) (power : Option Nat) :
    observe f s power = .done (f s) s power := rfl

variable (f : σ → σ)

@[simp] theorem atomic_none : atomic f s none = .done () (f s) none := rfl

@[simp] theorem atomic_zero : atomic f s (some 0) = .lost s := rfl

@[simp] theorem atomic_succ (n : Nat) :
    atomic f s (some (n + 1)) = .done () (f s) (some n) := rfl

@[simp] theorem state_done (a : α) (s : σ) (power : Option Nat) :
    (Result.done a s power).state = s := rfl

@[simp] theorem state_lost : (Result.lost s : Result σ α).state = s := rfl

section

variable (f : Nat → σ → σ) (n i : Nat) (s : σ)

/-- A loop ends with all its steps, or with as many as there was power for. -/
theorem loop_run (power : Nat) :
    loop f n i s (some power) =
      if n ≤ power then .done () (steps f n i s) (some (power - n))
      else .lost (steps f power i s) := by
  induction n generalizing i s power with
  | zero =>
    rw [if_pos (Nat.zero_le power)]
    rfl
  | succ n ih =>
    rw [loop, bind_run]
    cases power with
    | zero =>
      rw [atomic_zero, bind_lost, if_neg (by omega)]
      rfl
    | succ power =>
      rw [atomic_succ, bind_done, ih]
      by_cases h : n ≤ power
      · rw [if_pos h, if_pos (by omega), Nat.add_sub_add_right]
        rfl
      · rw [if_neg h, if_neg (by omega)]
        rfl

theorem loop_none : loop f n i s none = .done () (steps f n i s) none := by
  induction n generalizing i s with
  | zero => rfl
  | succ n ih =>
    rw [loop, bind_run, atomic_none, bind_done, ih]
    rfl

theorem steps_succ : steps f (n + 1) i s = f (i + n) (steps f n i s) := by
  induction n generalizing i s with
  | zero => rfl
  | succ n ih =>
    rw [steps, ih (i + 1) (f i s), show i + 1 + n = i + (n + 1) by omega]
    rfl

end

end

end Brandy.Crash
