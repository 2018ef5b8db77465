import Mathlib.Tactic

/-!
# Two Machines in Lockstep

A machine answers requests one after the other and changes its state on the
way. Two machines that are given the same requests give the same replies when a
relation between their states makes the next replies agree and survives the
step. The relation may only survive for requests that meet a condition on the
state they are made in; then the two machines agree along every run whose
requests all meet it.

The same holds for one machine and an invariant.

## Main definitions

* `replies`, `after`: The replies to a list of requests, and the state after it.
* `Along`: All requests of a list meet a condition on the state before them.

## Theorems

* `replies_eq_of_simulates`: A relation kept by every step makes the replies of
  two machines the same.
* `after_of_collect`, `after_of_step`: What every step keeps holds after a run.
-/

namespace Brandy.Simulation

section

variable {σ τ ι ρ : Type}

/-- The replies of a machine to a list of requests. -/
def replies (step : σ → ι → ρ × σ) (s : σ) : List ι → List ρ
  | [] => []
  | i :: is => (step s i).1 :: replies step (step s i).2 is

/-- The state of a machine after a list of requests. -/
def after (step : σ → ι → ρ × σ) (s : σ) : List ι → σ
  | [] => s
  | i :: is => after step (step s i).2 is

/-- What the requests of a list contribute, each in the state it is made in. -/
def collect {α : Type} (step : σ → ι → ρ × σ) (out : σ → ι → List α) (s : σ) : List ι → List α
  | [] => []
  | i :: is => out s i ++ collect step out (step s i).2 is

/-- All requests of a list meet a condition on the state before them. -/
def Along (step : σ → ι → ρ × σ) (P : σ → ι → Prop) (s : σ) : List ι → Prop
  | [] => True
  | i :: is => P s i ∧ Along step P (step s i).2 is

/-- On a concrete run a decidable condition can be evaluated. -/
instance decidableAlong (step : σ → ι → ρ × σ) (P : σ → ι → Prop) [∀ s i, Decidable (P s i)] :
    ∀ (s : σ) (is : List ι), Decidable (Along step P s is)
  | _, [] => inferInstanceAs (Decidable True)
  | s, i :: is =>
    have := decidableAlong step P (step s i).2 is
    inferInstanceAs (Decidable (P s i ∧ Along step P (step s i).2 is))

variable {step : σ → ι → ρ × σ} {P : σ → ι → Prop}

theorem Along.imp {Q : σ → ι → Prop} (himp : ∀ s i, P s i → Q s i) (is : List ι) :
    ∀ s : σ, Along step P s is → Along step Q s is := by
  induction is with
  | nil =>
    intro s _
    trivial
  | cons i is ih =>
    intro s hP
    exact ⟨himp s i hP.1, ih _ hP.2⟩

theorem Along.of_append {is js : List ι} {s : σ} (h : Along step P s (is ++ js)) :
    Along step P s is := by
  induction is generalizing s with
  | nil => trivial
  | cons i is ih => exact ⟨h.1, ih h.2⟩

theorem replies_append (step : σ → ι → ρ × σ) (s : σ) (is js : List ι) :
    replies step s (is ++ js) = replies step s is ++ replies step (after step s is) js := by
  induction is generalizing s with
  | nil => rfl
  | cons i is ih => rw [List.cons_append, replies, replies, after, ih, List.cons_append]

theorem replies_eq_of_simulates {step' : τ → ι → ρ × τ} {R : σ → τ → Prop}
    (hstep : ∀ s t i, R s t → P s i → (step s i).1 = (step' t i).1 ∧ R (step s i).2 (step' t i).2)
    (is : List ι) (s : σ) (t : τ) (hR : R s t) (hP : Along step P s is) :
    replies step s is = replies step' t is := by
  induction is generalizing s t with
  | nil => rfl
  | cons i is ih =>
    rcases hstep s t i hR hP.1 with ⟨hreply, hnext⟩
    rw [replies, replies, hreply, ih _ _ hnext hP.2]

theorem after_of_collect {α : Type} {out : σ → ι → List α} {Q : ρ → Prop} {I : List α → σ → Prop}
    (hstep : ∀ done s i, I done s → P s i → Q (step s i).1 → I (done ++ out s i) (step s i).2)
    {is : List ι} (done : List α) (s : σ) (hI : I done s) (hP : Along step P s is)
    (hQ : ∀ r ∈ replies step s is, Q r) :
    I (done ++ collect step out s is) (after step s is) := by
  induction is generalizing done s with
  | nil => rwa [collect, List.append_nil]
  | cons i is ih =>
    have hnext := hstep done s i hI hP.1 (hQ _ List.mem_cons_self)
    have hrest := ih (done ++ out s i) (step s i).2 hnext hP.2
      fun r hr => hQ r (List.mem_cons_of_mem _ hr)
    rwa [List.append_assoc] at hrest

theorem collect_self (step : σ → ι → ρ × σ) (s : σ) (is : List ι) :
    collect step (fun _ i => [i]) s is = is := by
  induction is generalizing s with
  | nil => rfl
  | cons i is ih => rw [collect, ih, List.singleton_append]

theorem after_of_step {Q : ρ → Prop} {I : List ι → σ → Prop}
    (hstep : ∀ done s i, I done s → P s i → Q (step s i).1 → I (done ++ [i]) (step s i).2)
    {is : List ι} (done : List ι) (s : σ) (hI : I done s) (hP : Along step P s is)
    (hQ : ∀ r ∈ replies step s is, Q r) : I (done ++ is) (after step s is) := by
  have hrun := after_of_collect hstep done s hI hP hQ
  rwa [collect_self] at hrun

end

end Brandy.Simulation
