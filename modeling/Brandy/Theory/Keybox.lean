import Brandy.Core.Keybox
import Mathlib.Data.List.Induction
import Mathlib.Tactic

/-!
# The Trust Chain

The callback installs the keys in a fixed order and stops at the first result that is not 0. The
result for a key that had to be encrypted again is not 0 either, though the key is installed.
Nothing stops it behind the last key.

## Main definitions

* `Exact`: The flag is set exactly if all keys have been installed.

## Theorems

* `loadAll_zeros`, `loadAll_stopped`: A number of calls.
* `chain_exact_iff`: When the flag is right.
-/

namespace Brandy.Keybox

open List

/-- Before the first call, with the variable not set. -/
def chainStart : Chain := ⟨0, .installing, false, [], []⟩

/-- The flag is set exactly if all keys have been installed, and the map has not been read behind
    its end. -/
def Exact (s : Chain) : Prop :=
  (s.env = true ↔ ∀ k < androidTrustChainMap.length, k ∈ s.installed) ∧
    ∀ k ∈ s.read, k < androidTrustChainMap.length

/-- The state after `n` results that are 0. -/
def chainAfter (n : Nat) : Chain := ⟨n, .installing, decide (8 ≤ n), range n, range n⟩

theorem loadAll_zeros {calls : List Answers} (h : ∀ a ∈ calls, defaultKeyboxInstallation a = 0) :
    loadAll calls chainStart = chainAfter calls.length := by
  induction calls using reverseRecOn with
  | nil => rfl
  | append_singleton calls a ih =>
    have ha := h a (by simp)
    have hflag : (decide (8 ≤ calls.length) || calls.length == 7) =
      decide (8 ≤ calls.length + 1) := by
      rw [Bool.eq_iff_iff]
      simp
      omega
    unfold loadAll at ih ⊢
    rw [foldl_append, ih fun b hb => h b (by simp [hb]), length_append]
    simp [androidTrustChainLoadCb, chainAfter, ha, androidTrustChainMap, hflag, range_succ]

theorem loadAll_failed {calls : List Answers} {s : Chain} (h : s.status = .installFailed) :
    loadAll calls s = s := by
  induction calls with
  | nil => rfl
  | cons a calls ih =>
    have hsame : (androidTrustChainLoadCb a s).2 = s := by simp [androidTrustChainLoadCb, h]
    exact (congrArg (loadAll calls) hsame).trans ih

/-- The first result that is not 0 is the last one that changes the state. -/
theorem loadAll_stopped {zeros rest : List Answers} {a : Answers}
    (hzeros : ∀ a ∈ zeros, defaultKeyboxInstallation a = 0) (ha : defaultKeyboxInstallation a ≠ 0) :
    loadAll (zeros ++ a :: rest) chainStart =
      ⟨zeros.length, .installFailed, decide (8 ≤ zeros.length), range (zeros.length + 1),
        range (if defaultKeyboxInstallation a = installSuccessAfterReenc then zeros.length + 1
          else zeros.length)⟩ := by
  have hstep : loadAll (zeros ++ a :: rest) chainStart =
      loadAll rest (androidTrustChainLoadCb a (loadAll zeros chainStart)).2 := foldl_append
  rw [hstep, loadAll_zeros hzeros, loadAll_failed]
  · simp only [androidTrustChainLoadCb, chainAfter, ha, false_or, ne_eq, not_false_eq_true, if_true,
      ← range_succ]
    split <;> rfl
  · simp [androidTrustChainLoadCb, chainAfter, ha]

theorem exact_iff {idx n k r : Nat} {status : InstallStatus} :
    Exact ⟨idx, status, decide (8 ≤ n), range r, range k⟩ ↔ (8 ≤ n ↔ 8 ≤ k) ∧ r ≤ 8 := by
  have hlen : androidTrustChainMap.length = 8 := rfl
  simp only [Exact, hlen, mem_range, decide_eq_true_eq, forall_lt_iff_le]

/-- The flag is right unless the first seven keys are installed at once and the last has to be
    encrypted again, or all are installed and the callback is called once more. -/
theorem chain_exact_iff (calls : List Answers) :
    Exact (loadAll calls chainStart) ↔
      ¬ ((∀ a ∈ calls.take 7, defaultKeyboxInstallation a = 0) ∧
        ∃ a, calls[7]? = some a ∧ (defaultKeyboxInstallation a = installSuccessAfterReenc ∨
          defaultKeyboxInstallation a = 0 ∧ 8 < calls.length)) := by
  have hone : installSuccessAfterReenc ≠ 0 := by decide
  rcases hfirst : calls.find? fun a => defaultKeyboxInstallation a ≠ 0 with - | a
  · have hzeros : ∀ a ∈ calls, defaultKeyboxInstallation a = 0 := by simpa using hfirst
    rw [loadAll_zeros hzeros, chainAfter, exact_iff]
    constructor
    · rintro ⟨-, hread⟩ ⟨-, a, ha, hret | hret⟩
      · exact hone (hret.symm.trans (hzeros a (mem_of_getElem? ha)))
      · omega
    · intro h
      refine ⟨Iff.rfl, not_lt.mp fun hlong => h ⟨fun a ha => hzeros a (mem_of_mem_take ha), ?_⟩⟩
      exact ⟨calls[7], getElem?_eq_getElem _, .inr ⟨hzeros _ (getElem_mem _), hlong⟩⟩
  · rcases find?_eq_some_iff_append.mp hfirst with ⟨ha, zeros, rest, rfl, hzeros⟩
    have ha : defaultKeyboxInstallation a ≠ 0 := by simpa using ha
    have hzeros : ∀ a ∈ zeros, defaultKeyboxInstallation a = 0 := by simpa using hzeros
    rw [loadAll_stopped hzeros ha, exact_iff]
    rcases Nat.lt_trichotomy zeros.length 7 with hlt | hseven | hgt
    · refine iff_of_true (by split <;> omega) fun h => ha (h.1 a ?_)
      rcases Nat.exists_eq_add_of_lt hlt with ⟨m, hm⟩
      rw [take_append, show 7 - zeros.length = m + 1 by omega, take_succ_cons]
      simp
    · rw [take_left' hseven, getElem?_append_right (by omega), hseven]
      have hcalled : (∃ b, (a :: rest)[7 - 7]? = some b ∧
          (defaultKeyboxInstallation b = installSuccessAfterReenc ∨
            defaultKeyboxInstallation b = 0 ∧ 8 < (zeros ++ a :: rest).length)) ↔
          defaultKeyboxInstallation a = installSuccessAfterReenc := by simp [ha]
      rw [hcalled]
      by_cases hret : defaultKeyboxInstallation a = installSuccessAfterReenc
      · simpa [hret] using hzeros
      · simp [hret]
    · refine iff_of_false (by omega)
        (not_not.mpr ⟨fun b hb => hzeros b ?_, zeros[7], ?_, .inr ⟨?_, ?_⟩⟩)
      · rw [take_append_of_le_length (by omega)] at hb
        exact mem_of_mem_take hb
      · rw [getElem?_append_left hgt, getElem?_eq_getElem hgt]
      · exact hzeros _ (getElem_mem hgt)
      · rw [length_append, length_cons]
        omega

/-- The last key has to be encrypted again: all keys are installed, and the flag is not set. -/
theorem chain_reencrypted :
    (∀ k < 8, k ∈ (loadAll (replicate 7 ⟨0, 0, true, 0, 0⟩ ++ [⟨0, 1, false, 0, 0⟩])
      chainStart).installed) ∧
    (loadAll (replicate 7 ⟨0, 0, true, 0, 0⟩ ++ [⟨0, 1, false, 0, 0⟩]) chainStart).env = false := by
  decide

end Brandy.Keybox
