import Brandy.Core.Checksum

/-!
# What the Checksum Depends On

`sunxi_generate_checksum` looks at no byte behind the length it is given.

## Theorems

* `generateChecksum_congr`: Buffers that agree up to the length have the same checksum.
-/

namespace Brandy.Checksum

open Memory

variable {m m' : Mem}

theorem word_congr {a : Int} (h : ∀ x, a ≤ x → x < a + 4 → m x = m' x) : word m a = word m' a := by
  unfold word
  rw [read_congr a h]

theorem sumQuads_congr (n : Nat) {count buf : Int} (sum : Nat) (hcount : 4 ≤ count)
    (h : ∀ x, buf ≤ x → x < buf + 4 * count → m x = m' x) :
    sumQuads m 1 n count buf sum = sumQuads m' 1 n count buf sum ∧
      buf ≤ (sumQuads m 1 n count buf sum).2.1 ∧
      (sumQuads m 1 n count buf sum).2.1 + 4 * (sumQuads m 1 n count buf sum).1 =
        buf + 4 * count := by
  induction n generalizing count buf sum with
  | zero => exact ⟨rfl, le_rfl, rfl⟩
  | succ n ih =>
    have hword : ∀ o : Int, 0 ≤ o → o ≤ 12 → word m (buf + o) = word m' (buf + o) := by
      intro o hnonneg hle
      exact word_congr fun x hx hlt => h x (by omega) (by omega)
    have h0 := hword 0 le_rfl (by decide)
    rw [Int.add_zero] at h0
    simp only [sumQuads, h0, hword 4 (by decide) (by decide), hword 8 (by decide) (by decide),
      hword 12 (by decide) (by decide), Nat.cast_one]
    by_cases hmore : 4 - 1 < count - 4 * 1
    · simp only [if_pos hmore]
      obtain ⟨heq, hle, hsum⟩ := ih _ (show 4 ≤ count - 4 * 1 by omega)
        fun x (hx : buf + 16 ≤ x) hlt => h x (by omega) (by omega)
      exact ⟨heq, by omega, by omega⟩
    · simp only [if_neg hmore]
      exact ⟨trivial, by omega, by omega⟩

theorem sumRest_congr (n sum : Nat) {count buf : Int}
    (h : ∀ x, buf ≤ x → x < buf + 4 * count → m x = m' x) :
    sumRest m n count buf sum = sumRest m' n count buf sum := by
  induction n generalizing count buf sum with
  | zero => rfl
  | succ n ih =>
    unfold sumRest
    by_cases hpos : 0 < count
    · rw [if_pos hpos, if_pos hpos, word_congr fun x hx hlt => h x hx (by omega)]
      exact ih _ fun x hx hlt => h x (by omega) (by omega)
    · rw [if_neg hpos, if_neg hpos]

theorem generateChecksum_congr {length : Nat} (srcSum : Nat) (hlength : 16 ≤ length)
    (h : ∀ x : Int, 0 ≤ x → x < length → m x = m' x) :
    generateChecksum m length 1 srcSum = generateChecksum m' length 1 srcSum := by
  obtain ⟨hquads, hle, hend⟩ := sumQuads_congr (length / 4 + 1) 0
    (show (4 : Int) ≤ (length / 4 : Nat) by omega) fun x hx hlt => h x hx (by omega)
  have hrest := fun sum => sumRest_congr 3 sum fun x
    (hx : (sumQuads m 1 (length / 4 + 1) (length / 4 : Nat) 0 0).2.1 ≤ x)
    (hlt : x < (sumQuads m 1 (length / 4 + 1) (length / 4 : Nat) 0 0).2.1 +
      4 * (sumQuads m 1 (length / 4 + 1) (length / 4 : Nat) 0 0).1) => h x (by omega) (by omega)
  unfold generateChecksum
  simp only
  rw [← hquads, hrest]

end Brandy.Checksum
