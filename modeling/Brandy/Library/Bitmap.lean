import Mathlib.Tactic

/-!
# Bitmaps

A table of bits in an array of bytes: bit `i` is bit `i % 8` of byte `i / 8`. The operations are
those that C programs write out, shifts and masks on one byte.

## Main definitions

* `Bitmap.get`, `Bitmap.set`, `Bitmap.clear`: One bit is read, set or cleared.

## Theorems

* `Bitmap.get_set`, `Bitmap.get_clear`: The bits after a change of one of them.
-/

namespace Brandy

open Function

/-- Bytes by their index. -/
abbrev Bitmap := Nat → BitVec 8

namespace Bitmap

/-- A bitmap without any bit set. -/
def empty : Bitmap := fun _ => 0#8

/-- `m[i >> 3] & (1 << (i & 7))`. -/
def get (m : Bitmap) (i : Nat) : Bool := m (i >>> 3) &&& (1#8 <<< (i &&& 7)) != 0#8

/-- `m[i >> 3] |= 1 << (i & 7)`. -/
def set (m : Bitmap) (i : Nat) : Bitmap :=
  update m (i >>> 3) (m (i >>> 3) ||| (1#8 <<< (i &&& 7)))

/-- `m[i >> 3] &= ~(1 << (i & 7))`. -/
def clear (m : Bitmap) (i : Nat) : Bitmap :=
  update m (i >>> 3) (m (i >>> 3) &&& ~~~(1#8 <<< (i &&& 7)))

theorem and_seven (i : Nat) : i &&& 7 = i % 8 := Nat.and_two_pow_sub_one_eq_mod i 3

theorem shift_three (i : Nat) : i >>> 3 = i / 8 := Nat.shiftRight_eq_div_pow i 3

/-- A bit by the number of its byte and its place in the byte. -/
theorem get_eq (m : Bitmap) (i : Nat) : m.get i = (m (i / 8)).getLsbD (i % 8) := by
  unfold get
  rw [and_seven, shift_three, ← BitVec.twoPow_eq, BitVec.and_twoPow]
  have hlt : i % 8 < 8 := Nat.mod_lt _ (by decide)
  cases (m (i / 8)).getLsbD (i % 8) with
  | false => rfl
  | true =>
    have hne : BitVec.twoPow 8 (i % 8) ≠ 0#8 := by
      intro hzero
      have hbit := congrArg (fun x : BitVec 8 => x.getLsbD (i % 8)) hzero
      simp [hlt] at hbit
    simp [hne]

/-- The bits of the mask for one place. -/
theorem getLsbD_mask (i j : Nat) : (1#8 <<< (i % 8)).getLsbD (j % 8) = decide (i % 8 = j % 8) := by
  have hlt : i % 8 < 8 := Nat.mod_lt _ (by decide)
  rw [← BitVec.twoPow_eq, BitVec.getLsbD_twoPow, decide_eq_true hlt, Bool.true_and]

theorem get_empty (i : Nat) : empty.get i = false := by
  rw [get_eq]
  exact BitVec.getLsbD_zero

theorem get_set (m : Bitmap) (i j : Nat) : (m.set i).get j = (m.get j || decide (i = j)) := by
  rw [get_eq, get_eq, set, and_seven, shift_three]
  by_cases hbyte : j / 8 = i / 8
  · have hbit : i % 8 = j % 8 ↔ i = j := by omega
    rw [hbyte, update_self, BitVec.getLsbD_or, getLsbD_mask, decide_eq_decide.mpr hbit]
  · have hne : ¬ i = j := by omega
    rw [update_of_ne hbyte, decide_eq_false hne, Bool.or_false]

theorem get_clear (m : Bitmap) (i j : Nat) : (m.clear i).get j = (m.get j && !decide (i = j)) := by
  have hlt : j % 8 < 8 := Nat.mod_lt _ (by decide)
  rw [get_eq, get_eq, clear, and_seven, shift_three]
  by_cases hbyte : j / 8 = i / 8
  · have hbit : i % 8 = j % 8 ↔ i = j := by omega
    rw [hbyte, update_self, BitVec.getLsbD_and, BitVec.getLsbD_not, getLsbD_mask,
      decide_eq_decide.mpr hbit, decide_eq_true hlt, Bool.true_and]
  · have hne : ¬ i = j := by omega
    rw [update_of_ne hbyte, decide_eq_false hne, Bool.not_false, Bool.and_true]

end Bitmap

end Brandy
