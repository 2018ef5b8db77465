import Mathlib.Tactic

/-!
# Ring Buffers

A queue in a circle of slots. The elements are the slots from the head on, as many as the queue is
long, and the slots are counted modulo the size of the circle. The slot behind the last element is
free as long as the queue is not full, so an element that is put there disturbs nothing.

## Main definitions

* `window`: The elements of the queue.

## Theorems

* `window_push`: An element is added behind the last one.
* `window_pop`: The first element is the one at the head.
-/

namespace Brandy.Ring

open List Function

variable {α : Type}

/-- The elements in the `len` slots from `head` on. -/
def window (size head len : Nat) (slot : Nat → α) : List α :=
  (List.range len).map fun i => slot ((head + i) % size)

theorem window_zero (size head : Nat) (slot : Nat → α) : window size head 0 slot = [] := rfl

@[simp] theorem length_window (size head len : Nat) (slot : Nat → α) :
    (window size head len slot).length = len := by
  unfold window
  rw [length_map, length_range]

/-- The slot behind the queue is none of its slots. -/
theorem slot_ne {size head i len : Nat} (hi : i < len) (hlen : len < size) :
    (head + i) % size ≠ (head + len) % size := by
  intro heq
  have hmod : i ≡ len [MOD size] := Nat.ModEq.add_left_cancel' head heq
  rw [Nat.ModEq, Nat.mod_eq_of_lt (hi.trans hlen), Nat.mod_eq_of_lt hlen] at hmod
  exact Nat.ne_of_lt hi hmod

theorem window_push {size len : Nat} (hlen : len < size) (head : Nat) (slot : Nat → α) (a : α) :
    window size head (len + 1) (update slot ((head + len) % size) a) =
      window size head len slot ++ [a] := by
  unfold window
  rw [range_succ, map_append, map_singleton, update_self]
  congr 1
  refine map_congr_left fun i hi => ?_
  exact update_of_ne (slot_ne (mem_range.mp hi) hlen) _ _

/-- The queue is the element at the head and the queue behind it. -/
theorem window_pop (size head len : Nat) (slot : Nat → α) :
    window size head (len + 1) slot =
      slot (head % size) :: window size ((head + 1) % size) len slot := by
  unfold window
  rw [range_succ_eq_map, map_cons, Nat.add_zero, List.map_map]
  congr 1
  refine map_congr_left fun i _ => ?_
  dsimp only [comp]
  rw [Nat.mod_add_mod, show head + (i + 1) = head + 1 + i by omega]

end Brandy.Ring
