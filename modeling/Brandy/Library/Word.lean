import Mathlib.Tactic

/-!
# Machine Words

The conversions a 32-bit C program makes without saying so. An expression of any type assigned to an
`unsigned int` is reduced modulo `2 ^ 32`; assigned to an `int` it is reduced to the representative
between `-2 ^ 31` and `2 ^ 31 - 1`. All are written on integers, so that a mixed expression can be
computed exactly first and reduced once, where the source assigns it.

## Main definitions

* `u32`, `s32`, `u64`, `s64`: The value of an expression stored in an integer of that size.

## Theorems

* `u32_of_range`, `s32_of_range`: A value that fits is stored unchanged.
* `s32_neg`: A value in the upper half of the unsigned range is stored as a negative number.
-/

namespace Brandy.Word

/-- The value of an expression stored in an `unsigned int`. Irreducible, so that unification never
    computes with the modulus. -/
@[irreducible] def u32 (x : Int) : Nat := (x % 2 ^ 32).toNat

/-- The value of an expression stored in an `int`. -/
@[irreducible] def s32 (x : Int) : Int := (x + 2 ^ 31) % 2 ^ 32 - 2 ^ 31

/-- The value of an expression stored in an unsigned 64-bit integer. -/
@[irreducible] def u64 (x : Int) : Nat := (x % 2 ^ 64).toNat

/-- The value of an expression stored in a signed 64-bit integer. -/
@[irreducible] def s64 (x : Int) : Int := (x + 2 ^ 63) % 2 ^ 64 - 2 ^ 63

theorem u32_lt (x : Int) : u32 x < 2 ^ 32 := by
  simp only [u32]
  omega

theorem u32_natCast (n : Nat) : u32 n = n % 2 ^ 32 := by
  simp only [u32]
  omega

theorem u32_of_range {x : Int} (n : Nat) (hx : x = n) (hn : n < 2 ^ 32) : u32 x = n := by
  simp only [u32]
  omega

theorem s32_of_range {x : Int} (hlo : -2 ^ 31 ≤ x := by omega) (hhi : x < 2 ^ 31 := by omega) :
    s32 x = x := by
  simp only [s32]
  omega

theorem s32_neg (x : Int) (hlo : 2 ^ 31 ≤ x) (hhi : x < 2 ^ 32) : s32 x < 0 := by
  simp only [s32]
  omega

/-- A function that fails when a call fails has returned 0. -/
theorem ret_eq_zero {α : Type} {ret e : Int} {a c : α} {b : Int × α}
    (h : (if ret ≠ 0 then (e, a) else b) = (0, c)) (he : ret ≠ 0 → e ≠ 0 := by simp) :
    ret = 0 ∧ b = (0, c) := by
  rcases ite_eq_iff.mp h with ⟨hret, h⟩ | ⟨hret, h⟩
  · exact absurd (congrArg Prod.fst h) (he hret)
  · exact ⟨not_not.mp hret, h⟩

end Brandy.Word
