import Mathlib.Tactic

/-!
# Sector Devices

A device of 512-byte sectors with 32-bit sector numbers. A write that goes beyond the last number
goes on at sector 0, so a long write is always the same as its pieces one after the other.

## Main definitions

* `Disk`, `put`, `get`: The sectors, a write and a read.
* `distance`: The number of sectors between two numbers, modulo `2 ^ 32`.

## Theorems

* `put_append`, `get_add`: A write and a read in two pieces.
-/

namespace Brandy.Sectors

open List

/-- The content of every sector. -/
abbrev Disk := Nat → List UInt8

/-- The number of sectors from `start` to `s`, modulo `2 ^ 32`. Irreducible, so that unification
    never computes with the modulus. -/
@[irreducible] def distance (start s : Nat) : Nat := (s + (2 ^ 32 - start % 2 ^ 32)) % 2 ^ 32

/-- The disk with some bytes written from a sector on. -/
def put (disk : Disk) (start : Nat) (bytes : List UInt8) : Disk := fun s =>
  if s < 2 ^ 32 ∧ distance start s * 512 < bytes.length then
    (bytes.drop (distance start s * 512)).take 512
  else disk s

/-- The bytes of `n` sectors. -/
def get (disk : Disk) (start n : Nat) : List UInt8 :=
  (List.range n).flatMap fun i => disk ((start + i) % 2 ^ 32)

variable {bytes : List UInt8} {start s : Nat} {disk : Disk}

theorem put_of_lt (hs : s < 2 ^ 32)
    (h : distance start s * 512 < bytes.length) :
    put disk start bytes s = (bytes.drop (distance start s * 512)).take 512 :=
  if_pos ⟨hs, h⟩

theorem put_of_le (h : bytes.length ≤ distance start s * 512) :
    put disk start bytes s = disk s :=
  if_neg fun hcond => h.not_gt hcond.2

theorem put_of_ge (hs : ¬ s < 2 ^ 32) :
    put disk start bytes s = disk s :=
  if_neg fun hcond => hs hcond.1

variable (disk) (start)

theorem put_nil : put disk start [] = disk :=
  funext fun _ => put_of_le (Nat.zero_le _)

theorem distance_lt (start s : Nat) : distance start s < 2 ^ 32 := by
  unfold distance
  omega

theorem distance_add (start s : Nat) {k : Nat} (hk : k ≤ 2 ^ 32) :
    distance (start + k) s =
      if k ≤ distance start s then distance start s - k else distance start s + 2 ^ 32 - k := by
  unfold distance
  split <;> omega

/-- A write in two pieces, of which the first one is made of whole sectors. -/
theorem put_append {k : Nat} {a b : List UInt8}
    (ha : a.length = k * 512) (hlen : a.length + b.length ≤ 2 ^ 32 * 512) :
    put disk start (a ++ b) = put (put disk start a) (start + k) b := by
  funext s
  by_cases hs : s < 2 ^ 32
  · have hlt := distance_lt start s
    have hadd := distance_add start s (k := k) (by omega)
    have happend : (a ++ b).length = a.length + b.length := length_append
    by_cases hk : k ≤ distance start s
    · rw [if_pos hk] at hadd
      have hfirst : put disk start a s = disk s := put_of_le (by omega)
      obtain ⟨d, hd⟩ : ∃ d, distance start s = k + d := ⟨distance start s - k, by omega⟩
      rw [hd, Nat.add_sub_cancel_left] at hadd
      have hmul : distance start s * 512 = a.length + d * 512 := by rw [hd, add_mul, ha]
      by_cases hb : b.length ≤ d * 512
      · have hwhole : (a ++ b).length ≤ distance start s * 512 := by omega
        have hsecond : b.length ≤ distance (start + k) s * 512 := by rwa [hadd]
        rw [put_of_le hwhole, put_of_le hsecond, hfirst]
      have hwhole : distance start s * 512 < (a ++ b).length := by omega
      have hsecond : distance (start + k) s * 512 < b.length := by
        rw [hadd]
        exact Nat.lt_of_not_le hb
      rw [put_of_lt hs hwhole, put_of_lt hs hsecond, hadd, hmul, drop_append,
        drop_eq_nil_of_le (Nat.le_add_right _ _), nil_append, Nat.add_sub_cancel_left]
    · -- the sector is in the first piece
      rw [if_neg hk] at hadd
      have hwhole : distance start s * 512 < (a ++ b).length := by omega
      have hfirst : distance start s * 512 < a.length := by omega
      have hsecond : b.length ≤ distance (start + k) s * 512 := by omega
      have hrest : 512 - (a.drop (distance start s * 512)).length = 0 := by
        rw [length_drop]
        omega
      rw [put_of_le hsecond, put_of_lt hs hwhole, put_of_lt hs hfirst, drop_append,
        take_append, hrest, take_zero, append_nil]
  · rw [put_of_ge hs, put_of_ge hs, put_of_ge hs]

theorem put_mod :
    put disk (start % 2 ^ 32) bytes = put disk start bytes := by
  funext s
  have h : distance (start % 2 ^ 32) s = distance start s := by
    unfold distance
    rw [Nat.mod_mod]
  simp only [put, h]

theorem get_mod (start n : Nat) : get disk (start % 2 ^ 32) n = get disk start n := by
  simp only [get, Nat.mod_add_mod]

theorem get_add (start a b : Nat) :
    get disk start (a + b) = get disk start a ++ get disk (start + a) b := by
  rw [get, range_add, flatMap_append, flatMap_map]
  simp only [get, add_assoc]

end Brandy.Sectors
