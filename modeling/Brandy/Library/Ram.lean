import Mathlib.Data.BitVec
import Mathlib.Data.List.GetD
import Mathlib.Tactic

/-!
# Address Spaces of a Fixed Width

The memory of a machine whose pointers have `w` bits. Pointer arithmetic wraps, and so does a range
that runs over the last address.

A program that adds numbers it has read to a pointer, without a bound on them, has to be modelled
over such a memory: the sum may come round to a place in front of the pointer, or inside the data it
was to lie behind.

## Main definitions

* `Ram`, `read`, `write`: A memory, a range of it and a store into it.
* `memcpy`, `Apart`: A forward copy, and the ranges for which it works.

## Theorems

* `read_write`: Reading back what was written.
* `write_read_around`: Putting back what was there.
* `memcpy_copies_iff`: When a forward copy copies every content.
-/

namespace Brandy

open List

/-- A memory with addresses of `w` bits. -/
abbrev Ram (w : Nat) := BitVec w → UInt8

namespace Ram

variable {w : Nat}

/-- The `n` bytes starting at an address. -/
def read (m : Ram w) (a : BitVec w) : Nat → List UInt8
  | 0 => []
  | n + 1 => m a :: read m (a + 1) n

/-- The memory with a list of bytes written from an address on. -/
def write (m : Ram w) (a : BitVec w) (bs : List UInt8) : Ram w :=
  fun x => if (x - a).toNat < bs.length then bs.getD (x - a).toNat 0 else m x

/-- A forward copy of `n` bytes, one byte at a time. -/
def memcpy (m : Ram w) (dst src : BitVec w) : Nat → Ram w
  | 0 => m
  | n + 1 => memcpy (write m dst [m src]) (dst + 1) (src + 1) n

@[simp] theorem length_read (m : Ram w) (a : BitVec w) (n : Nat) : (read m a n).length = n := by
  induction n generalizing a with
  | zero => rfl
  | succ n ih => simp only [read, length_cons, ih]

theorem add_ofNat_add (a : BitVec w) (i j : Nat) :
    a + BitVec.ofNat w i + BitVec.ofNat w j = a + BitVec.ofNat w (i + j) := by
  rw [BitVec.add_assoc, ← BitVec.ofNat_add]

theorem add_one_add (a : BitVec w) (i : Nat) :
    a + 1 + BitVec.ofNat w i = a + BitVec.ofNat w (i + 1) := by
  rw [BitVec.ofNat_add, BitVec.add_assoc, BitVec.add_comm 1]
  rfl

variable {n : Nat} {i : Nat}

theorem getD_read (m : Ram w) (a : BitVec w) (hi : i < n) :
    (read m a n).getD i 0 = m (a + BitVec.ofNat w i) := by
  induction n generalizing a i with
  | zero => omega
  | succ n ih =>
    cases i with
    | zero => simp [read]
    | succ i => rw [read, getD_cons_succ, ih (a + 1) (by omega), add_one_add]

theorem ext_getD {xs ys : List UInt8} (hlen : xs.length = ys.length)
    (h : ∀ i < xs.length, xs.getD i 0 = ys.getD i 0) : xs = ys := by
  refine ext_getElem hlen fun i hx hy => ?_
  have hbyte := h i hx
  rwa [getD_eq_getElem _ _ hx, getD_eq_getElem _ _ hy] at hbyte

variable {m : Ram w} {a : BitVec w}

theorem read_congr {m' : Ram w} (h : ∀ i < n, m (a + BitVec.ofNat w i) = m' (a + BitVec.ofNat w i))
    : read m a n = read m' a n := by
  refine ext_getD (by simp) fun i hi => ?_
  rw [length_read] at hi
  rw [getD_read m a hi, getD_read m' a hi, h i hi]

theorem eq_of_read {m' : Ram w} {a' : BitVec w} (h : read m a n = read m' a' n)
    (hi : i < n) : m (a + BitVec.ofNat w i) = m' (a' + BitVec.ofNat w i) := by
  rw [← getD_read m a hi, ← getD_read m' a' hi, h]

theorem eq_of_read_of_lt {m' : Ram w} {x : BitVec w} (h : read m a n = read m' a n)
    (hx : (x - a).toNat < n) : m x = m' x := by
  have hbyte := eq_of_read h hx
  rwa [BitVec.ofNat_toNat, BitVec.setWidth_eq, add_sub_cancel] at hbyte

/-- A range in two pieces. -/
theorem read_add (m : Ram w) (a : BitVec w) (i j : Nat) :
    read m a (i + j) = read m a i ++ read m (a + BitVec.ofNat w i) j := by
  induction i generalizing a with
  | zero => simp [read]
  | succ i ih =>
    rw [show i + 1 + j = i + j + 1 by omega, read, read, ih (a + 1), add_one_add, cons_append]

theorem read_mul {size : Nat} {piece : Nat → List UInt8} (cnt : Nat)
    (h : ∀ k < cnt, read m (a + BitVec.ofNat w (k * size)) size = piece k) :
    read m a (cnt * size) = (List.range cnt).flatMap piece := by
  induction cnt with
  | zero => simp [read]
  | succ cnt ih =>
    rw [Nat.succ_mul, read_add, ih fun k hk => h k (by omega), h cnt (by omega), range_succ,
      flatMap_append, flatMap_singleton]

/-- The distance of an address from the start of the range it is counted from. -/
theorem toNat_add_sub (hi : i < 2 ^ w) : (a + BitVec.ofNat w i - a).toNat = i := by
  rw [BitVec.add_comm, BitVec.add_sub_cancel, BitVec.toNat_ofNat, Nat.mod_eq_of_lt hi]

theorem toNat_add_sub_add (a : BitVec w) {d e : Nat} (hd : d < 2 ^ w) (he : e < 2 ^ w) :
    (a + BitVec.ofNat w d - (a + BitVec.ofNat w e)).toNat = (2 ^ w - e + d) % 2 ^ w := by
  rw [add_sub_add_left_eq_sub, BitVec.toNat_sub, BitVec.toNat_ofNat, BitVec.toNat_ofNat,
    Nat.mod_eq_of_lt hd, Nat.mod_eq_of_lt he]

/-- Every address has a distance from a given one. -/
theorem exists_eq_add (a x : BitVec w) : ∃ d < 2 ^ w, x = a + BitVec.ofNat w d :=
  ⟨(x - a).toNat, (x - a).isLt, by rw [BitVec.ofNat_toNat, BitVec.setWidth_eq, add_sub_cancel]⟩

variable {bs : List UInt8}

theorem write_of_ge {x : BitVec w} (h : bs.length ≤ (x - a).toNat) :
    write m a bs x = m x := if_neg (Nat.not_lt.mpr h)

theorem write_of_lt (hi : i < bs.length) (hw : bs.length ≤ 2 ^ w) :
    write m a bs (a + BitVec.ofNat w i) = bs.getD i 0 := by
  unfold write
  rw [toNat_add_sub (by omega), if_pos hi]

theorem write_eq_or_mem {m : Ram w} (a x : BitVec w) {bs : List UInt8} :
    write m a bs x = m x ∨ write m a bs x ∈ bs := by
  unfold write
  split
  case isTrue hlt =>
    rw [getD_eq_getElem _ _ hlt]
    exact .inr (getElem_mem hlt)
  · exact .inl rfl

/-- Bytes that do not run into their own beginning are read back. -/
theorem read_write (hw : bs.length ≤ 2 ^ w) : read (write m a bs) a bs.length = bs := by
  refine ext_getD (by simp) fun i hi => ?_
  rw [length_read] at hi
  rw [getD_read _ _ hi, write_of_lt hi hw]

theorem read_write_take (hn : n ≤ bs.length) (hw : bs.length ≤ 2 ^ w) :
    read (write m a bs) a n = bs.take n := by
  have hwhole := read_add (write m a bs) a n (bs.length - n)
  rw [Nat.add_sub_cancel' hn, read_write hw] at hwhole
  exact ((congrArg (take n) hwhole).trans (take_left' (length_read _ _ _))).symm

theorem read_write_of_ge {b : BitVec w} (h : ∀ i < n, bs.length ≤ (b + BitVec.ofNat w i - a).toNat)
    : read (write m a bs) b n = read m b n :=
  read_congr fun i hi => write_of_ge (h i hi)

theorem write_nil (m : Ram w) (a : BitVec w) : write m a [] = m :=
  funext fun _ => write_of_ge (Nat.zero_le _)

/-- A write in two pieces. -/
theorem write_append (m : Ram w) (a : BitVec w) (xs ys : List UInt8)
    (hw : xs.length + ys.length ≤ 2 ^ w) :
    write (write m a xs) (a + BitVec.ofNat w xs.length) ys = write m a (xs ++ ys) := by
  rcases Nat.eq_zero_or_pos ys.length with hzero | hpos
  · rw [length_eq_zero_iff.mp hzero, write_nil, append_nil]
  funext x
  rcases exists_eq_add a x with ⟨d, hd, rfl⟩
  have hdist := toNat_add_sub_add a hd (e := xs.length) (by omega)
  by_cases hlt : d < xs.length
  · rw [Nat.mod_eq_of_lt (by omega)] at hdist
    rw [write_of_ge (by omega), write_of_lt hlt (by omega),
      write_of_lt (by rw [length_append]; omega) (by rw [length_append]; omega),
      getD_append _ _ _ _ hlt]
  obtain ⟨e, rfl⟩ : ∃ e, d = xs.length + e := ⟨d - xs.length, by omega⟩
  rw [show 2 ^ w - xs.length + (xs.length + e) = e + 2 ^ w by omega, Nat.add_mod_right,
    Nat.mod_eq_of_lt (by omega)] at hdist
  unfold write
  rw [hdist, toNat_add_sub hd, length_append, getD_append_right _ _ _ _ (by omega),
    Nat.add_sub_cancel_left]
  by_cases he : e < ys.length
  · rw [if_pos he, if_pos (by omega)]
  · rw [if_neg he, if_neg (by omega), if_neg (by omega)]

theorem write_write (m : Ram w) (a : BitVec w) {xs ys : List UInt8} (h : ys.length ≤ xs.length) :
    write (write m a xs) a ys = write m a (ys ++ xs.drop ys.length) := by
  funext x
  unfold write
  rw [length_append, length_drop, Nat.add_sub_cancel' h]
  by_cases hlt : (x - a).toNat < ys.length
  · rw [if_pos hlt, if_pos (hlt.trans_le h), getD_append _ _ _ _ hlt]
  · rw [if_neg hlt, getD_append_right _ _ _ _ (by omega)]
    simp only [getD_eq_getElem?_getD, getElem?_drop, Nat.add_sub_cancel' (Nat.not_lt.mp hlt)]

theorem write_read_around (m : Ram w) (a : BitVec w) {k : Nat} (hn : k + bs.length ≤ n)
    (hw : n ≤ 2 ^ w) : write (write m (a + BitVec.ofNat w k) bs) a (read m a n) = m := by
  funext x
  rcases exists_eq_add a x with ⟨d, hd, rfl⟩
  by_cases hlt : d < n
  · rw [write_of_lt (by rwa [length_read]) (by rwa [length_read]), getD_read m a hlt]
  have hpos : 0 < bs.length → (2 ^ w - k + d) % 2 ^ w = d - k := by
    intro hpos
    rw [show 2 ^ w - k + d = d - k + 2 ^ w by omega, Nat.add_mod_right, Nat.mod_eq_of_lt (by omega)]
  rw [write_of_ge (by rw [length_read, toNat_add_sub hd]; omega)]
  rcases Nat.eq_zero_or_pos bs.length with hzero | hbs
  · exact write_of_ge (by omega)
  · refine write_of_ge ?_
    rw [toNat_add_sub_add a hd (by omega), hpos hbs]
    omega

theorem memcpy_of_ge {dst src x : BitVec w} (h : n ≤ (x - dst).toNat) :
    memcpy m dst src n x = m x := by
  rcases exists_eq_add dst x with ⟨d, hd, rfl⟩
  rw [toNat_add_sub hd] at h
  induction n generalizing m dst src d with
  | zero => rfl
  | succ n ih =>
    obtain ⟨d, rfl⟩ : ∃ e, d = e + 1 := ⟨d - 1, by omega⟩
    -- one byte of the target is behind us, and the address is not that byte
    have hbyte : [m src].length ≤ (dst + BitVec.ofNat w (d + 1) - dst).toNat := by
      rw [toNat_add_sub hd, length_singleton]
      omega
    rw [memcpy, ← add_one_add, ih d (by omega) (by omega), add_one_add, write_of_ge hbyte]

theorem memcpy_add (m : Ram w) (dst src : BitVec w) (i j : Nat) :
    memcpy m dst src (i + j) =
      memcpy (memcpy m dst src i) (dst + BitVec.ofNat w i) (src + BitVec.ofNat w i) j := by
  induction i generalizing m dst src with
  | zero => simp [memcpy]
  | succ i ih => rw [Nat.succ_add, memcpy, memcpy, ih, add_one_add, add_one_add]

/-- No byte of the source is overwritten before it is read. -/
def Apart (dst src : BitVec w) (n : Nat) : Prop := dst = src ∨ n ≤ (dst - src).toNat

variable {dst src : BitVec w}

/-- A forward copy of ranges that are apart is a write of what was there. -/
theorem memcpy_eq_write (hn : n ≤ 2 ^ w) (h : Apart dst src n) :
    memcpy m dst src n = write m dst (read m src n) := by
  induction n generalizing m dst src with
  | zero => exact (write_nil m dst).symm
  | succ n ih =>
    have hkept : read (write m dst [m src]) (src + 1) n = read m (src + 1) n := by
      refine read_write_of_ge fun i hi => ?_
      rw [add_one_add, length_singleton, Nat.one_le_iff_ne_zero]
      intro hzero
      have hdst : src + BitVec.ofNat w (i + 1) = dst :=
        sub_eq_zero.mp (BitVec.eq_of_toNat_eq hzero)
      have hdist := toNat_add_sub (a := src) (show i + 1 < 2 ^ w by omega)
      rw [hdst] at hdist
      rcases h with rfl | h
      · rw [sub_self] at hdist
        cases hdist
      · omega
    have hnext : Apart (dst + 1) (src + 1) n := by
      rw [Apart, add_left_inj, add_sub_add_right_eq_sub]
      exact h.imp_right Nat.le_of_succ_le
    have happend := write_append m dst [m src] (read m (src + 1) n) (by simp; omega)
    rw [memcpy, ih (by omega) hnext, hkept]
    exact happend

theorem write_zero (a : BitVec w) : write (fun _ => 0) a [0] = fun _ => 0 :=
  funext fun x => (write_eq_or_mem a x).elim id mem_singleton.mp

theorem memcpy_zero (dst src : BitVec w) (n : Nat) :
    memcpy (fun _ => 0) dst src n = fun _ => 0 := by
  induction n generalizing dst src with
  | zero => rfl
  | succ n ih => rw [memcpy, write_zero, ih]

/-- A forward copy copies every content exactly if the ranges are apart. -/
theorem memcpy_copies_iff (hpos : 0 < n) (hn : n ≤ 2 ^ w) :
    (∀ m, read (memcpy m dst src n) dst n = read m src n) ↔ Apart dst src n := by
  constructor
  · intro h
    by_contra hnot
    rw [Apart, not_or, not_le] at hnot
    obtain ⟨k, rfl⟩ : ∃ k, n = k + 1 := ⟨n - 1, by omega⟩
    -- the only byte that is not 0 is the first one that is overwritten
    have hbyte := eq_of_read (h (write (fun _ => 0) dst [1])) hnot.2
    have hsrc : write (fun _ => 0) dst [1] src = 0 := by
      refine write_of_ge (Nat.one_le_iff_ne_zero.mpr fun hzero => hnot.1 ?_)
      exact (sub_eq_zero.mp (BitVec.eq_of_toNat_eq hzero)).symm
    have hclear : write (write (fun _ => 0) dst [1]) dst [0] = fun _ => 0 :=
      (write_write _ _ (by simp)).trans (write_zero dst)
    rw [memcpy, hsrc, hclear, memcpy_zero, BitVec.ofNat_toNat, BitVec.setWidth_eq, add_sub_cancel,
      write, sub_self] at hbyte
    cases hbyte
  · intro h m
    rw [memcpy_eq_write hn h, read_write_take (length_read m src n).ge (by rwa [length_read]),
      take_of_length_le (length_read m src n).le]

end Ram

end Brandy
