import Mathlib.Tactic

/-!
# Byte Memories

A byte-addressed memory and the three things a C program does to a range of it: read the range,
store a list of bytes over it, and copy it somewhere else. Addresses are integers, because code that
carries unfinished data *in front of* a buffer subtracts from a pointer.

`memcpy` copies forward one byte at a time. When the ranges overlap, it may read bytes it has
already overwritten.

## Main definitions

* `read`, `store`, `memcpy`: Reading a range, storing bytes over it, and a forward copy.
* `leValue`, `leBytes`: Numbers as bytes, least byte first.
* `wordSum`: The sum of the words of a list.

## Theorems

* `read_store`: Reading back what was stored.
* `memcpy_apply`: What a forward copy leaves at each address.
* `leValue_leBytes`: Decoding an encoded number.
-/

namespace Brandy.Memory

open List

/-- A byte-addressed memory. -/
abbrev Mem := Int → UInt8

/-- The `n` bytes starting at an address. -/
def read (m : Mem) (a : Int) : Nat → List UInt8
  | 0 => []
  | n + 1 => m a :: read m (a + 1) n

/-- The memory with a list of bytes written from an address on. -/
def store (m : Mem) (a : Int) (bs : List UInt8) : Mem :=
  fun x => if a ≤ x ∧ x < a + bs.length then bs.getD (x - a).toNat 0 else m x

/-- One byte replaced. -/
def set (m : Mem) (a : Int) (b : UInt8) : Mem :=
  fun x => if x = a then b else m x

/-- A forward copy of `n` bytes, one byte at a time. -/
def memcpy (m : Mem) (dst src : Int) : Nat → Mem
  | 0 => m
  | n + 1 => memcpy (set m dst (m src)) (dst + 1) (src + 1) n

/-- A memory with a range taken from another memory. -/
def overlay (m src : Mem) (a : Int) (n : Nat) : Mem :=
  fun x => if a ≤ x ∧ x < a + n then src x else m x

@[simp] theorem length_read {m : Mem} (a : Int) {n : Nat} : (read m a n).length = n := by
  induction n generalizing a with
  | zero => rfl
  | succ k ih => simp only [read, length_cons, ih]

/-- A range in two pieces. -/
theorem read_add (m : Mem) (a : Int) (i j : Nat) :
    read m a (i + j) = read m a i ++ read m (a + i) j := by
  induction i generalizing a with
  | zero => simp only [Nat.zero_add, read, nil_append, Nat.cast_zero, add_zero]
  | succ k ih =>
    rw [show k + 1 + j = k + j + 1 by omega]
    simp only [read, cons_append, ih]
    congr 3
    push_cast
    ring

theorem read_congr {m m' : Mem} (a : Int) {n : Nat}
    (h : ∀ x, a ≤ x → x < a + n → m x = m' x) : read m a n = read m' a n := by
  induction n generalizing a with
  | zero => rfl
  | succ k ih =>
    have hhead : m a = m' a := h a le_rfl (by push_cast; omega)
    have htail : read m (a + 1) k = read m' (a + 1) k :=
      ih (a + 1) (fun x hlo hhi => h x (by omega) (by push_cast; omega))
    simp only [read, hhead, htail]

section

variable (m : Mem)

theorem read_shift (a b : Int) (n : Nat) : read m (a + b) n = read (fun x => m (x + b)) a n := by
  induction n generalizing a with
  | zero => rfl
  | succ k ih =>
    rw [read, read, ← ih (a + 1), add_right_comm]

theorem getD_read (a : Int) (n i : Nat) (hi : i < n) : (read m a n).getD i 0 = m (a + i) := by
  induction n generalizing a i with
  | zero => omega
  | succ k ih =>
    cases i with
    | zero => simp only [read, getD_cons_zero, Nat.cast_zero, add_zero]
    | succ j =>
      simp only [read, getD_cons_succ]
      rw [ih (a + 1) j (by omega)]
      congr 1
      push_cast
      ring

theorem read_eq_of_getD (a : Int) (bs : List UInt8)
    (h : ∀ i, i < bs.length → m (a + i) = bs.getD i 0) : read m a bs.length = bs := by
  induction bs generalizing a with
  | nil => rfl
  | cons b bs ih =>
    have hhead : m a = b := by
      have h0 := h 0 (by simp only [length_cons]; omega)
      simpa only [Nat.cast_zero, add_zero, getD_cons_zero] using h0
    have htail : read m (a + 1) bs.length = bs := by
      refine ih (a + 1) (fun i hi => ?_)
      have hs := h (i + 1) (by simp only [length_cons]; omega)
      rw [getD_cons_succ] at hs
      rw [← hs]
      congr 1
      push_cast
      ring
    simp only [length_cons, read, hhead, htail]

theorem read_prefix {a : Int} {n : Nat} {xs ys future : List UInt8}
    (h : read m a n ++ future = xs ++ ys) (hle : xs.length ≤ n) :
    read m a xs.length = xs ∧
      read m (a + xs.length) (n - xs.length) ++ future = ys := by
  rw [show n = xs.length + (n - xs.length) by omega, read_add, append_assoc] at h
  rcases append_inj h (length_read a) with ⟨hxs, hys⟩
  exact ⟨hxs, hys⟩

theorem read_store (a : Int) (bs : List UInt8) : read (store m a bs) a bs.length = bs := by
  refine read_eq_of_getD _ _ _ (fun i hi => ?_)
  simp only [store]
  rw [if_pos ⟨by omega, by omega⟩, show (a + (i : Int) - a).toNat = i by omega]

theorem read_store_below (a b : Int) (bs : List UInt8) (n : Nat) (h : b + n ≤ a) :
    read (store m a bs) b n = read m b n := by
  refine read_congr _ (fun x hlo hhi => ?_)
  simp only [store]
  rw [if_neg (by omega)]

/-- A forward copy to a lower address moves the range. -/
theorem memcpy_apply (dst src : Int) (n : Nat) (h : dst ≤ src) (x : Int) :
    memcpy m dst src n x = if dst ≤ x ∧ x < dst + n then m (src + (x - dst)) else m x := by
  induction n generalizing m dst src with
  | zero =>
    rw [if_neg (by push_cast; omega)]
    rfl
  | succ k ih =>
    rw [memcpy, ih _ _ _ (by omega)]
    by_cases hx : x = dst
    · rw [if_neg (by omega), if_pos (by push_cast; omega)]
      simp only [set, if_pos hx]
      congr 1
      omega
    by_cases hin : dst + 1 ≤ x ∧ x < dst + 1 + k
    · -- The byte read lies above the one just written.
      rw [if_pos hin, if_pos (by push_cast; omega)]
      simp only [set]
      rw [if_neg (by omega)]
      congr 1
      omega
    · rw [if_neg hin, if_neg (by push_cast; omega)]
      simp only [set, if_neg hx]

theorem read_memcpy (dst src : Int) (n : Nat) (h : dst ≤ src) :
    read (memcpy m dst src n) dst n = read m src n := by
  have hlen : (read m src n).length = n := length_read src
  have hkey := read_eq_of_getD (memcpy m dst src n) dst (read m src n) (fun i hi => ?_)
  · rw [hlen] at hkey
    exact hkey
  · rw [hlen] at hi
    rw [memcpy_apply m dst src n h, if_pos ⟨by omega, by omega⟩, getD_read m src n i hi]
    congr 1
    omega

end

theorem overlay_of_mem {m src : Mem} {a x : Int} {n : Nat} (h : x ∈ Set.Ico a (a + n)) :
    overlay m src a n x = src x := if_pos h

theorem overlay_of_notMem {m src : Mem} {a x : Int} {n : Nat} (h : x ∉ Set.Ico a (a + n)) :
    overlay m src a n x = m x := if_neg h

variable {bs : List UInt8}

theorem store_eqOn {m m' : Mem} {s : Set Int} (h : Set.EqOn m m' s) {a : Int} :
    Set.EqOn (store m a bs) (store m' a bs) s := by
  intro x hx
  unfold store
  by_cases hin : a ≤ x ∧ x < a + bs.length
  · rw [if_pos hin, if_pos hin]
  · rw [if_neg hin, if_neg hin, h hx]

/-- The number a list of bytes denotes, least byte first. -/
def leValue : List UInt8 → Nat
  | [] => 0
  | b :: bs => b.toNat + 256 * leValue bs

/-- The number a list of bytes denotes, greatest byte first. -/
def beValue (bs : List UInt8) : Nat := leValue bs.reverse

/-- The `w` bytes denoting a number, least byte first. -/
def leBytes : Nat → Nat → List UInt8
  | 0, _ => []
  | w + 1, n => UInt8.ofNat (n % 256) :: leBytes w (n / 256)

/-- The sum of the first `n` words of 32 bits of a list, least byte first. -/
def wordSum : Nat → List UInt8 → Nat
  | 0, _ => 0
  | n + 1, bs => leValue (bs.take 4) + wordSum n (bs.drop 4)

@[simp] theorem length_leBytes {w : Nat} (n : Nat) : (leBytes w n).length = w := by
  induction w generalizing n with
  | zero => rfl
  | succ k ih => simp only [leBytes, length_cons, ih]

theorem leValue_lt (bs : List UInt8) : leValue bs < 256 ^ bs.length := by
  induction bs with
  | nil => exact Nat.one_pos
  | cons b bs ih =>
    have hb := b.toNat_lt
    simp only [leValue, length_cons, pow_succ]
    omega

theorem leValue_leBytes {w : Nat} (n : Nat) (h : n < 256 ^ w) : leValue (leBytes w n) = n := by
  induction w generalizing n with
  | zero =>
    have hn : n = 0 := by simpa only [pow_zero, Nat.lt_one_iff] using h
    rw [hn]
    rfl
  | succ k ih =>
    have hdiv : n / 256 < 256 ^ k := by
      rw [Nat.div_lt_iff_lt_mul (by norm_num), ← pow_succ]
      exact h
    simp only [leBytes, leValue, ih _ hdiv]
    have hb : (UInt8.ofNat (n % 256)).toNat = n % 256 := by
      rw [UInt8.toNat_ofNat']
      exact Nat.mod_eq_of_lt (Nat.mod_lt _ (by norm_num))
    rw [hb]
    exact Nat.mod_add_div n 256

theorem leBytes_leValue (bs : List UInt8) : leBytes bs.length (leValue bs) = bs := by
  induction bs with
  | nil => rfl
  | cons b bs ih =>
    have hb := b.toNat_lt
    rw [length_cons, leValue, leBytes, show (b.toNat + 256 * leValue bs) % 256 = b.toNat by omega,
      show (b.toNat + 256 * leValue bs) / 256 = leValue bs by omega, ih, UInt8.ofNat_toNat]

theorem wordSum_replicate (n m : Nat) : wordSum n (replicate m 0) = 0 := by
  have hzero : ∀ m, leValue (replicate m 0) = 0 := by
    intro m
    induction m with
    | zero => rfl
    | succ m ih =>
      rw [replicate_succ, leValue, ih]
      rfl
  induction n generalizing m with
  | zero => rfl
  | succ n ih => rw [wordSum, take_replicate, drop_replicate, hzero, ih]

/-- The sum of two lists, the first of which is made of whole words. -/
theorem wordSum_append {k : Nat} (n : Nat) (bs' : List UInt8)
    (hlen : bs.length = 4 * k) : wordSum (k + n) (bs ++ bs') = wordSum k bs + wordSum n bs' := by
  induction k generalizing bs with
  | zero => rw [length_eq_zero_iff.mp hlen, wordSum, zero_add, zero_add, nil_append]
  | succ k ih =>
    rw [Nat.add_right_comm, wordSum, wordSum, take_append_of_le_length (by omega),
      drop_append_of_le_length (by omega), ih (by rw [length_drop]; omega), add_assoc]

theorem wordSum_append_replicate {k n : Nat} (m : Nat) (hlen : bs.length = 4 * k)
    (hk : k ≤ n) : wordSum n (bs ++ replicate m 0) = wordSum k bs := by
  obtain ⟨j, rfl⟩ := Nat.exists_eq_add_of_le hk
  rw [wordSum_append j _ hlen, wordSum_replicate, add_zero]

end Brandy.Memory
