import Mathlib.Tactic

/-!
# Buffers That Are Filled From the Front

A buffer is a function from offsets to bytes. A program that produces its output from the front
writes behind a frontier. What lies behind the frontier is not output yet: two runs that have
written the same bytes so far agree in front of the frontier and nowhere else.

## Main definitions

* `Buffer`, `memcpy`: Bytes by their offset, and a copy from one buffer into another.
* `Agree`: The bytes in front of an offset are the same.

## Theorems

* `memcpy_append`: A copy in two pieces.
* `memcpy_congr`: Copies of the same bytes.
* `memcpy_window`: Changing bytes of a window that is read and written back.
-/

namespace Brandy

open List

/-- Bytes by their offset. -/
abbrev Buffer := Nat → UInt8

namespace Buffer

/-- A copy of `n` bytes at `s` of the buffer `src` to the offset `d`. The bytes are read before they
    are written. -/
def memcpy (m : Buffer) (d : Nat) (src : Buffer) (s n : Nat) : Buffer :=
  fun x => if d ≤ x ∧ x < d + n then src (s + (x - d)) else m x

/-- The first bytes of a buffer. -/
def bytes (m : Buffer) (n : Nat) : List UInt8 := (List.range n).map m

/-- The bytes in front of an offset are the same. -/
def Agree (n : Nat) (m m' : Buffer) : Prop := ∀ i < n, m i = m' i

variable (m : Buffer)

@[simp] theorem length_bytes (n : Nat) : (m.bytes n).length = n := by
  rw [bytes, length_map, length_range]

theorem bytes_congr {m m' : Buffer} {n : Nat} (h : ∀ i < n, m i = m' i) : m.bytes n = m'.bytes n :=
  map_congr_left fun i hi => h i (mem_range.mp hi)

theorem bytes_getD (l : List UInt8) (b : UInt8) : bytes (fun i => l.getD i b) l.length = l := by
  unfold bytes
  refine ext_getElem (by rw [length_map, length_range]) fun i hi hi' => ?_
  rw [getElem_map, getElem_range, getD_eq_getElem?_getD,
    getElem?_eq_getElem hi', Option.getD_some]

theorem memcpy_of_lt {m src : Buffer} {d s n x : Nat} (h : x < d) : memcpy m d src s n x = m x :=
  if_neg (by omega)

theorem memcpy_of_mem {m src : Buffer} {d s n x : Nat} (hle : d ≤ x := by omega)
    (hlt : x < d + n := by omega) :
    memcpy m d src s n x = src (s + (x - d)) := if_pos ⟨hle, hlt⟩

theorem bytes_memcpy {src : Buffer} {s : Nat} (n : Nat) :
    (memcpy m 0 src s n).bytes n = bytes (fun i => src (s + i)) n := by
  refine bytes_congr fun i hi => ?_
  rw [memcpy_of_mem, Nat.sub_zero]

theorem memcpy_congr (d : Nat) {src src' : Buffer} {s s' n : Nat}
    (h : ∀ i < n, src (s + i) = src' (s' + i)) : memcpy m d src s n = memcpy m d src' s' n := by
  funext x
  unfold memcpy
  by_cases hx : d ≤ x ∧ x < d + n
  · rw [if_pos hx, if_pos hx, h _ (by omega)]
  · rw [if_neg hx, if_neg hx]

theorem memcpy_zero (d : Nat) (src : Buffer) (s : Nat) : memcpy m d src s 0 = m :=
  funext fun _ => if_neg (by omega)

theorem memcpy_append (d : Nat) (src : Buffer) (s a b : Nat) :
    memcpy (memcpy m d src s a) (d + a) src (s + a) b = memcpy m d src s (a + b) := by
  funext x
  unfold memcpy
  by_cases hsecond : d + a ≤ x ∧ x < d + a + b
  · rw [if_pos hsecond, if_pos (by omega), show s + a + (x - (d + a)) = s + (x - d) by omega]
  · rw [if_neg hsecond]
    by_cases hfirst : d ≤ x ∧ x < d + a
    · rw [if_pos hfirst, if_pos (by omega)]
    · rw [if_neg hfirst, if_neg (by omega)]

theorem memcpy_of_window (out : Buffer) (off : Nat) (z m : Buffer) {d size k n : Nat}
    (h : k + n ≤ size) : memcpy out off (memcpy z 0 m d size) k n = memcpy out off m (d + k) n := by
  funext x
  unfold memcpy
  by_cases hx : off ≤ x ∧ x < off + n
  · rw [if_pos hx, if_pos hx, if_pos (by omega),
      show d + (k + (x - off) - 0) = d + k + (x - off) by omega]
  · rw [if_neg hx, if_neg hx]

/-- A window is read, changed and written back: only the changed bytes differ. -/
theorem memcpy_window (z m src : Buffer) {d size k s n : Nat} (h : k + n ≤ size) :
    memcpy m d (memcpy (memcpy z 0 m d size) k src s n) 0 size = memcpy m (d + k) src s n := by
  funext x
  unfold memcpy
  by_cases hx : d ≤ x ∧ x < d + size
  · rw [if_pos hx]
    by_cases hin : d + k ≤ x ∧ x < d + k + n
    · rw [if_pos (by omega), if_pos hin, show 0 + (x - d) - k = x - (d + k) by omega]
    · rw [if_neg (by omega), if_neg hin, if_pos (by omega), show d + (0 + (x - d) - 0) = x by omega]
  · rw [if_neg hx, if_neg (by omega)]

end Buffer

end Brandy
