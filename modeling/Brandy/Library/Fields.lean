import Brandy.Library.Memory

/-!
# Fields of a Memory

A packed C record is a range of a memory, and a member of it is a number stored in a few bytes of
that range, least byte first. Two ranges that do not meet do not disturb each other: every lemma
about a store and a range elsewhere takes the same side condition, that one of the two ends before
the other begins.

## Main definitions

* `le`, `setLe`: The number in a field, and an assignment to it.
* `Agree`: Two ranges with the same bytes.

## Theorems

* `read_store_apart`, `le_store_apart`: A store leaves the other ranges alone.
* `le_setLe`: Reading back an assigned field.
* `Agree.read`, `Agree.le`, `Agree.store`: What two ranges with the same bytes have in common.
-/

namespace Brandy.Memory

/-- The number in the `w` bytes at an address, least byte first. -/
def le (m : Mem) (a : Int) (w : Nat) : Nat := leValue (read m a w)

/-- The memory with a number assigned to the `w` bytes at an address. -/
def setLe (m : Mem) (a : Int) (w v : Nat) : Mem := store m a (leBytes w v)

/-- The memory seen from an origin. -/
def window (m : Mem) (origin : Int) : Mem := fun x => m (x + origin)

variable {bs : List UInt8}

theorem store_apart {m : Mem} {a x : Int} (h : x < a ∨ a + bs.length ≤ x) :
    store m a bs x = m x := by
  unfold store
  rw [if_neg (by omega)]

theorem store_inside {m : Mem} {a : Int} {i : Nat} (h : i < bs.length) :
    store m a bs (a + i) = bs.getD i 0 := by
  unfold store
  rw [if_pos ⟨by omega, by omega⟩, show (a + (i : Int) - a).toNat = i by omega]

section

variable (m : Mem)

/-- A range that a store does not meet is read as before. -/
theorem read_store_apart {a b : Int} {bs : List UInt8} {n : Nat}
    (h : b + n ≤ a ∨ a + bs.length ≤ b) : read (store m a bs) b n = read m b n := by
  refine read_congr _ fun x hlo hhi => store_apart ?_
  rcases h with h | h
  · exact .inl (by omega)
  · exact .inr (by omega)

variable (a : Int)

theorem read_store_inside (bs : List UInt8) (i n : Nat) (h : i + n ≤ bs.length) :
    read (store m a bs) (a + i) n = (bs.drop i).take n := by
  have hlen : ((bs.drop i).take n).length = n := by
    rw [List.length_take, List.length_drop]
    omega
  have hread := read_eq_of_getD (store m a bs) (a + i) ((bs.drop i).take n) fun j hj => ?_
  · rwa [hlen] at hread
  · rw [hlen] at hj
    rw [add_assoc, ← Nat.cast_add, store_inside (by omega)]
    simp only [List.getD_eq_getElem?_getD, List.getElem?_take, List.getElem?_drop, if_pos hj]

theorem store_read (n : Nat) : store m a (read m a n) = m := by
  funext x
  unfold store
  rw [length_read]
  split
  · next hx =>
      rw [getD_read m a n _ (by omega)]
      congr 1
      omega
  · rfl

theorem read_sub (len i n : Nat) (h : i + n ≤ len) :
    read m (a + i) n = ((read m a len).drop i).take n := by
  have hinside := read_store_inside m a (read m a len) i n (by rwa [length_read])
  rwa [store_read] at hinside

theorem store_store {bs cs : List UInt8} (h : bs.length = cs.length) :
    store (store m a bs) a cs = store m a cs := by
  funext x
  unfold store
  by_cases hx : a ≤ x ∧ x < a + cs.length
  · rw [if_pos hx, if_pos hx]
  · rw [if_neg hx, if_neg hx, if_neg (by rwa [h])]

theorem le_store_apart {a b : Int} {bs : List UInt8} {n : Nat} (h : b + n ≤ a ∨ a + bs.length ≤ b) :
    le (store m a bs) b n = le m b n := by
  unfold le
  rw [read_store_apart m h]

theorem read_setLe_apart {m : Mem} {a b : Int} {w v n : Nat} (h : b + n ≤ a ∨ a + w ≤ b) :
    read (setLe m a w v) b n = read m b n :=
  read_store_apart m (by rwa [length_leBytes])

theorem le_setLe_apart {m : Mem} {a b : Int} {w v n : Nat} (h : b + n ≤ a ∨ a + w ≤ b) :
    le (setLe m a w v) b n = le m b n :=
  le_store_apart m (by rwa [length_leBytes])

theorem read_setLe (w v : Nat) : read (setLe m a w v) a w = leBytes w v := by
  have hread := read_store m a (leBytes w v)
  rwa [length_leBytes] at hread

theorem le_setLe {m : Mem} {a : Int} {w v : Nat} (h : v < 256 ^ w) :
    le (setLe m a w v) a w = v := by
  unfold le
  rw [read_setLe, leValue_leBytes v h]

theorem setLe_setLe (w v v' : Nat) : setLe (setLe m a w v) a w v' = setLe m a w v' :=
  store_store m a (by rw [length_leBytes, length_leBytes])

end

theorem setLe_le (m : Mem) (a : Int) (w : Nat) : setLe m a w (le m a w) = m := by
  have hbytes := leBytes_leValue (read m a w)
  rw [length_read] at hbytes
  rw [setLe, le, hbytes, store_read]

theorem le_lt (m : Mem) {a : Int} (w : Nat) : le m a w < 256 ^ w := by
  have h := leValue_lt (read m a w)
  rwa [length_read] at h

theorem window_store (m : Mem) (origin a : Int) (bs : List UInt8) :
    window (store m (a + origin) bs) origin = store (window m origin) a bs := by
  funext x
  unfold window store
  by_cases hx : a ≤ x ∧ x < a + bs.length
  · rw [if_pos hx, if_pos (by omega)]
    congr 1
    omega
  · rw [if_neg hx, if_neg (by omega)]

/-- The `n` bytes at `a` in one memory are those at `a'` in another. -/
def Agree (m : Mem) (a : Int) (m' : Mem) (a' : Int) (n : Nat) : Prop :=
  ∀ i : Nat, i < n → m (a + i) = m' (a' + i)

section

variable {m m' : Mem} {a a' : Int} {n : Nat}

theorem agree_of_read (h : read m a n = read m' a' n) : Agree m a m' a' n := by
  intro i hi
  rw [← getD_read m a n i hi, h, getD_read m' a' n i hi]

section

variable (h : Agree m a m' a' n)
include h

variable (off : Nat)

theorem Agree.read {k : Nat} (hk : off + k ≤ n) :
    read m (a + off) k = read m' (a' + off) k := by
  have hread := read_eq_of_getD m (a + off) (Memory.read m' (a' + off) k) fun i hi => ?_
  · rwa [length_read] at hread
  · rw [length_read] at hi
    rw [getD_read _ _ _ _ hi, add_assoc, add_assoc, ← Nat.cast_add]
    exact h (off + i) (by omega)

theorem Agree.le {w : Nat} (hw : off + w ≤ n) :
    le m (a + off) w = le m' (a' + off) w := by
  unfold Memory.le
  rw [h.read off hw]

theorem Agree.mono {k : Nat} (hk : k ≤ n) : Agree m a m' a' k :=
  fun i hi => h i (hi.trans_le hk)

theorem Agree.symm : Agree m' a' m a n := fun i hi => (h i hi).symm

theorem Agree.trans {m'' : Mem} {a'' : Int} (h' : Agree m' a' m'' a'' n) :
    Agree m a m'' a'' n := fun i hi => (h i hi).trans (h' i hi)

theorem Agree.drop {k : Nat} (hk : off + k ≤ n) :
    Agree m (a + off) m' (a' + off) k := by
  intro i hi
  rw [add_assoc, add_assoc, ← Nat.cast_add]
  exact h (off + i) (by omega)

theorem Agree.store (bs : List UInt8) :
    Agree (store m (a + off) bs) a (store m' (a' + off) bs) a' n := by
  intro i hi
  unfold Memory.store
  by_cases hin : off ≤ i ∧ i < off + bs.length
  · rw [if_pos (by omega), if_pos (by omega)]
    congr 1
    omega
  · rw [if_neg (by omega), if_neg (by omega)]
    exact h i hi

theorem Agree.store_apart {c : Int} (hc : a + n ≤ c ∨ c + bs.length ≤ a) :
    Agree (Memory.store m c bs) a m' a' n := by
  intro i hi
  rw [Memory.store_apart (by omega)]
  exact h i hi

end

end

/-- A range that another one is stored over agrees with it. -/
theorem agree_store {m : Mem} {a : Int} {m' : Mem} {a' : Int} {n : Nat} :
    Agree (store m a (read m' a' n)) a m' a' n := by
  refine agree_of_read ?_
  have h := read_store m a (read m' a' n)
  rwa [length_read] at h

end Brandy.Memory
