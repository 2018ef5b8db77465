import Mathlib.Tactic

/-!
# Good Blocks of a Range

A flash chip has bad blocks, and code that stores something longer than a block uses the good ones
of a range in order and skips the others. Writers and readers that skip bad blocks walk parts of one
list.

## Main definitions

* `goods`: The good blocks of a range, in order.
* `firstGood`, `nthGood`: The first good block from a number on, and the ones behind it.

## Theorems

* `goods_append`: Splitting a range.
* `mem_goods`: The blocks of the list.
* `nthGood_eq_iff`: Counting good blocks, and counting blocks.
-/

namespace Brandy.Goods

open List

/-- The good blocks from `a` to before `b`, in order. -/
def goods (isBad : Nat → Bool) (a b : Nat) : List Nat :=
  (range' a (b - a)).filter (fun x => !isBad x)

section

variable {isBad : Nat → Bool} {a b c : Nat}

theorem goods_of_le (h : b ≤ a) : goods isBad a b = [] := by
  rw [goods, Nat.sub_eq_zero_of_le h]
  rfl

/-- The list has the good blocks of the range and no others. -/
theorem mem_goods {x : Nat} : x ∈ goods isBad a b ↔ a ≤ x ∧ x < b ∧ isBad x = false := by
  unfold goods
  rw [mem_filter, mem_range'_1]
  constructor
  · rintro ⟨⟨hlo, hhi⟩, hgood⟩
    exact ⟨hlo, by omega, by simpa using hgood⟩
  · rintro ⟨hlo, hhi, hgood⟩
    exact ⟨⟨hlo, by omega⟩, by simpa using hgood⟩

theorem goods_append (hab : a ≤ b) (hbc : b ≤ c) :
    goods isBad a c = goods isBad a b ++ goods isBad b c := by
  unfold goods
  rw [← filter_append, show c - a = b - a + (c - b) by omega, ← range'_append_1,
    show a + (b - a) = b by omega]

theorem goods_cons_bad (hab : a < b) (hbad : isBad a = true) :
    goods isBad a b = goods isBad (a + 1) b := by
  unfold goods
  rw [show b - a = b - (a + 1) + 1 by omega, range'_succ, filter_cons_of_neg]
  rw [hbad]
  decide

theorem goods_cons_good (hab : a < b) (hgood : isBad a = false) :
    goods isBad a b = a :: goods isBad (a + 1) b := by
  unfold goods
  rw [show b - a = b - (a + 1) + 1 by omega, range'_succ, filter_cons_of_pos]
  rw [hgood]
  rfl

theorem length_goods_le (isBad : Nat → Bool) (a b : Nat) :
    (goods isBad a b).length ≤ b - a := by
  unfold goods
  exact le_trans (length_filter_le _ _) (le_of_eq length_range')

theorem nodup_goods (isBad : Nat → Bool) (a b : Nat) : (goods isBad a b).Nodup := by
  unfold goods
  exact Nodup.filter _ nodup_range'

theorem goods_succ_bad (hab : a ≤ b) (hbad : isBad b = true) :
    goods isBad a (b + 1) = goods isBad a b := by
  rw [goods_append hab (Nat.le_succ b), goods_cons_bad (Nat.lt_succ_self b) hbad,
    goods_of_le le_rfl, append_nil]

theorem goods_succ_good (hab : a ≤ b) (hgood : isBad b = false) :
    goods isBad a (b + 1) = goods isBad a b ++ [b] := by
  rw [goods_append hab (Nat.le_succ b), goods_cons_good (Nat.lt_succ_self b) hgood,
    goods_of_le le_rfl]

theorem length_goods_mono (isBad : Nat → Bool) (a : Nat) (hbc : b ≤ c) :
    (goods isBad a b).length ≤ (goods isBad a c).length := by
  by_cases hab : a ≤ b
  · rw [goods_append hab hbc, length_append]
    omega
  · rw [goods_of_le (by omega)]
    exact Nat.zero_le _

theorem length_goods_eq (h : ∀ x, a ≤ x → x < b → isBad x = false) :
    (goods isBad a b).length = b - a := by
  have hall : goods isBad a b = range' a (b - a) := by
    refine filter_eq_self.mpr fun x hx => ?_
    rw [mem_range'_1] at hx
    rw [h x hx.1 (by omega)]
    rfl
  rw [hall, length_range']

theorem length_goods_add {n : Nat} (hab : a ≤ b) (h : ∀ x, b ≤ x → x < b + n → isBad x = false) :
    (goods isBad a (b + n)).length = (goods isBad a b).length + n := by
  rw [goods_append hab (Nat.le_add_right b n), length_append, length_goods_eq h]
  omega

theorem getD_goods (hab : a ≤ b) (hbc : b < c) (hgood : isBad b = false) :
    (goods isBad a c).getD (goods isBad a b).length 0 = b := by
  rw [goods_append hab (le_of_lt hbc), goods_cons_good hbc hgood, getD_eq_getElem?_getD,
    getElem?_append_right le_rfl, Nat.sub_self]
  rfl

/-- The good blocks behind a part of the range. -/
theorem drop_goods (hab : a ≤ b) (hbc : b ≤ c) :
    (goods isBad a c).drop (goods isBad a b).length = goods isBad b c := by
  rw [goods_append hab hbc, drop_left]

end

section

variable {α : Type} {l : List α}

theorem getElem_mem_window (hnodup : l.Nodup) {p q n : Nat} (hp : p < l.length) :
    l[p] ∈ (l.drop q).take n ↔ q ≤ p ∧ p < q + n := by
  rw [mem_take_iff_getElem]
  constructor
  · rintro ⟨i, hi, heq⟩
    rw [length_drop] at hi
    rw [getElem_drop] at heq
    have := (Nodup.getElem_inj_iff hnodup).mp heq
    omega
  · rintro ⟨hle, hlt⟩
    refine ⟨p - q, ?_, ?_⟩
    · rw [length_drop]
      omega
    · rw [getElem_drop]
      congr 1
      omega

theorem exists_of_mem_window {q n : Nat} {x : α} (h : x ∈ (l.drop q).take n) :
    ∃ p, ∃ hp : p < l.length, q ≤ p ∧ p < q + n ∧ l[p] = x := by
  rw [mem_take_iff_getElem] at h
  rcases h with ⟨i, hi, heq⟩
  rw [length_drop] at hi
  rw [getElem_drop] at heq
  exact ⟨q + i, by omega, by omega, by omega, heq⟩

end

section

variable {isBad : Nat → Bool}

/-- The first good block from `b` on. All blocks behind the given number of them are good. -/
def firstGood (isBad : Nat → Bool) : Nat → Nat → Nat
  | 0, b => b
  | fuel + 1, b => if isBad b then firstGood isBad fuel (b + 1) else b

/-- The first good block from `b` on is `g`. -/
structure IsFirst (isBad : Nat → Bool) (b g : Nat) : Prop where
  le : b ≤ g
  good : isBad g = false
  bad : ∀ x, b ≤ x → x < g → isBad x = true

/-- The search is right if all blocks behind its bound are good. -/
theorem firstGood_isFirst {fuel b : Nat} (hend : ∀ x, b + fuel ≤ x → isBad x = false) :
    IsFirst isBad b (firstGood isBad fuel b) := by
  induction fuel generalizing b with
  | zero => exact ⟨le_rfl, hend b (by omega), fun x hle hlt => absurd hle (Nat.not_le.mpr hlt)⟩
  | succ fuel ih =>
    rw [firstGood]
    cases hbad : isBad b with
    | false => exact ⟨le_rfl, hbad, fun x hle hlt => absurd hle (Nat.not_le.mpr hlt)⟩
    | true =>
      obtain ⟨hle, hgood, hbefore⟩ := ih (b := b + 1) fun x hx => hend x (by omega)
      refine ⟨by simp only [if_true]; omega, hgood, fun x hx hlt => ?_⟩
      rcases Nat.eq_or_lt_of_le hx with rfl | hless
      · exact hbad
      · exact hbefore x hless hlt

section

variable {b g : Nat} (h : IsFirst isBad b g)
include h

theorem IsFirst.le_of_good {x : Nat} (hle : b ≤ x) (hgood : isBad x = false) : g ≤ x := by
  by_contra hlt
  rw [h.bad x hle (by omega)] at hgood
  cases hgood

theorem IsFirst.unique {g' : Nat} (h' : IsFirst isBad b g') : g = g' :=
  le_antisymm (h.le_of_good h'.le h'.good) (h'.le_of_good h.le h.good)

theorem IsFirst.eq_self (hgood : isBad b = false) : g = b :=
  le_antisymm (h.le_of_good le_rfl hgood) h.le

theorem IsFirst.of_bad (hbad : isBad b = true) : IsFirst isBad (b + 1) g := by
  refine ⟨?_, h.good, fun x hle hlt => h.bad x (by omega) hlt⟩
  have hne : b ≠ g := by
    rintro rfl
    rw [h.good] at hbad
    cases hbad
  have := h.le
  omega

end

theorem exists_isFirst {a b c : Nat} (hab : a ≤ b)
    (hmore : (goods isBad a b).length < (goods isBad a c).length) : ∃ g, IsFirst isBad b g := by
  have hbc : b ≤ c := by
    by_contra hlt
    have := length_goods_mono isBad a (le_of_not_ge hlt)
    omega
  rw [goods_append hab hbc, length_append] at hmore
  have hex : ∃ x, b ≤ x ∧ isBad x = false := by
    rcases exists_mem_of_length_pos (show 0 < (goods isBad b c).length by omega) with ⟨x, hx⟩
    exact ⟨x, (mem_goods.mp hx).1, (mem_goods.mp hx).2.2⟩
  refine ⟨Nat.find hex, (Nat.find_spec hex).1, (Nat.find_spec hex).2, fun x hle hlt => ?_⟩
  by_contra hgood
  exact Nat.find_min hex hlt ⟨hle, by simpa using hgood⟩

variable {next : Nat → Nat}

/-- The first good block from `b` on, and the good ones behind it. -/
def nthGood (next : Nat → Nat) (b : Nat) : Nat → Nat
  | 0 => next b
  | q + 1 => next (nthGood next b q + 1)

/-- Counting good blocks goes at least as far as counting blocks, and no further if none is bad. -/
theorem nthGood_eq_iff (hnext : ∀ b, IsFirst isBad b (next b)) (b q : Nat) :
    next (b + q) ≤ nthGood next b q ∧
      (nthGood next b q = next (b + q) ↔ ∀ x, b ≤ x → x < b + q → isBad x = false) := by
  induction q with
  | zero => exact ⟨le_rfl, fun _ x hle hlt => absurd hle (Nat.not_le.mpr hlt), fun _ => rfl⟩
  | succ q ih =>
    obtain ⟨hle, hiff⟩ := ih
    have hstep : nthGood next b q + 1 ≤ nthGood next b (q + 1) := (hnext _).le
    -- it is enough to look at the last of the blocks
    have hsplit : (∀ x, b ≤ x → x < b + (q + 1) → isBad x = false) ↔
        nthGood next b q = next (b + q) ∧ isBad (b + q) = false := by
      rw [hiff]
      constructor
      · exact fun h => ⟨fun x hx hlt => h x hx (by omega), h _ (by omega) (by omega)⟩
      · rintro ⟨h, hlast⟩ x hx hlt
        rcases Nat.lt_or_ge x (b + q) with hless | hge
        · exact h x hx hless
        · rwa [show x = b + q by omega]
    rw [hsplit]
    by_cases hgood : nthGood next b q = next (b + q) ∧ isBad (b + q) = false
    · have heq : nthGood next b (q + 1) = next (b + (q + 1)) := by
        rw [nthGood, hgood.1, (hnext (b + q)).eq_self hgood.2]
        rfl
      exact ⟨heq ▸ le_rfl, fun _ => hgood, fun _ => heq⟩
    -- the block that was reached is already behind
    have hpassed : next (b + (q + 1)) ≤ nthGood next b q := by
      rcases Nat.eq_or_lt_of_le hle with heq | hlt
      · have hbad : isBad (b + q) = true := by
          by_contra h
          exact hgood ⟨heq.symm, by simpa using h⟩
        exact ((hnext _).unique ((hnext _).of_bad hbad)).le.trans hle
      · refine (hnext _).le_of_good ?_ ?_
        · have := (hnext (b + q)).le
          omega
        · cases q with
          | zero => exact (hnext _).good
          | succ q => exact (hnext _).good
    exact ⟨by omega, fun h => by omega, fun h => absurd h hgood⟩

end

end Brandy.Goods
