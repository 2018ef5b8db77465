import Brandy.Theory.SpinandSec.Blocks

/-!
# Items on Two Blocks

A read takes each page of the item from the first block where it passes its check, and from the
second one otherwise.

## Main definitions

* `fetch`, `readItem`: A page, and an item, as a function of the two blocks.
* `Whole`: A block between two writes.

## Theorems

* `readItem_congr`, `readItem_none`, `readItem_new`: What a read delivers.
* `composed_eq`: The block that a write composes from a whole one.
-/

namespace Brandy.SpinandSec

open Word Crash List

/-- The item a page belongs to. -/
def Info.itemOf (info : Info) (p : Nat) : Nat := p / info.pagesCntPerItem 4096

/-- All pages of the item are in the block. -/
def Info.Fits (info : Info) (item : Nat) : Prop :=
  item * info.pagesCntPerItem 4096 + info.pagesCntPerItem 4096 ≤ info.pageCnt

/-- The data a read gets at a page. -/
def fetch (a b : Nat → Page) (p : Nat) : Option (List UInt8) :=
  if pageCheck (a p) = 0 then some (a p).data
  else if pageCheck (b p) = 0 then some (b p).data
  else none

/-- A read of 4096 bytes, as a function of the two blocks. -/
def readItem (info : Info) (a b : Nat → Page) (item : Nat) : Except Int (List UInt8) :=
  readLoop info a b (item * info.pagesCntPerItem 4096) (info.pagesCntPerItem 4096) 0 4096

/-- A block with an item replaced. -/
def updated (info : Info) (w : Nat → Page) (item : Nat) (buf : List UInt8) (p : Nat) : Page :=
  if info.itemOf p = item then itemPage info buf 4096 p else w p

/-- A block between two writes: a page is erased or passes its check, and an item is written as a
    whole or not at all. -/
structure Whole (info : Info) (w : Nat → Page) : Prop where
  page : ∀ p, w p = info.erased ∨ (pageCheck (w p) = 0 ∧ (w p).magic = secStoMagic)
  uniform : ∀ p q, info.itemOf p = info.itemOf q → pageCheck (w p) = 0 → pageCheck (w q) = 0
  fits : ∀ p, pageCheck (w p) = 0 → info.Fits (info.itemOf p)

section

variable {info : Info} {a b a' b' w : Nat → Page} {buf : List UInt8} {item m p : Nat}

theorem itemOf_add {i : Nat} (h : i < info.pagesCntPerItem 4096) {item : Nat} :
    info.itemOf (item * info.pagesCntPerItem 4096 + i) = item := by
  unfold Info.itemOf
  rw [mul_comm, Nat.mul_add_div (pagesCntPerItem_pos info), Nat.div_eq_of_lt h, add_zero]

theorem itemOf_first {info : Info} (item : Nat) :
    info.itemOf (item * info.pagesCntPerItem 4096) = item :=
  itemOf_add (pagesCntPerItem_pos info)

theorem lt_pageCnt_of_fits (h : info.Fits (info.itemOf p)) : p < info.pageCnt := by
  have hmod := Nat.mod_lt p (pagesCntPerItem_pos info)
  have hdiv := Nat.div_add_mod' p (info.pagesCntPerItem 4096)
  unfold Info.Fits Info.itemOf at h
  omega

theorem first_le (p : Nat) : info.itemOf p * info.pagesCntPerItem 4096 ≤ p :=
  Nat.div_mul_le_self p _

theorem exists_third (info : Info) {j : Nat} (i : Nat) : ∃ t, info.Fits t ∧ t ≠ i ∧ t ≠ j := by
  have hthree := three_items_le info
  have hfits : ∀ t, t < 3 → info.Fits t := by
    intro t ht
    unfold Info.Fits
    interval_cases t <;> omega
  by_cases h0 : i = 0 ∨ j = 0
  · by_cases h1 : i = 1 ∨ j = 1
    · exact ⟨2, hfits 2 (by omega), by omega, by omega⟩
    · exact ⟨1, hfits 1 (by omega), by omega, by omega⟩
  · exact ⟨0, hfits 0 (by omega), by omega, by omega⟩

theorem not_good_erased {info : Info} : ¬ pageCheck info.erased = 0 := by
  rw [pageCheck_erased]
  decide

theorem fetch_left (h : pageCheck (a p) = 0) (b : Nat → Page) :
    fetch a b p = some (a p).data := if_pos h

theorem fetch_right (h : a p = info.erased) (b : Nat → Page) : fetch a b p = fetch b b p := by
  unfold fetch
  rw [h, if_neg not_good_erased]
  by_cases hb : pageCheck (b p) = 0
  · rw [if_pos hb, if_pos hb]
  · rw [if_neg hb, if_neg hb]

theorem fetch_erased (ha : a p = info.erased) (hb : b p = info.erased) : fetch a b p = none := by
  unfold fetch
  rw [ha, hb, if_neg not_good_erased, if_neg not_good_erased]

theorem fetch_item (h : a p = itemPage info buf 4096 p) (b : Nat → Page) :
    fetch a b p = some (itemPage info buf 4096 p).data := by
  rw [fetch, h, if_pos pageCheck_itemPage]

theorem fetch_self_congr (h : a p = b p) : fetch a a p = fetch b b p := by
  unfold fetch
  rw [h]

theorem readLoop_succ (a b : Nat → Page) (first n i len : Nat) :
    readLoop info a b first (n + 1) i len =
      match fetch a b (first + i) with
      | none => .error 1
      | some d => (readLoop info a b first n (i + 1) (len - min len info.pageSize)).map
          (fun rest => d.take (min len info.pageSize) ++ rest) := by
  rw [readLoop, fetch]
  rcases pageCheck_eq (a (first + i)) with ha | ha
  · simp [ha]
  · rcases pageCheck_eq (b (first + i)) with hb | hb <;> simp [ha, hb]

theorem readLoop_congr {first : Nat} (n i len : Nat)
    (h : ∀ j, i ≤ j → j < i + n → fetch a b (first + j) = fetch a' b' (first + j)) :
    readLoop info a b first n i len = readLoop info a' b' first n i len := by
  induction n generalizing i len with
  | zero => rfl
  | succ n ih =>
    rw [readLoop_succ, readLoop_succ, h i le_rfl (by omega),
      ih (i + 1) _ (fun j hj hjn => h j (by omega) (by omega))]

theorem readLoop_none {first j : Nat} (hj : fetch a b (first + j) = none) (n i len : Nat)
    (hij : i ≤ j) (hjn : j < i + n) : readLoop info a b first n i len = .error 1 := by
  induction n generalizing i len with
  | zero => omega
  | succ n ih =>
    rw [readLoop_succ]
    by_cases h : i = j
    · rw [h, hj]
    rw [ih (i + 1) _ (by omega) (by omega)]
    -- the loop fails now or later
    cases fetch a b (first + i) <;> rfl

theorem readLoop_some {first : Nat} (n i len : Nat)
    (h : ∀ j, i ≤ j → j < i + n → fetch a b (first + j) ≠ none) :
    ∃ d, readLoop info a b first n i len = .ok d := by
  induction n generalizing i len with
  | zero => exact ⟨[], rfl⟩
  | succ n ih =>
    rcases ih (i + 1) (len - min len info.pageSize) (fun j hj hjn => h j (by omega) (by omega))
      with ⟨d, hd⟩
    rw [readLoop_succ, hd]
    cases hf : fetch a b (first + i) with
    | none => exact absurd hf (h i le_rfl (by omega))
    | some e => exact ⟨_, rfl⟩

theorem readItem_congr (h : ∀ p, info.itemOf p = item → fetch a b p = fetch a' b' p) :
    readItem info a b item = readItem info a' b' item :=
  readLoop_congr _ _ _ (fun j _ hj => h _ (itemOf_add (by omega)))

theorem readItem_none (hp : info.itemOf p = item) (h : fetch a b p = none) :
    readItem info a b item = .error 1 := by
  have hmod := Nat.mod_lt p (pagesCntPerItem_pos info)
  have hdiv := Nat.div_add_mod' p (info.pagesCntPerItem 4096)
  have hsum : item * info.pagesCntPerItem 4096 + p % info.pagesCntPerItem 4096 = p := by
    rw [← hp]
    exact hdiv
  exact readLoop_none (by rw [hsum]; exact h) _ _ _ (Nat.zero_le _) (by omega)

theorem readItem_some (h : ∀ p, info.itemOf p = item → fetch a b p ≠ none) :
    ∃ d, readItem info a b item = .ok d :=
  readLoop_some _ _ _ (fun j _ hj => h _ (itemOf_add (by omega)))

theorem pages_cover (info : Info) : 4096 ≤ info.pageSize * info.pagesCntPerItem 4096 := by
  have hpos := info.pageSize_pos
  have hmod := Nat.mod_lt (4096 + info.pageSize - 1) hpos
  have hdiv := Nat.div_add_mod (4096 + info.pageSize - 1) info.pageSize
  unfold Info.pagesCntPerItem
  omega

theorem take_itemPage (hbuf : buf.length = 4096) {i : Nat} (hi : i < info.pagesCntPerItem 4096)
    (item : Nat) :
    (itemPage info buf 4096 (item * info.pagesCntPerItem 4096 + i)).data.take
        (min (4096 - info.pageSize * i) info.pageSize) =
      (buf.drop (info.pageSize * i)).take (min (4096 - info.pageSize * i) info.pageSize) := by
  have hmod : (item * info.pagesCntPerItem 4096 + i) % info.pagesCntPerItem 4096 = i := by
    rw [mul_comm, Nat.mul_add_mod, Nat.mod_eq_of_lt hi]
  unfold itemPage
  simp only [hmod]
  rw [take_append_of_le_length (by simp only [length_take, length_drop, hbuf]; omega),
    take_take, min_self]

section

variable (hbuf : buf.length = 4096)
  (h : ∀ p, info.itemOf p = item → fetch a b p = some (itemPage info buf 4096 p).data)
include hbuf h

theorem readLoop_new (n i : Nat) (hi : i + n = info.pagesCntPerItem 4096) :
    readLoop info a b (item * info.pagesCntPerItem 4096) n i (4096 - info.pageSize * i) =
      .ok (buf.drop (info.pageSize * i)) := by
  induction n generalizing i with
  | zero =>
    have hcover := pages_cover info
    rw [← hi, add_zero] at hcover
    rw [drop_eq_nil_of_le (by omega)]
    rfl
  | succ n ih =>
    have hnext : 4096 - info.pageSize * i - min (4096 - info.pageSize * i) info.pageSize =
        4096 - info.pageSize * (i + 1) := by
      rw [mul_add, mul_one]
      omega
    rw [readLoop_succ, h _ (itemOf_add (by omega)), hnext, ih (i + 1) (by omega)]
    simp only [Except.map]
    rw [take_itemPage hbuf (by omega)]
    -- the taken part and the rest are the buffer from here on
    congr 1
    by_cases hlast : info.pageSize ≤ 4096 - info.pageSize * i
    · rw [min_eq_right hlast, mul_add, mul_one, ← drop_drop, take_append_drop]
    have hend : buf.drop (info.pageSize * (i + 1)) = [] := by
      rw [drop_eq_nil_iff, hbuf, mul_add, mul_one]
      omega
    rw [hend, append_nil, min_eq_left (by omega),
      take_of_length_le (by rw [length_drop, hbuf])]

theorem readItem_new : readItem info a b item = .ok buf := by
  have hloop := readLoop_new hbuf h (info.pagesCntPerItem 4096) 0 (zero_add _)
  rwa [mul_zero, Nat.sub_zero, drop_zero] at hloop

end

theorem whole_erased {info : Info} : Whole info (fun _ => info.erased) :=
  have hbad := not_good_erased
  ⟨fun _ => .inl rfl, fun _ _ _ h => absurd h hbad, fun _ h => absurd h hbad⟩

variable {buf : List UInt8}

theorem updated_self (h : info.itemOf p = item) {w : Nat → Page} :
    updated info w item buf p = itemPage info buf 4096 p := if_pos h

theorem updated_other (h : info.itemOf p ≠ item) (w : Nat → Page) :
    updated info w item buf p = w p := if_neg h

theorem good_updated (h : info.itemOf p = item) {w : Nat → Page} :
    pageCheck (updated info w item buf p) = 0 := by
  rw [updated_self h]
  exact pageCheck_itemPage

theorem Whole.magic (h : Whole info w) (hp : pageCheck (w p) = 0) :
    (w p).magic = secStoMagic := by
  rcases h.page p with he | hgood
  · rw [he] at hp
    exact absurd hp not_good_erased
  · exact hgood.2

theorem Whole.erased (h : Whole info w) (hp : ¬ pageCheck (w p) = 0) : w p = info.erased := by
  rcases h.page p with he | hgood
  · exact he
  · exact absurd hgood.1 hp

theorem Whole.updated (h : Whole info w) (hitem : info.Fits item) (buf : List UInt8) :
    Whole info (updated info w item buf) := by
  refine ⟨fun p => ?_, fun p q hpq hp => ?_, fun p hp => ?_⟩
  · by_cases hi : info.itemOf p = item
    · rw [updated_self hi]
      exact .inr ⟨pageCheck_itemPage, rfl⟩
    · rw [updated_other hi]
      exact h.page p
  · by_cases hi : info.itemOf q = item
    · exact good_updated hi
    · rw [updated_other (hpq ▸ hi)] at hp
      rw [updated_other hi]
      exact h.uniform p q hpq hp
  · by_cases hi : info.itemOf p = item
    · rw [hi]
      exact hitem
    · rw [updated_other hi] at hp
      exact h.fits p hp

theorem Whole.cut_eq (h : Whole info w) (hm : info.pageCnt ≤ m) : cut info w m = w := by
  funext p
  unfold cut
  by_cases hp : p < m
  · rw [if_pos hp]
  rw [if_neg hp]
  by_cases hgood : pageCheck (w p) = 0
  · have hlt := lt_pageCnt_of_fits (h.fits p hgood)
    omega
  · exact (h.erased hgood).symm

theorem newPage_eq (item : Nat) (buf : List UInt8) (s : SecSto) :
    newPage info item buf 4096 s = SpinandSec.updated info (s.page s.blk0) item buf := rfl

theorem composed_eq {s : SecSto} (h : Whole info (s.page s.blk0)) (hitem : info.Fits item)
    (buf : List UInt8) :
    composed info item buf s = SpinandSec.updated info (s.page s.blk0) item buf := by
  rw [composed, newPage_eq, (h.updated hitem buf).cut_eq le_rfl]

end

end Brandy.SpinandSec
