import Brandy.Core.NandSecCache
import Brandy.Theory.NandSecStorage.Others

/-!
# Cached Writes of the Secure Storage

A read always goes to the flash, so it does not see a write before the flush. A flush whose three
tries to erase the first block fail drops all writes since the last one, and says nothing of it: its
result is that of erasing the second block.

## Main definitions

* `Sound`: In the first block the first copies of all pages pass.
* `Op.Keeps`: What is expected of a call.
* `Op.Allowed`: The last write to an item that is read has reached the flash.
* `Tracks`: The invariant of a run.

## Theorems

* `tracks_apply`: What one call keeps.
* `cached_writes_kept`: Every allowed call of a run does what is expected.
-/

namespace Brandy.NandSec

open Option Function List

variable {g : Geometry}

/-- The bytes of an item. -/
abbrev ItemData := { data : List UInt8 // data.length = itemLen }

/-- An item takes one page, or two that it fills. -/
def Fits (g : Geometry) : Prop := itemLen ≤ g.pageSize ∨ g.pageSize = 2048

theorem Fits.cases (h : Fits g) :
    (cnt g = 1 ∧ len g = itemLen) ∨ (cnt g = 2 ∧ len g = 2048 ∧ g.pageSize = 2048) := by
  rcases h with hone | htwo
  · exact .inl ⟨cnt_of_size hone, len_of_size hone⟩
  refine .inr ⟨?_, ?_, htwo⟩
  · rw [cnt, pagesCntPerItem, htwo]
    rfl
  · rw [len, lenPerPage, htwo]
    rfl

theorem Fits.cnt_le (h : Fits g) : cnt g ≤ 2 := by
  rcases h.cases with ⟨hcnt, -⟩ | ⟨hcnt, -⟩ <;> omega

theorem Fits.len_mul_cnt (h : Fits g) : len g * cnt g = itemLen := by
  rcases h.cases with ⟨hcnt, hlen⟩ | ⟨hcnt, hlen, -⟩
  · rw [hcnt, hlen, mul_one]
  · rw [hcnt, hlen]
    rfl

theorem flatMap_pieces {α : Type} (l : List α) (n k : Nat) :
    ((List.range k).flatMap fun i => (l.drop (n * i)).take n) = l.take (n * k) := by
  induction k with
  | zero => rfl
  | succ k ih =>
    rw [range_succ, flatMap_append, flatMap_singleton, ih, Nat.mul_succ,
      take_add]

theorem take_itemPage (hg : Fits g) (data : ItemData) (p : Nat) :
    (itemPage g data.1 (cnt g) (len g) p).data.take (len g) =
      (data.1.drop (len g * (p % cnt g))).take (len g) := by
  obtain ⟨data, hdata⟩ := data
  have hmod := Nat.mod_lt p (cnt_pos g)
  -- a page begins with the whole of its piece
  have hpiece : ∀ l : List UInt8, l.length = len g → (fill g l).take (len g) = l := by
    intro l hl
    rw [← hl, take_fill (hl ▸ len_le g)]
  rcases hg.cases with ⟨hcnt, hlen⟩ | ⟨hcnt, hlen, hsize⟩
  · rw [hcnt, data_itemPage_one, Nat.mod_one, mul_zero, drop_zero]
    exact hpiece _ (by rw [length_take, hdata, hlen, min_self])
  · have hd : (itemPage g data (cnt g) (len g) p).data =
        fill g ((data.drop (g.pageSize * (p % cnt g))).take g.pageSize) := if_neg (by omega)
    rw [hd, hsize, ← hlen]
    refine hpiece _ ?_
    rw [length_take, length_drop, hdata, hlen, itemLen]
    omega

/-- A spare area that says where the blocks are. -/
def Heads (gap : UInt8) (p : Page g) : Prop :=
  p.oob 0 = 0xff ∧ p.oob 1 = 0xaa ∧ p.oob 2 = 0x5c ∧ p.oob 7 = gap

theorem readSum_gapSpare {p : Page g} {sum : Nat} {gap : UInt8} (hsum : sum < 2 ^ 32)
    (hspare : p.spare = gapSpare sum gap) : p.readSum = sum := by
  have hfront : ([0xff, 0xaa, 0x5c] : List UInt8).length = 3 := rfl
  have hrev : (Memory.leBytes 4 sum).reverse.length = 4 := by
    rw [length_reverse, Memory.length_leBytes]
  rw [Page.readSum, hspare, gapSpare, append_assoc, drop_left' hfront,
    take_left' hrev, Memory.beValue, reverse_reverse, Memory.leValue_leBytes _ hsum]

theorem heads_gapSpare {p : Page g} {sum : Nat} {gap : UInt8}
    (hspare : p.spare = gapSpare sum gap) : Heads gap p := by
  unfold Heads Page.oob
  rw [hspare, gapSpare]
  refine ⟨rfl, rfl, rfl, ?_⟩
  have hlen : ([0xff, 0xaa, 0x5c] ++ (Memory.leBytes 4 sum).reverse).length = 7 := by
    rw [length_append, length_reverse, Memory.length_leBytes]
    rfl
  rw [getD_append_right _ _ _ _ hlen.le, hlen]
  rfl

theorem Heads.marked {gap : UInt8} {p : Page g} (h : Heads gap p) : p.marked = true := by
  obtain ⟨-, hone, htwo, -⟩ := h
  rw [Page.marked, Bool.and_eq_true, beq_iff_eq, beq_iff_eq]
  exact ⟨hone, htwo⟩

section

variable (gap : UInt8) (data : List UInt8) (cnt len p : Nat)

theorem readSum_cachedPage :
    (cachedPage g gap data cnt len p).readSum = checkSum (itemPage g data cnt len p).data len :=
  readSum_gapSpare (Nat.mod_lt _ (by decide)) rfl

theorem heads_cachedPage : Heads gap (cachedPage g gap data cnt len p) := heads_gapSpare rfl

theorem passes_cachedPage : Passes len (cachedPage g gap data cnt len p) = true := by
  rw [Passes, (heads_cachedPage gap data cnt len p).marked, readSum_cachedPage]
  exact beq_self_eq_true _

end

variable {item : Nat}

theorem item_page_lt {i : Nat} (hitem : item < maxSecureStorageItem) (hi : i < cnt g) :
    item * cnt g + i < period g ∧ (item * cnt g + i) / cnt g = item := by
  have hpos := cnt_pos g
  refine ⟨?_, ?_⟩
  · calc item * cnt g + i < item * cnt g + cnt g := by omega
      _ = (item + 1) * cnt g := (Nat.succ_mul item _).symm
      _ ≤ maxSecureStorageItem * cnt g := Nat.mul_le_mul_right _ hitem
  · rw [mul_comm, Nat.mul_add_div hpos, Nat.div_eq_of_lt hi, add_zero]

/-- The first copies of the pages of an item. -/
def firstPages (b : Block g) (item : Nat) : List (Page g) :=
  (List.range (cnt g)).map fun i => b (item * cnt g + i)

theorem getLast?_firstPages (b : Block g) (item : Nat) :
    (firstPages b item).getLast? = some (b (item * cnt g + (cnt g - 1))) := by
  rw [firstPages, getLast?_map, getLast?_range, if_neg (cnt_pos g).ne', map_some]

theorem firstPages_congr {b b' : Block g} (hitem : item < maxSecureStorageItem)
    (h : ∀ p < period g, p / cnt g = item → b' p = b p) : firstPages b' item = firstPages b item :=
  map_congr_left fun _ hi => h _ (item_page_lt hitem (mem_range.mp hi)).1
    (item_page_lt hitem (mem_range.mp hi)).2

theorem read_first (hg : Fits g) {s : Storage g}
    (hpass : ∀ p < period g, Passes (len g) (s.main p) = true) (hitem : item < maxSecureStorageItem)
    (mbuf : List UInt8) (buf : ItemData) :
    read (ready mbuf) s item buf.1 itemLen =
      (status (firstPages s.main item).getLast?,
        (firstPages s.main item).flatMap fun p => shown (len g) (some p)) := by
  have hpos := cnt_pos g
  have hfound : ∀ i < cnt g,
      found s (len g) (pageOf g item i) = some (s.main (item * cnt g + i)) := by
    intro i hi
    have hlt := (item_page_lt (g := g) hitem hi).1
    have hpage : pageOf g item i = item * cnt g + i := by
      have hcnt := hg.cnt_le
      refine Nat.mod_eq_of_lt (hlt.trans_le ?_)
      unfold period maxSecureStorageItem
      omega
    rw [hpage]
    exact found_first (hlt.trans_le (period_le g)) (hpass _ hlt)
  have hdrop : buf.1.drop (cnt g * len g) = [] :=
    drop_eq_nil_of_le (by rw [buf.2, mul_comm, hg.len_mul_cnt])
  rw [read_eq, fetched, hdrop, append_nil, hfound _ (by omega), getLast?_firstPages, firstPages,
    flatMap_map]
  refine congrArg (Prod.mk _) (flatMap_congr fun i hi => ?_)
  rw [hfound i (mem_range.mp hi)]

/-- An item that no page of looks empty. -/
def Fine (g : Geometry) (item : Nat) (data : ItemData) : Prop :=
  item < maxSecureStorageItem ∧
    ∀ i < cnt g, checkSum (itemPage g data.1 (cnt g) (len g) i).data (len g) ≠ 0x1234

/-- The first copies of an item's pages in a block, as a flush writes them. -/
def Written (gap : UInt8) (b : Block g) (item : Nat) (data : ItemData) : Prop :=
  ∀ p < period g, p / cnt g = item → b p = cachedPage g gap data.1 (cnt g) (len g) p

section

variable {s : Storage g} (hg : Fits g) (hpass : ∀ p < period g, Passes (len g) (s.main p) = true)
include hg hpass

theorem read_written {data : ItemData} {gap : UInt8} (hfine : Fine g item data)
    (hw : Written gap s.main item data) {mbuf : List UInt8} {buf : ItemData} :
    read (ready mbuf) s item buf.1 itemLen = (0, data.1) := by
  have hpos := cnt_pos g
  have hmod : ∀ i < cnt g, (item * cnt g + i) % cnt g = i := by
    intro i hi
    rw [mul_comm, Nat.mul_add_mod, Nat.mod_eq_of_lt hi]
  -- the data of a page only depends on its index in the item
  have hsum : ∀ i < cnt g,
      (cachedPage g gap data.1 (cnt g) (len g) (item * cnt g + i)).readSum ≠ 0x1234 := by
    intro i hi
    have hdata : (itemPage g data.1 (cnt g) (len g) (item * cnt g + i)).data =
        (itemPage g data.1 (cnt g) (len g) i).data := by
      simp only [itemPage, hmod i hi, Nat.mod_eq_of_lt hi]
    rw [readSum_cachedPage, hdata]
    exact hfine.2 i hi
  have hshown : ∀ i ∈ List.range (cnt g),
      shown (len g) (some (cachedPage g gap data.1 (cnt g) (len g) (item * cnt g + i))) =
        (data.1.drop (len g * i)).take (len g) := by
    intro i hi
    have htake := take_itemPage hg data (item * cnt g + i)
    rw [hmod i (mem_range.mp hi)] at htake
    rw [shown, if_neg (hsum i (mem_range.mp hi))]
    exact htake
  rw [read_first hg hpass hfine.1, firstPages_congr hfine.1 hw, getLast?_firstPages, status,
    if_neg (hsum _ (by omega)), firstPages, flatMap_map, flatMap_congr hshown,
    flatMap_pieces, hg.len_mul_cnt, take_of_length_le data.2.le]

theorem read_congr {s' : Storage g} (hpass' : ∀ p < period g, Passes (len g) (s'.main p) = true)
    (hitem : item < maxSecureStorageItem)
    (heq : ∀ p < period g, p / cnt g = item → s'.main p = s.main p) (mbuf mbuf' : List UInt8)
    (buf buf' : ItemData) :
    read (ready mbuf') s' item buf'.1 itemLen = read (ready mbuf) s item buf.1 itemLen := by
  rw [read_first hg hpass' hitem, read_first hg hpass hitem, firstPages_congr hitem heq]

end

/-- The byte with the gaps of a session. -/
def Session.gap (start : Nat) (s : Session g) : UInt8 := gapByte start s.block s.blockBak

/-- A start finds the two blocks, and in the first one the first copies of all pages pass. -/
structure Sound (start : Nat) (s : Session g) : Prop where
  start_le : start ≤ s.block
  min_le : minSecureStorageBlockNum ≤ s.block
  block_lt : s.block < s.blockBak
  bak_lt : s.blockBak < maxSecureStorageBlockNum
  gap_block : s.block - start < 16
  gap_bak : s.blockBak - s.block < 16
  blockA : s.blockA = s.block
  blockB : s.blockB = s.blockBak
  alone : ∀ n, start ≤ n → n < maxSecureStorageBlockNum → n ≠ s.block → n ≠ s.blockBak →
    isSecureStorageBlock (s.flash n) = false
  heads : Heads (s.gap start) (s.flash s.block 0)
  passes : ∀ p < period g, Passes (len g) (s.flash s.block p) = true

variable {start : Nat} {s : Session g}

/-- The session with other blocks of the storage, and with something else in memory. -/
theorem Sound.of_flash (h : Sound start s) {flash : Nat → Block g}
    (hothers : ∀ n, n ≠ s.block → n ≠ s.blockBak → flash n = s.flash n)
    (hheads : Heads (s.gap start) (flash s.block 0))
    (hpasses : ∀ p < period g, Passes (len g) (flash s.block p) = true) (pages : Nat → Page g)
    (right : Nat → Nat) (begin writing : Bool) :
    Sound start ⟨flash, s.block, s.blockBak, s.blockA, s.blockB, pages, right, begin, writing⟩ :=
  { h with
    alone := fun n hstart hlt hne hne' =>
      (congrArg _ (hothers n hne hne')).trans (h.alone n hstart hlt hne hne')
    heads := hheads
    passes := hpasses }

variable {gap : UInt8}

theorem isSecureStorageBlock_of_heads {b : Block g} (h : Heads gap (b 0)) :
    isSecureStorageBlock b = true := by
  obtain ⟨hzero, hone, htwo, -⟩ := h
  rw [isSecureStorageBlock, hzero, hone, htwo]
  rfl

theorem writeInit_apply {p : Nat} (hp : p < period g) :
    writeInit g gap p = initPage g gap :=
  (foldl_writePage).trans (if_pos (hp.trans_le (period_le g)))

theorem readSum_initPage (gap : UInt8) : (initPage g gap).readSum = 0x1234 :=
  readSum_gapSpare (by decide) rfl

theorem heads_initPage : Heads gap (initPage g gap) := heads_gapSpare rfl

theorem passes_initPage (gap : UInt8) (len : Nat) : Passes len (initPage g gap) = true := by
  rw [Passes, (heads_initPage).marked, readSum_initPage, checkSum, initPage,
    Memory.wordSum_replicate]
  rfl

theorem firstBuild_block (start : Nat) {a b : Nat} (hab : a < b) (s : Session g) :
    (firstBuild start a b s).flash a = writeInit g (gapByte start a b) :=
  (update_of_ne (by omega) _ _).trans (update_self _ _ _)

theorem sound_firstBuild {a b : Nat} (s : Session g) (hstart : start ≤ a)
    (hmin : minSecureStorageBlockNum ≤ a) (hab : a < b) (hmax : b < maxSecureStorageBlockNum)
    (hgap : a - start < 16) (hgap' : b - a < 16)
    (halone : ∀ n, start ≤ n → n < maxSecureStorageBlockNum → n ≠ a → n ≠ b →
      isSecureStorageBlock (s.flash n) = false) : Sound start (firstBuild start a b s) := by
  have hblock := firstBuild_block start hab s
  refine ⟨hstart, hmin, hab, hmax, hgap, hgap', rfl, rfl, ?_, ?_, ?_⟩
  · intro n hn hlt hne hne'
    have hother : (firstBuild start a b s).flash n = s.flash n :=
      (update_of_ne hne' _ _).trans (update_of_ne hne _ _)
    rw [hother]
    exact halone n hn hlt hne hne'
  · rw [show (firstBuild start a b s).block = a from rfl, hblock, writeInit_apply (period_pos g)]
    exact heads_initPage
  · intro p hp
    rw [show (firstBuild start a b s).block = a from rfl, hblock, writeInit_apply hp]
    exact passes_initPage _ _

theorem ite_update_of_ne {α : Type} {c : Prop} [Decidable c] {f : Nat → α} {a n : Nat} {v : α}
    (h : n ≠ a) : (if c then Function.update f a v else f) n = f n := by
  split
  · exact update_of_ne h _ _
  · rfl

theorem gapByte_toNat {a b : Nat} (ha : start ≤ a) (hab : a < b) (hgap : a - start < 16)
    (hgap' : b - a < 16) :
    (gapByte start a b).toNat % 16 = a - start ∧ (gapByte start a b).toNat / 16 = b - a := by
  have hA : (((a : Int) - start) % 16).toNat = a - start := by omega
  have hB : (((b : Int) - a) % 16).toNat = b - a := by omega
  have hnat : (gapByte start a b).toNat = (a - start) + 16 * (b - a) := by
    rw [gapByte, hA, hB, UInt8.toNat_ofNat']
    exact Nat.mod_eq_of_lt (by omega)
  omega

section Restart

variable {start : Nat} {s : Session g} (h : Sound start s)
include h

theorem findBlock_first : findBlock s.flash start = some s.block := by
  have hlt := h.block_lt
  have hbak := h.bak_lt
  have hstart := h.start_le
  refine find?_range'_eq_some.mpr ⟨isSecureStorageBlock_of_heads h.heads,
    mem_range'_1.mpr (by omega), fun i hi hbefore => ?_⟩
  rw [h.alone i hi (by omega) (by omega) (by omega)]
  rfl

theorem findBlock_second :
    findBlock s.flash (s.block + 1) = some s.blockBak ∨
      findBlock s.flash (s.block + 1) = none := by
  have hstart := h.start_le
  have hlt := h.block_lt
  have hbak := h.bak_lt
  cases hmark : isSecureStorageBlock (s.flash s.blockBak) with
  | true =>
    left
    refine find?_range'_eq_some.mpr ⟨hmark, mem_range'_1.mpr (by omega), fun i hi hbefore => ?_⟩
    rw [h.alone i (by omega) (by omega) (by omega) (by omega)]
    rfl
  | false =>
    right
    refine find?_eq_none.mpr fun i hi => ?_
    rw [mem_range'_1] at hi
    rw [Bool.not_eq_true]
    by_cases heq : i = s.blockBak
    · rw [heq]
      exact hmark
    · exact h.alone i (by omega) (by omega) (by omega) heq

/-- Both numbers are right after a restart, whether the second block is found or not. -/
theorem correctBlocks_found :
    correctBlocks s.flash start ((findBlock s.flash start).getD 0)
        (((findBlock s.flash start).bind fun n => findBlock s.flash (n + 1)).getD 0) =
      (s.block, s.blockBak) := by
  have hlt := h.block_lt
  rw [findBlock_first h, bind_some, getD_some, correctBlocks]
  rcases findBlock_second h with hfound | hnone
  · rw [hfound, getD_some, if_neg (by omega)]
  obtain ⟨hA, hB⟩ := gapByte_toNat h.start_le hlt h.gap_block h.gap_bak
  have hgap : (s.flash s.block 0).oob 7 = gapByte start s.block s.blockBak := h.heads.2.2.2
  have hstart := h.start_le
  rw [hnone, getD_none, if_pos ⟨h.min_le, Nat.zero_le _⟩, hgap]
  simp only [hA, hB, Prod.mk.injEq]
  omega

theorem init_block : (init start s.flash).storage.main = s.flash s.block := by
  have hlt := h.block_lt
  have hmin := h.min_le
  have hnumbers := correctBlocks_found h
  have hfound : ¬ (s.block < minSecureStorageBlockNum ∨ s.blockBak ≤ s.block) := by omega
  have hblock : (init start s.flash).block = s.block := by
    simp only [init, hnumbers]
    exact if_pos hfound
  have hflash : (init start s.flash).flash s.block = s.flash s.block := by
    simp only [init, hnumbers]
    exact ite_update_of_ne (by omega)
  rw [Session.storage, hblock, hflash]

end Restart

theorem readOnePre_first {b : Block g} {len i : Nat} (cnt : Nat) (hi : i < g.pageCntPerBlk)
    (hpass : Passes len (b i) = true) (page : Page g) (right : Nat → Nat) :
    readOnePre b cnt len i page right =
      (b i, Function.update right (i % (cnt * maxSecureStorageItem))
        (if (b i).readSum = 0x1234 then 1 else 0)) := by
  rw [Passes, Bool.and_eq_true, beq_iff_eq] at hpass
  obtain ⟨hmarked, hsum⟩ := hpass
  rw [readOnePre, readOnePreLoop, if_pos hi]
  simp only [hmarked, Bool.true_eq_false, if_false]
  rw [if_pos hsum]

theorem preloadPage_first {i : Nat} (hi : i < period g)
    (hpass : Passes (len g) (s.flash s.block i) = true) :
    ∃ right, preloadPage (cnt g) (len g) s i =
      { s with pages := Function.update s.pages i (s.flash s.block i), pagesRight := right } := by
  have hmod : i % (cnt g * maxSecureStorageItem) = i := by
    rw [mul_comm]
    exact Nat.mod_eq_of_lt hi
  have hone := readOnePre_first (cnt g) (hi.trans_le (period_le g)) hpass (s.pages i) s.pagesRight
  rw [hmod] at hone
  have hright : ¬
      ((readOnePre (s.flash s.block) (cnt g) (len g) i (s.pages i) s.pagesRight).2 i ≠ 0 ∧
        (readOnePre (s.flash s.block) (cnt g) (len g) i (s.pages i) s.pagesRight).2 i ≠ 1) := by
    rw [hone]
    simp only [update_self]
    split <;> simp
  refine ⟨Function.update s.pagesRight i (if (s.flash s.block i).readSum = 0x1234 then 1 else 0),
    ?_⟩
  simp only [preloadPage, if_neg hright]
  rw [hone]

theorem preload_pages (hpass : ∀ p < period g, Passes (len g) (s.flash s.block p) = true) :
    ∃ pages right, preload (cnt g) (len g) s = { s with pages := pages, pagesRight := right } ∧
      ∀ p < period g, pages p = s.flash s.block p := by
  -- the first `k` pages have been loaded
  have hloop : ∀ (k : Nat) (pages₀ : Nat → Page g), k ≤ period g → ∃ pages right,
      (List.range k).foldl (preloadPage (cnt g) (len g)) { s with pages := pages₀ } =
        { s with pages := pages, pagesRight := right } ∧
      ∀ p < k, pages p = s.flash s.block p := by
    intro k pages₀ hk
    induction k with
    | zero => exact ⟨pages₀, s.pagesRight, rfl, fun p hp => absurd hp (Nat.not_lt_zero p)⟩
    | succ k ih =>
      obtain ⟨pages, right, heq, hpages⟩ := ih (by omega)
      rw [range_succ, foldl_append, heq, foldl_cons, foldl_nil]
      obtain ⟨right', hstep⟩ := preloadPage_first
        (s := { s with pages := pages, pagesRight := right }) (i := k) (by omega)
        (hpass k (by omega))
      refine ⟨_, right', hstep, fun p hp => ?_⟩
      by_cases hpk : p = k
      · rw [hpk, update_self]
      · rw [update_of_ne hpk]
        exact hpages p (by omega)
  exact hloop (period g) _ le_rfl

/-- What is in `gs` before the pages of an item are changed. -/
def Session.loaded (s : Session g) (p : Nat) : Page g :=
  if s.begin then s.pages p else s.flash s.block p

theorem begin_pages (hpass : ∀ p < period g, Passes (len g) (s.flash s.block p) = true) :
    ∃ pages right, begin (cnt g) (len g) { s with writing := true } =
        { s with pages := pages, pagesRight := right, begin := true, writing := true } ∧
      ∀ p < period g, pages p = s.loaded p := by
  unfold Session.loaded begin
  cases hb : s.begin with
  | true => exact ⟨s.pages, s.pagesRight, if_pos rfl, fun p _ => rfl⟩
  | false => exact preload_pages (s := { s with writing := true, begin := true }) hpass

theorem fastWrite_eq (hg : Fits g) (h : Sound start s) (item : Nat) (data : List UInt8) :
    ∃ pages right, fastWrite start item data itemLen s =
        (0, { s with pages := pages, pagesRight := right, begin := true, writing := true }) ∧
      ∀ p < period g, pages p =
        if p / cnt g = item then cachedPage g (s.gap start) data (cnt g) (len g) p
        else s.loaded p := by
  obtain ⟨pages, right, hload, hpages⟩ := begin_pages h.passes
  have hgap : gapByte start s.blockA s.blockB = s.gap start := by
    rw [h.blockA, h.blockB]
    rfl
  have hcnt : ¬ maxPageCntPerItem < pagesCntPerItem g itemLen := Nat.not_lt.mpr hg.cnt_le
  refine ⟨fun i => if i < period g ∧ i / cnt g = item then
    cachedPage g (s.gap start) data (cnt g) (len g) i else pages i, right, ?_, fun p hp => ?_⟩
  · rw [fastWrite]
    simp only [show ¬ itemLen % 1024 ≠ 0 by decide, hcnt, if_false]
    rw [show begin (pagesCntPerItem g itemLen) (lenPerPage g itemLen) { s with writing := true } = _
      from hload, putItem, ← hgap]
    rfl
  · simp only [hpages p hp, hp, true_and]

theorem writeCache_apply {pages : Nat → Page g} {p : Nat} (hp : p < period g) :
    writeCache pages p = pages p := by
  have hlt : p < g.pageCntPerBlk := hp.trans_le (period_le g)
  refine (foldl_writePage).trans ((if_pos hlt).trans ?_)
  exact congrArg pages (Nat.mod_eq_of_lt hp)

/-- The blocks after a flush: the first one is as before or holds what is in `gs`. -/
theorem flush_eq (hlt : s.block < s.blockBak) (hwriting : s.writing = true) (o : Erases) :
    ∃ flash, (flush o s).2 = { s with flash := flash, begin := false, writing := false } ∧
      flash s.block = (if o.retry 3 0 then writeCache s.pages else s.flash s.block) ∧
      ∀ n, n ≠ s.block → n ≠ s.blockBak → flash n = s.flash n := by
  have hne : s.block ≠ s.blockBak := by omega
  rw [flush, if_neg (by rw [hwriting]; decide)]
  refine ⟨_, rfl, (ite_update_of_ne hne).trans ?_, fun n hn hn' => ?_⟩
  · cases o.retry 3 0
    · rfl
    · exact update_self _ _ _
  · exact (ite_update_of_ne hn').trans (ite_update_of_ne hn)

/-- A call. What a read finds in the memory it gets and in its buffer does not matter. -/
inductive Op where
  | fastWrite (item : Nat) (data : ItemData)
  | read (item : Nat) (mbuf : List UInt8) (buf : ItemData)
  | flush (o : Erases)

/-- The session after a call. -/
def Op.apply (start : Nat) : Op → Session g → Session g
  | .fastWrite item data, s => (NandSec.fastWrite start item data.1 itemLen s).2
  | .read _ _ _, s => s
  | .flush o, s => (NandSec.flush o s).2

/-- The last write to an item. -/
def latest (before : List Op) (item : Nat) : Option ItemData :=
  before.foldl (fun last op =>
    match op with
    | .fastWrite i data => if i = item then some data else last
    | _ => last) none

/-- The session after some calls. -/
def runOps (start : Nat) (before : List Op) (s : Session g) : Session g :=
  before.foldl (fun s op => op.apply start s) s

/-- What is expected of a call: a read returns what was last written to the item, and after a flush
    and a restart every item can be read that could be read before. -/
def Op.Keeps (start : Nat) (s₀ : Session g) (before : List Op) : Op → Prop
  | .fastWrite _ _ => True
  | .read item mbuf buf => ∀ data, latest before item = some data →
      NandSec.read (ready mbuf) (runOps start before s₀).storage item buf.1 itemLen = (0, data.1)
  | .flush o => ∀ item < maxSecureStorageItem, ∀ mbuf (buf : ItemData) d,
      NandSec.read (ready mbuf) (runOps start before s₀).storage item buf.1 itemLen = (0, d) →
      ∃ d', (d' = d ∨ ∃ data, latest before item = some data ∧ d' = data.1) ∧
        ∀ mbuf' (buf' : ItemData), NandSec.read (ready mbuf')
          (init start (NandSec.flush o (runOps start before s₀)).2.flash).storage item buf'.1
          itemLen = (0, d')

/-- A property of all calls of a run, each with the calls before it. -/
def Along (P : List Op → Op → Prop) : List Op → List Op → Prop
  | _, [] => True
  | before, op :: ops => P before op ∧ Along P (before ++ [op]) ops

/-- The last writes to the items since the last flush, and the last ones that have reached the
    flash. -/
structure Log where
  cached : Nat → Option ItemData
  flushed : Nat → Option ItemData

/-- A flush only counts when one of its tries to erase the first block succeeds. -/
def Op.log : Op → Log → Log
  | .fastWrite item data, l => { l with cached := Function.update l.cached item (some data) }
  | .read _ _ _, l => l
  | .flush o, l =>
    { cached := fun _ => none
      flushed := if o.retry 3 0 then fun i => (l.cached i).orElse fun _ => l.flushed i
        else l.flushed }

def logOf (before : List Op) : Log :=
  before.foldl (fun l op => op.log l) ⟨fun _ => none, fun _ => none⟩

/-- When a call does what is expected: the item of a write exists and does not look empty, and the
    last write to the item of a read is in the flash. -/
def Op.Allowed (g : Geometry) (before : List Op) : Op → Prop
  | .fastWrite item data => Fine g item data
  | .read item _ _ => latest before item = none ∨ latest before item = (logOf before).flushed item
  | .flush _ => True

theorem runOps_snoc (start : Nat) (before : List Op) (op : Op) (s : Session g) :
    runOps start (before ++ [op]) s = op.apply start (runOps start before s) := by
  rw [runOps, foldl_append]
  rfl

theorem logOf_snoc {before : List Op} {op : Op} :
    logOf (before ++ [op]) = op.log (logOf before) := by
  rw [logOf, foldl_append]
  rfl

/-- The session after some calls, in terms of the log. -/
structure Tracks (start : Nat) (before : List Op) (s : Session g) : Prop where
  sound : Sound start s
  writing : s.writing = s.begin
  idle : s.begin = false → ∀ item, (logOf before).cached item = none
  pages : s.begin = true → ∀ p < period g, s.pages p =
    match (logOf before).cached (p / cnt g) with
    | none => s.flash s.block p
    | some data => cachedPage g (s.gap start) data.1 (cnt g) (len g) p
  cached : ∀ item data, (logOf before).cached item = some data →
    Fine g item data ∧ latest before item = some data
  flushed : ∀ item data, (logOf before).flushed item = some data →
    Fine g item data ∧ Written (s.gap start) (s.flash s.block) item data

section Steps

variable {start : Nat} {before : List Op} {s : Session g} (h : Tracks start before s)
include h

theorem Tracks.loaded {p : Nat} (hp : p < period g) :
    s.loaded p =
      match (logOf before).cached (p / cnt g) with
      | none => s.flash s.block p
      | some data => cachedPage g (s.gap start) data.1 (cnt g) (len g) p := by
  rw [Session.loaded]
  split_ifs with hb
  · exact h.pages hb p hp
  · rw [h.idle (Bool.not_eq_true _ ▸ hb)]

theorem tracks_fastWrite (hg : Fits g) {data : ItemData} (hfine : Fine g item data) :
    Tracks start (before ++ [.fastWrite item data])
      ((Op.fastWrite item data).apply start s) := by
  obtain ⟨pages, right, heq, hpages⟩ := fastWrite_eq hg h.sound item data.1
  have hs : (Op.fastWrite item data).apply start s =
      { s with pages := pages, pagesRight := right, begin := true, writing := true } := by
    rw [Op.apply, heq]
  have hlog : logOf (before ++ [.fastWrite item data]) =
      ⟨Function.update (logOf before).cached item (some data), (logOf before).flushed⟩ :=
    logOf_snoc
  rw [hs]
  refine ⟨?_, rfl, nofun, ?_, ?_, ?_⟩
  · exact h.sound.of_flash (fun _ _ _ => rfl) h.sound.heads h.sound.passes _ _ _ _
  · intro _ p hp
    rw [hlog]
    refine (hpages p hp).trans ?_
    split_ifs with hitem
    · simp only [hitem, update_self]
      rfl
    · simp only [update_of_ne hitem]
      exact h.loaded hp
  · intro i d hc
    simp only [hlog] at hc
    rw [latest, foldl_append]
    change _ ∧ (if item = i then some data else latest before i) = some d
    by_cases hi : i = item
    · subst hi
      rw [update_self] at hc
      obtain rfl := some.inj hc
      exact ⟨hfine, if_pos rfl⟩
    · rw [update_of_ne hi] at hc
      rw [if_neg (Ne.symm hi)]
      exact h.cached i d hc
  · intro i d hc
    rw [hlog] at hc
    exact h.flushed i d hc

/-- The blocks after a flush: a page of the first one is as before, or the last one for its item. -/
theorem flush_kept (o : Erases) :
    ∃ flash, (flush o s).2 = { s with flash := flash, begin := false, writing := false } ∧
      (∀ p < period g, flash s.block p =
        match (if o.retry 3 0 then (logOf before).cached (p / cnt g) else none) with
        | none => s.flash s.block p
        | some data => cachedPage g (s.gap start) data.1 (cnt g) (len g) p) ∧
      ∀ n, n ≠ s.block → n ≠ s.blockBak → flash n = s.flash n := by
  cases hbegin : s.begin with
  | false =>
    -- nothing has been written, and nothing happens
    have hwriting := h.writing
    refine ⟨s.flash, ?_, fun p _ => ?_, fun _ _ _ => rfl⟩
    · rw [flush, if_pos (hwriting.trans hbegin), ← hbegin]
      nth_rewrite 2 [← hwriting]
      rfl
    · rw [h.idle hbegin, ite_self]
  | true =>
    obtain ⟨flash, hs, hblock, hothers⟩ := flush_eq h.sound.block_lt (h.writing.trans hbegin) o
    refine ⟨flash, hs, fun p hp => ?_, hothers⟩
    rw [hblock]
    cases o.retry 3 0 with
    | false => rfl
    | true => exact (writeCache_apply hp).trans (h.pages hbegin p hp)

theorem tracks_flush (o : Erases) :
    Tracks start (before ++ [.flush o]) ((Op.flush o).apply start s) := by
  have hlog : logOf (before ++ [.flush o]) = (Op.flush o).log (logOf before) := logOf_snoc
  obtain ⟨flash, hs, hpage, hothers⟩ := flush_kept h o
  rw [Op.apply, hs]
  refine ⟨h.sound.of_flash hothers ?_ (fun p hp => ?_) _ _ _ _, rfl,
    fun _ _ => by rw [hlog]; rfl, nofun, fun i d hc => ?_, fun i d hc => ?_⟩
  · simp only [hpage 0 (period_pos g)]
    split
    · exact h.sound.heads
    · exact heads_cachedPage _ _ _ _ _
  · simp only [hpage p hp]
    split
    · exact h.sound.passes p hp
    · exact passes_cachedPage _ _ _ _ _
  · rw [hlog] at hc
    cases hc
  · have hlast : ((if o.retry 3 0 then (logOf before).cached i else none).orElse fun _ =>
        (logOf before).flushed i) = some d := by
      rw [← hc, hlog, Op.log]
      split <;> rfl
    cases hnew : (if o.retry 3 0 then (logOf before).cached i else none) with
    | none =>
      rw [hnew] at hlast
      refine ⟨(h.flushed i d hlast).1, fun p hp hi => (hpage p hp).trans ?_⟩
      rw [hi, hnew]
      exact (h.flushed i d hlast).2 p hp hi
    | some d' =>
      rw [hnew] at hlast
      obtain rfl : d' = d := some.inj hlast
      refine ⟨(h.cached i d' (ite_none_right_eq_some.mp hnew).2).1, fun p hp hi => ?_⟩
      refine (hpage p hp).trans ?_
      rw [hi, hnew]
      rfl

theorem tracks_apply (hg : Fits g) {op : Op} (hop : op.Allowed g before) :
    Tracks start (before ++ [op]) (op.apply start s) := by
  cases op with
  | fastWrite item data => exact tracks_fastWrite h hg hop
  | flush o => exact tracks_flush h o
  | read item mbuf buf =>
    have hlog : logOf (before ++ [.read item mbuf buf]) = logOf before := logOf_snoc
    have hlatest : ∀ i, latest (before ++ [.read item mbuf buf]) i = latest before i := by
      intro i
      rw [latest, foldl_append]
      rfl
    refine ⟨h.sound, h.writing, hlog ▸ h.idle, hlog ▸ h.pages, fun i d hc => ?_, hlog ▸ h.flushed⟩
    rw [hlog] at hc
    rw [hlatest]
    exact h.cached i d hc

end Steps

section

variable {before : List Op} {s₀ : Session g} (hg : Fits g)
  (h : Tracks start before (runOps start before s₀))
include hg h

theorem keeps_read {mbuf : List UInt8} {buf : ItemData}
    (hop : (Op.read item mbuf buf).Allowed g before) :
    (Op.read item mbuf buf).Keeps start s₀ before := by
  intro data hlatest
  rcases hop with hnone | hflushed
  · rw [hnone] at hlatest
    cases hlatest
  · rw [hlatest] at hflushed
    obtain ⟨hfine, hwritten⟩ := h.flushed item data hflushed.symm
    exact read_written hg h.sound.passes hfine hwritten

/-- A flush. An item that has been written since the last one is new or old afterwards, the others
    are the same. -/
theorem keeps_flush (o : Erases) : (Op.flush o).Keeps start s₀ before := by
  intro item hitem mbuf buf d hread
  have hafter := (tracks_flush h o).sound
  have hmain := init_block hafter
  have hpasses := hafter.passes
  obtain ⟨flash, hs, hpage, -⟩ := flush_kept h o
  rw [Op.apply, hs] at hmain hpasses
  simp only [hs]
  have hpass := fun p hp => (congrArg _ (congrFun hmain p)).trans (hpasses p hp)
  cases hnew : (if o.retry 3 0 then (logOf before).cached item else none) with
  | none =>
    refine ⟨d, .inl rfl, fun mbuf' buf' => ?_⟩
    rw [← hread]
    refine read_congr hg h.sound.passes hpass hitem (fun p hp hi => ?_) _ _ _ _
    rw [hmain]
    refine (hpage p hp).trans ?_
    rw [hi, hnew]
    rfl
  | some data =>
    obtain ⟨hfine, hlatest⟩ := h.cached item data (ite_none_right_eq_some.mp hnew).2
    refine ⟨data.1, .inr ⟨data, hlatest, rfl⟩, fun mbuf' buf' => ?_⟩
    have hwritten : Written ((runOps start before s₀).gap start)
      (init start flash).storage.main item
        data := by
      intro p hp hi
      refine (congrFun hmain p).trans ((hpage p hp).trans ?_)
      rw [hi, hnew]
    exact read_written hg hpass hfine hwritten

theorem keeps_of_tracks {ops : List Op}
    (hops : Along (fun before op => op.Allowed g before) before ops) :
    Along (fun before op => op.Keeps start s₀ before) before ops := by
  induction ops generalizing before with
  | nil => trivial
  | cons op ops ih =>
    obtain ⟨hop, hrest⟩ := hops
    refine ⟨?_, ih ?_ hrest⟩
    · cases op with
      | fastWrite item data => trivial
      | read item mbuf buf => exact keeps_read hg h hop
      | flush o => exact keeps_flush hg h o
    · rw [runOps_snoc]
      exact tracks_apply h hg hop

end

/-- In every run from a sound storage a read returns the last write if that has reached the flash,
    and after each flush, whichever erases fail, the items that could be read can be read after a
    restart. -/
theorem cached_writes_kept (hg : Fits g) (start : Nat) (s₀ : Session g) (hs : Sound start s₀)
    (hbegin : s₀.begin = false) (hwriting : s₀.writing = false) (ops : List Op)
    (hops : Along (fun before op => op.Allowed g before) [] ops) :
    Along (fun before op => op.Keeps start s₀ before) [] ops := by
  refine keeps_of_tracks hg ?_ hops
  exact {
    sound := hs
    writing := hwriting.trans hbegin.symm
    idle := fun _ _ => rfl
    pages := fun hb => absurd (hbegin.symm.trans hb) Bool.false_ne_true
    cached := fun _ _ hc => by cases hc
    flushed := fun _ _ hc => by cases hc }

/-- A chip with two blocks that have just been built. -/
def newStorage : Session largePages :=
  firstBuild 38 40 41 (init 38 fun _ => eraseBlock largePages)

theorem sound_newStorage : Sound 38 newStorage :=
  sound_firstBuild _ (by decide) (by decide) (by decide) (by decide) (by decide) (by decide)
    fun _ _ _ _ _ => rfl

/-- The bytes of a key. -/
def keyData : ItemData := ⟨keyBytes, length_replicate⟩

/-- A buffer. -/
def zeroData : ItemData := ⟨replicate 4096 0, length_replicate⟩

theorem fine_keyData (item : Nat) (hitem : item < 32) : Fine largePages item keyData := by
  refine ⟨hitem, fun i hi => ?_⟩
  rw [show cnt largePages = 1 by decide, Nat.lt_one_iff] at hi
  rw [hi]
  decide +kernel

/-- A key that is written, flushed and read, with an erase that fails at first. -/
theorem cached_write_flushed :
    Fits largePages ∧
      Along (fun before op => op.Keeps 38 newStorage before) []
        [.fastWrite 3 keyData, .flush ⟨fun cnt => cnt == 1, false⟩, .read 3 [] zeroData] :=
  ⟨.inl (by decide), cached_writes_kept (.inl (by decide)) 38 newStorage sound_newStorage rfl rfl _
    ⟨fine_keyData 3 (by decide), trivial, .inr rfl, trivial⟩⟩

/-- All erases of the first block fail. -/
def noErase : Erases := ⟨fun _ => false, true⟩

theorem read_newStorage {s : Session largePages} (hs : s.storage.main = newStorage.storage.main)
    (hitem : item < 32) : (read (ready []) s.storage item zeroData.1 itemLen).1 = 1 := by
  have hblock : newStorage.storage.main = writeInit largePages (gapByte 38 40 41) :=
    firstBuild_block 38 (a := 40) (b := 41) (by decide) (init 38 fun _ => eraseBlock largePages)
  have hcnt : cnt largePages = 1 := by decide
  have hperiod : period largePages = 32 := by decide
  have hpass : ∀ p < period largePages, Passes (len largePages) (s.storage.main p) = true := by
    rw [hs]
    exact sound_newStorage.passes
  have hlt : item * cnt largePages + (cnt largePages - 1) < period largePages := by
    rw [hcnt, hperiod]
    omega
  rw [read_first (.inl (by decide)) hpass hitem, hs, hblock, getLast?_firstPages,
    writeInit_apply hlt, status, if_pos (readSum_initPage _)]

/-- A key that is read right after it was written is not there. Nor is it when all erases of the
    first block failed, although the flush reports success. -/
theorem cached_write_unseen :
    ¬ Along (fun before op => op.Keeps 38 newStorage before) []
        [.fastWrite 3 keyData, .read 3 [] zeroData] ∧
      (flush noErase (runOps 38 [.fastWrite 3 keyData] newStorage)).1 = 0 ∧
      ¬ Along (fun before op => op.Keeps 38 newStorage before) []
        [.fastWrite 3 keyData, .flush noErase, .read 3 [] zeroData] := by
  obtain ⟨pages, right, heq, -⟩ :=
    fastWrite_eq (.inl (by decide)) sound_newStorage 3 keyData.1
  generalize hs : ({ newStorage with
    pages := pages, pagesRight := right, begin := true, writing := true } : Session largePages) = s
    at heq
  have hrun : runOps 38 [.fastWrite 3 keyData] newStorage = s := congrArg Prod.snd heq
  have hmain : s.storage.main = newStorage.storage.main := by rw [← hs]; rfl
  have hone : (1 : Int) ≠ 0 := by decide
  refine ⟨?_, ?_, ?_⟩
  · rintro ⟨-, hread, -⟩
    have hzero := congrArg Prod.fst (hread keyData rfl)
    rw [show ([] ++ [Op.fastWrite 3 keyData]) = [Op.fastWrite 3 keyData] from rfl, hrun,
      read_newStorage hmain (by decide)] at hzero
    exact hone hzero
  · rw [hrun, ← hs]
    rfl
  · rintro ⟨-, -, hread, -⟩
    have hzero := congrArg Prod.fst (hread keyData rfl)
    have hlt : s.block < s.blockBak := by
      rw [← hs]
      exact sound_newStorage.block_lt
    obtain ⟨flash, hflush, hblock, -⟩ := flush_eq hlt (by rw [← hs]) noErase
    have hkept :
        ({ s with flash := flash, begin := false, writing := false } : Session _).storage.main =
          newStorage.storage.main := hblock.trans hmain
    rw [runOps_snoc, show ([] ++ [Op.fastWrite 3 keyData]) = [Op.fastWrite 3 keyData] from rfl,
      hrun, Op.apply, hflush, read_newStorage hkept (by decide)] at hzero
    exact hone hzero

end Brandy.NandSec
