import Brandy.Core.SpinandSecStorage

/-!
# The Two Blocks of the Secure Storage

The state a write leaves when power fails after any number of operations, and what the next boot
makes of two blocks.

## Main definitions

* `composed`: The block that a write composes.
* `lossState`: The state when power fails.
* `verdict`, `booted`: What a boot finds, and what it leaves.

## Theorems

* `write_state`, `write_done`: A write with and without a loss of power.
* `init_done`: A boot.
-/

namespace Brandy.SpinandSec

open Word Crash

/-- One block replaced as a whole. -/
def SecSto.setBlock (s : SecSto) (block : Nat) (a : Nat → Page) : SecSto :=
  { s with page := fun b p => if b = block then a p else s.page b p }

/-- The first `m` pages of a block, and erased pages behind them. -/
def cut (info : Info) (a : Nat → Page) (m : Nat) : Nat → Page :=
  fun p => if p < m then a p else info.erased

theorem foldl_checksum (n sum : Nat) (h : sum + 255 * n < 2 ^ 32) :
    (List.replicate n (0xff : UInt8)).foldl (fun sum b => u32 (sum + b.toNat)) sum =
      sum + 255 * n := by
  induction n generalizing sum with
  | zero => rfl
  | succ n ih =>
    have hlt : sum + 255 < 2 ^ 32 := lt_of_le_of_lt (by omega) h
    have hbyte : u32 (sum + (0xff : UInt8).toNat) = sum + 255 :=
      u32_of_range (sum + 255) (by simp) hlt
    rw [List.replicate_succ, List.foldl_cons, hbyte, ih _ (by omega)]
    omega

theorem pageCheck_erased (info : Info) : pageCheck info.erased = 1 := by
  have hsize := info.pageSize_le
  have hsum : secureStorageChecksum info.erased.data = 255 * info.pageSize := by
    unfold secureStorageChecksum Info.erased
    rw [foldl_checksum _ _ (by omega), zero_add]
  have hne : info.erased.checksum ≠ secureStorageChecksum info.erased.data := by
    rw [hsum]
    unfold Info.erased
    dsimp only
    omega
  rw [pageCheck, if_pos hne]

theorem pageCheck_itemPage {info : Info} {buf : List UInt8} {len pagenum : Nat} :
    pageCheck (itemPage info buf len pagenum) = 0 := by
  exact if_neg (not_not.mpr rfl)

section

variable {info : Info}

section

variable (s : SecSto) (b : Nat) (a : Nat → Page)

@[simp] theorem setBlock_blk0 : (s.setBlock b a).blk0 = s.blk0 := rfl

@[simp] theorem setBlock_blk1 : (s.setBlock b a).blk1 = s.blk1 := rfl

@[simp] theorem setBlock_same : (s.setBlock b a).page b = a := by
  funext p
  exact if_pos rfl

end

theorem setBlock_other {s : SecSto} {b b' : Nat} {a : Nat → Page} (h : b' ≠ b) :
    (s.setBlock b a).page b' = s.page b' := by
  funext p
  exact if_neg h

variable (s : SecSto)

theorem eraseBlock_eq (b : Nat) :
    s.eraseBlock info b = s.setBlock b (fun _ => info.erased) := rfl

theorem setPage_setBlock (b m : Nat) (a : Nat → Page) (content : Page) :
    (s.setBlock b a).setPage b m content =
      s.setBlock b (fun p => if p = m then content else a p) := by
  unfold SecSto.setPage SecSto.setBlock
  congr 1
  funext b' p
  by_cases hb : b' = b <;> simp [hb]

theorem cut_zero (a : Nat → Page) : cut info a 0 = fun _ => info.erased := by
  funext p
  exact if_neg (Nat.not_lt_zero p)

theorem cut_succ (a : Nat → Page) (m : Nat) :
    (fun p => if p = m then a m else cut info a m p) = cut info a (m + 1) := by
  funext p
  unfold cut
  by_cases hp : p = m
  · rw [if_pos hp, if_pos (by omega), hp]
  · rw [if_neg hp]
    exact if_congr (by omega) rfl rfl

variable (info) in
/-- Programming a block page by page behind an erase. What a page gets may depend on the device, but
    not on the block. -/
theorem steps_setPage {block : SecSto → Nat} {content : SecSto → Nat → Page}
    {s : SecSto} (hblock : ∀ b a, block (s.setBlock b a) = block s)
    (hcontent : ∀ a, content (s.setBlock (block s) a) = content s) (m : Nat) :
    steps (fun i s => s.setPage (block s) i (content s i)) m 0 (s.eraseBlock info (block s)) =
      s.setBlock (block s) (cut info (content s) m) := by
  induction m with
  | zero =>
    rw [cut_zero]
    rfl
  | succ m ih =>
    rw [steps_succ, ih, zero_add, hblock, hcontent, setPage_setBlock, cut_succ]

variable {s : SecSto} {fromBlk toBlk : Nat}

theorem copy_steps (h : fromBlk ≠ toBlk) (s : SecSto) (m : Nat) :
    steps (fun i s => s.setPage toBlk i (s.page fromBlk i)) m 0 (s.eraseBlock info toBlk) =
      s.setBlock toBlk (cut info (s.page fromBlk) m) :=
  steps_setPage info (fun _ _ => rfl) (fun _ => setBlock_other h) m

theorem copySingleBlock_run (h : fromBlk ≠ toBlk) (s : SecSto) (c : Nat) :
    copySingleBlock info fromBlk toBlk s (some c) =
      if c = 0 then .lost s
      else if info.pageCnt + 1 ≤ c then
        .done () (s.setBlock toBlk (cut info (s.page fromBlk) info.pageCnt))
          (some (c - (info.pageCnt + 1)))
      else .lost (s.setBlock toBlk (cut info (s.page fromBlk) (c - 1))) := by
  rw [copySingleBlock, phyEraseBlock, bind_run]
  cases c with
  | zero => rfl
  | succ c =>
    rw [atomic_succ, bind_done, loop_run, copy_steps h, copy_steps h, if_neg (Nat.succ_ne_zero c)]
    rw [Nat.add_sub_add_right, Nat.add_sub_cancel]
    exact if_congr (by omega) rfl rfl

variable (info) in
theorem copySingleBlock_none (h : fromBlk ≠ toBlk) (s : SecSto) :
    copySingleBlock info fromBlk toBlk s none =
      .done () (s.setBlock toBlk (cut info (s.page fromBlk) info.pageCnt)) none := by
  rw [copySingleBlock, phyEraseBlock, bind_run, atomic_none, bind_done, loop_none, copy_steps h]

/-- The operation of the write loop at one page. -/
def composePage (info : Info) (item : Nat) (buf : List UInt8) (i : Nat) (s : SecSto) : SecSto :=
  s.setPage s.blk1 i (newPage info item buf 4096 s i)

theorem newPage_setBlock (h : s.blk0 ≠ s.blk1) (item : Nat) (buf : List UInt8) (a : Nat → Page) :
    newPage info item buf 4096 (s.setBlock s.blk1 a) = newPage info item buf 4096 s := by
  funext p
  unfold newPage
  rw [setBlock_blk0, setBlock_other h]

theorem writeLoop_loop (item : Nat) (buf : List UInt8) (n pagenum : Nat) (s : SecSto)
    (power : Option Nat) (hpos : 0 < pagenum) :
    writeLoop info item buf 4096 n pagenum s power =
      loop (composePage info item buf) n pagenum s power := by
  induction n generalizing pagenum s power with
  | zero => rfl
  | succ n ih =>
    rw [writeLoop, loop, bind_run, observe_run, bind_done, bind_run, bind_run,
      writeCheckSecureStoragePage, if_neg hpos.ne']
    simp only [phyWritePage, id]
    -- both sides are one operation, and then the rest of the loop
    cases power with
    | none => exact ih _ _ _ (by omega)
    | some c =>
      cases c with
      | zero => rfl
      | succ c => exact ih _ _ _ (by omega)

theorem pagesCntPerItem_pos (info : Info) : 0 < info.pagesCntPerItem 4096 := by
  have hpos := info.pageSize_pos
  exact Nat.div_pos (by omega) hpos

theorem three_items_le (info : Info) : 3 * info.pagesCntPerItem 4096 ≤ info.pageCnt :=
  info.pageCnt_ge

theorem writeLoop_eq (h : s.blk0 ≠ s.blk1) (item : Nat) (buf : List UInt8) (power : Option Nat) :
    writeLoop info item buf 4096 info.pageCnt 0 s power =
      (phyEraseBlock info s.blk1 >>= fun _ =>
        loop (composePage info item buf) info.pageCnt 0) s power := by
  have hk := pagesCntPerItem_pos info
  have hN := three_items_le info
  rcases (show ∃ n, info.pageCnt = n + 1 from ⟨info.pageCnt - 1, by omega⟩) with ⟨n, hn⟩
  rw [hn, writeLoop, bind_run, observe_run, bind_done, bind_run, writeCheckSecureStoragePage,
    if_pos rfl, bind_run, bind_run, loop]
  -- the first page is chosen before the erase, which does not change the choice
  have hfirst : composePage info item buf 0 (s.eraseBlock info s.blk1) =
      (s.eraseBlock info s.blk1).setPage s.blk1 0 (newPage info item buf 4096 s 0) := by
    unfold composePage
    rw [eraseBlock_eq, newPage_setBlock h]
    rfl
  unfold phyEraseBlock phyWritePage
  cases power with
  | none =>
    simp only [atomic_none, bind_done, bind_run, id]
    rw [hfirst]
    exact writeLoop_loop item buf n _ _ _ (by omega)
  | some c =>
    cases c with
    | zero => rfl
    | succ c =>
      simp only [atomic_succ, bind_done, bind_run, id]
      cases c with
      | zero => rfl
      | succ c =>
        simp only [atomic_succ, bind_done]
        rw [hfirst]
        exact writeLoop_loop item buf n _ _ _ (by omega)

/-- The block a write composes: the pages of the item are new, the others are those of the first
    block. -/
def composed (info : Info) (item : Nat) (buf : List UInt8) (s : SecSto) : Nat → Page :=
  cut info (newPage info item buf 4096 s) info.pageCnt

/-- The state when power fails after `c` operations of a write. -/
def lossState (info : Info) (item : Nat) (buf : List UInt8) (s : SecSto) (c : Nat) : SecSto :=
  if c = 0 then s
  else if c ≤ info.pageCnt + 1 then
    s.setBlock s.blk1 (cut info (newPage info item buf 4096 s) (c - 1))
  else (s.setBlock s.blk1 (composed info item buf s)).setBlock s.blk0
    (cut info (composed info item buf s) (c - (info.pageCnt + 2)))

theorem cut_cut {a : Nat → Page} {m n : Nat} (h : n ≤ m) :
    cut info (cut info a n) m = cut info a n := by
  funext p
  unfold cut
  by_cases hp : p < n
  · rw [if_pos (by omega)]
  · rw [if_neg hp, ite_self]

theorem composePage_steps (h : s.blk0 ≠ s.blk1) (item : Nat) (buf : List UInt8) (m : Nat) :
    steps (composePage info item buf) m 0 (s.eraseBlock info s.blk1) =
      s.setBlock s.blk1 (cut info (newPage info item buf 4096 s) m) :=
  steps_setPage info (fun _ _ => rfl)
    (newPage_setBlock h item buf) m

theorem write_run (hinit : s.initEnd = true) (item : Nat) (buf : List UInt8) (power : Option Nat) :
    awSpinandSecureStorageWrite info item buf 4096 s power =
      (writeLoop info item buf 4096 info.pageCnt 0 s power).bind
        (fun _ => do repairSecureStorage info 2; pure 0) := by
  have hlen : ¬ 4096 % 1024 ≠ 0 := by decide
  rw [awSpinandSecureStorageWrite, if_neg hlen, bind_run, observe_run, bind_done]
  simp only [id, hinit, if_true]
  rfl

theorem repair_first (power : Option Nat) :
    repairSecureStorage info 1 s power = copySingleBlock info s.blk0 s.blk1 s power := by
  rw [repairSecureStorage, bind_run, observe_run, bind_done, if_pos rfl]
  rfl

theorem repair_second (power : Option Nat) :
    repairSecureStorage info 2 s power = copySingleBlock info s.blk1 s.blk0 s power := by
  have hne : ¬ (2 : Int) = 1 := by decide
  rw [repairSecureStorage, bind_run, observe_run, bind_done, if_neg hne]
  rfl

theorem write_state (h : s.blk0 ≠ s.blk1) (hinit : s.initEnd = true) (item : Nat) (buf : List UInt8)
    (c : Nat) :
    (awSpinandSecureStorageWrite info item buf 4096 s (some c)).state =
      lossState info item buf s c := by
  rw [write_run hinit, writeLoop_eq h, bind_run, phyEraseBlock, lossState]
  cases c with
  | zero => rfl
  | succ c =>
    rw [atomic_succ, bind_done, loop_run, composePage_steps h, composePage_steps h,
      if_neg (Nat.succ_ne_zero c)]
    by_cases hc : info.pageCnt ≤ c
    · -- the block is composed: the copy runs on what power is left
      rw [if_pos hc, bind_done, bind_run, repair_second, setBlock_blk0, setBlock_blk1,
        copySingleBlock_run h.symm, setBlock_same]
      by_cases hc0 : c - info.pageCnt = 0
      · rw [if_pos hc0, bind_lost, state_lost, if_pos (by omega),
          show c + 1 - 1 = info.pageCnt by omega]
      have hlate : ¬ c + 1 ≤ info.pageCnt + 1 := by omega
      rw [if_neg hc0, if_neg hlate]
      by_cases hall : info.pageCnt + 1 ≤ c - info.pageCnt
      · rw [if_pos hall, bind_done, pure_run, state_done, composed, cut_cut le_rfl,
          cut_cut (by omega)]
      · rw [if_neg hall, bind_lost, state_lost, composed,
          show c + 1 - (info.pageCnt + 2) = c - info.pageCnt - 1 by omega]
    · rw [if_neg hc, bind_lost, state_lost, if_pos (by omega), Nat.add_sub_cancel]

variable (info) in
theorem write_done (h : s.blk0 ≠ s.blk1) (hinit : s.initEnd = true) (item : Nat)
    (buf : List UInt8) : awSpinandSecureStorageWrite info item buf 4096 s none =
      .done 0 ((s.setBlock s.blk1 (composed info item buf s)).setBlock s.blk0
        (composed info item buf s)) none := by
  rw [write_run hinit, writeLoop_eq h, bind_run, phyEraseBlock, atomic_none, bind_done, loop_none,
    composePage_steps h, bind_done, bind_run, repair_second, setBlock_blk0, setBlock_blk1,
    copySingleBlock_none info h.symm, setBlock_same, bind_done, pure_run, ← composed]
  rw [show cut info (composed info item buf s) info.pageCnt = composed info item buf s from
    cut_cut le_rfl]

theorem pageCheck_eq (p : Page) : pageCheck p = 0 ∨ pageCheck p = 1 := by
  unfold pageCheck
  split
  · exact .inr rfl
  · exact .inl rfl

/-- Both blocks pass their checks at a page. -/
def BothGood (a b : Nat → Page) (i : Nat) : Prop := pageCheck (a i) = 0 ∧ pageCheck (b i) = 0

/-- The loop stops at the first page where not both pass. -/
theorem checkLoop_cases (a b : Nat → Page) {n : Nat} (i : Nat) :
    ((∀ j, i ≤ j → j < i + n → BothGood a b j) ∧ checkLoop a b n i = (0, 0)) ∨
      ∃ f, f < i + n ∧ ¬ BothGood a b f ∧ (∀ j, i ≤ j → j < f → BothGood a b j) ∧
        checkLoop a b n i = (pageCheck (a f), pageCheck (b f)) := by
  induction n generalizing i with
  | zero => exact .inl ⟨fun j hij hj => absurd hj (by omega), rfl⟩
  | succ n ih =>
    rw [checkLoop]
    split_ifs with hstop
    · exact .inr ⟨i, by omega, not_and_or.mpr hstop, fun j hij hj => absurd hij (by omega), rfl⟩
    have hgood : BothGood a b i := by rwa [not_or, not_not, not_not] at hstop
    have hfrom : ∀ j, i ≤ j → (i + 1 ≤ j → BothGood a b j) → BothGood a b j := by
      intro j hij h
      rcases hij.eq_or_lt with rfl | hlt
      · exact hgood
      · exact h hlt
    rcases ih (i + 1) with ⟨hall, hret⟩ | ⟨f, hf, hbad, hbelow, hret⟩
    · exact .inl ⟨fun j hij hj => hfrom j hij fun h => hall j h (by omega), hret⟩
    · exact .inr ⟨f, by omega, hbad, fun j hij hj => hfrom j hij fun h => hbelow j h hj, hret⟩

/-- What `check_secure_storage` makes of the last two checks. -/
def verdictOf (ret : Int × Int) : Int :=
  if ret.1 = 0 ∧ ret.2 = 0 then 0
  else if ret.1 = 0 ∧ ret.2 ≠ 0 then 1
  else if ret.2 = 0 ∧ ret.1 ≠ 0 then 2
  else if ret.1 = 1 ∧ ret.2 = 1 then 0
  else -22

/-- The verdict of the check on two blocks. -/
def verdict (info : Info) (a b : Nat → Page) : Int := verdictOf (checkLoop a b info.pageCnt 0)

/-- The blocks after the check of a boot, by its verdict. -/
def repaired (info : Info) (a b : Nat → Page) (v : Int) : (Nat → Page) × (Nat → Page) :=
  if v = 1 then (a, cut info a info.pageCnt)
  else if v = 2 then (cut info b info.pageCnt, b)
  else (a, b)

/-- What a boot makes of two blocks. -/
def booted (info : Info) (a b : Nat → Page) : (Nat → Page) × (Nat → Page) :=
  if (a 0).magic ≠ secStoMagic ∧ (b 0).magic ≠ secStoMagic then (a, b)
  else repaired info a b (verdict info a b)

variable (info) in
theorem verdict_cases (a b : Nat → Page) :
    ((∀ i, i < info.pageCnt → BothGood a b i) ∧ verdict info a b = 0) ∨
      ∃ f, f < info.pageCnt ∧ ¬ BothGood a b f ∧ (∀ i, i < f → BothGood a b i) ∧
        verdict info a b = verdictOf (pageCheck (a f), pageCheck (b f)) := by
  unfold verdict
  rcases checkLoop_cases a b 0 with ⟨hall, hret⟩ | ⟨f, hf, hbad, hbelow, hret⟩
  · rw [hret]
    exact .inl ⟨fun i hi => hall i (Nat.zero_le i) (by omega), rfl⟩
  · rw [hret]
    exact .inr ⟨f, by omega, hbad, fun i hi => hbelow i (Nat.zero_le i) hi, rfl⟩

variable (info) in
theorem verdict_range {a b : Nat → Page} :
    verdict info a b = 0 ∨ verdict info a b = 1 ∨ verdict info a b = 2 := by
  rcases verdict_cases info a b with ⟨-, h⟩ | ⟨f, -, -, -, h⟩
  · exact .inl h
  · rw [h]
    rcases pageCheck_eq (a f) with hp | hp <;> rcases pageCheck_eq (b f) with hq | hq <;>
      simp [verdictOf, hp, hq]

variable (info) in
theorem checkAndRepair_done (h : s.blk0 ≠ s.blk1) :
    ∃ s', checkAndRepair info s none = .done 0 s' none ∧ s'.blk0 = s.blk0 ∧ s'.blk1 = s.blk1 ∧
      getBlocksForSecureStorage s' = getBlocksForSecureStorage s ∧
      (s'.page s.blk0, s'.page s.blk1) = booted info (s.page s.blk0) (s.page s.blk1) := by
  have hused : (!isSecureStorageBlock s s.blk0 0 && !isSecureStorageBlock s s.blk1 0) = true ↔
      (s.page s.blk0 0).magic ≠ secStoMagic ∧ (s.page s.blk1 0).magic ≠ secStoMagic := by
    simp [isSecureStorageBlock]
  rw [checkAndRepair, bind_run, observe_run, bind_done, booted]
  simp only [id, hused]
  split
  · exact ⟨s, rfl, rfl, rfl, rfl, rfl⟩
  have hcheck : checkSecureStorage info s = verdict info (s.page s.blk0) (s.page s.blk1) := rfl
  rcases verdict_range info with hv | hv | hv
  · rw [hcheck, hv]
    exact ⟨s, rfl, rfl, rfl, rfl, rfl⟩
  · -- the first block is copied over the second
    have hcopy := copySingleBlock_none info h s
    refine ⟨s.setBlock s.blk1 (cut info (s.page s.blk0) info.pageCnt), ?_, rfl, rfl, rfl, ?_⟩
    · rw [hcheck, hv, if_neg (by decide), if_pos (by decide), bind_run, repair_first, hcopy,
        bind_done]
      rfl
    · rw [hv, setBlock_same, setBlock_other h]
      rfl
  · -- and here the second over the first
    have hcopy := copySingleBlock_none info h.symm s
    refine ⟨s.setBlock s.blk0 (cut info (s.page s.blk1) info.pageCnt), ?_, rfl, rfl, rfl, ?_⟩
    · rw [hcheck, hv, if_neg (by decide), if_pos (by decide), bind_run, repair_second, hcopy,
        bind_done]
      rfl
    · rw [hv, setBlock_same, setBlock_other h.symm]
      rfl

variable (info) in
theorem init_done {a b : Nat} (hblk : getBlocksForSecureStorage s = some (a, b)) (h : a ≠ b) :
    ∃ s', initSecureStorage info s none = .done 0 s' none ∧ s'.initEnd = true ∧
      s'.blk0 = a ∧ s'.blk1 = b ∧ getBlocksForSecureStorage s' = some (a, b) ∧
      (s'.page a, s'.page b) = booted info (s.page a) (s.page b) := by
  rcases checkAndRepair_done info (s := { s with blk0 := a, blk1 := b }) h with
    ⟨s', hcheck, h0, h1, hget, hpages⟩
  refine ⟨{ s' with initEnd := true }, ?_, rfl, h0, h1, hget.trans hblk, hpages⟩
  rw [initSecureStorage, bind_run, observe_run, bind_done]
  simp only [id, hblk]
  rw [bind_run, modify, bind_done, bind_run, hcheck, bind_done]
  rfl

end

end Brandy.SpinandSec
