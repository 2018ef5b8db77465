import Brandy.Core.RawNand.Bbt

/-!
# What a Scan for Bad Blocks Does to the Blocks

`aw_rawnand_chip_scan_bbt` erases and marks the bad blocks of every chip. But the table it fills is
indexed by the number of a block on its chip. For the second chip it already has an answer to every
question, the one for the first chip. So the blocks of the other chips are never looked at, and they
are erased where the first chip has a bad block.

On the first chip a block is judged by its own marks, with two exceptions. A mark in the second page
of a block is seen and then forgotten, and if the position of the marks is unknown every block is
taken for a bad one.

## Main definitions

* `MarkedBad`, `Judged`: A block is marked bad, and one is taken for a bad one.
* `ScanAt`: The invariant of the scan.
* `ScanHarmless`: Only blocks that are bad on their own chip were erased.

## Theorems

* `blockBad_iff_marked`, `marked_survives`: The marks that are found, and that last.
* `scanBlock_scanAt`: What one block keeps.
* `scanHarmless_iff`: When the scan does what it should.
-/

namespace Brandy.RawNand

open List

variable {block : Nat}

section

variable (w : BbtWorld)

/-- A page that cannot be read, or with another first spare byte than an erased one. -/
def PageBad (chip page : Nat) : Prop :=
  (w.read [] chip page).1 = eccErr ∨ (w.read [] chip page).1 < 0 ∨ (w.read [] chip page).2 ≠ 0xff

/-- A block of a chip is marked bad, or a page that would hold its mark cannot be read. -/
def MarkedBad (chip block : Nat) : Prop := ∃ page ∈ markWrites w block, PageBad w chip page

/-- The pages whose mark counts. -/
def countedPages (block : Nat) : List Nat :=
  match w.markPos with
  | .firstTwoPages => [firstPage w block]
  | .firstTwoAndLastPages => [firstPage w block, lastPage w block]
  | .other => []
  | _ => markWrites w block

/-- A block is taken for a bad one by its pages, as they are read after some operations. -/
def Seen (ops : List Op) (chip block : Nat) : Prop :=
  (∃ page ∈ markWrites w block, (w.read ops chip page).1 = eccErr) ∨
    ∃ page ∈ countedPages w block, (w.read ops chip page).2 ≠ 0xff

/-- A block is taken for a bad one by its pages on the first chip. -/
def Judged (block : Nat) : Prop :=
  w.markPos = .other ∨ (∃ page ∈ markWrites w block, (w.read [] 0 page).1 = eccErr) ∨
    ∃ page ∈ countedPages w block, (w.read [] 0 page).2 ≠ 0xff

/-- Only blocks that are bad on their own chip were erased or written, and the table answers bad for
    exactly these, by their device numbers. -/
def ScanHarmless (s : BbtState) : Prop :=
  (∀ op ∈ s.ops, MarkedBad w op.chip (op.block w.geometry)) ∧
    ∀ chip < w.geometry.chips, ∀ block < w.geometry.blocks,
      (checkBadblockBbt s.table (chip * w.geometry.blocks + block) = bbtBBad ↔
        MarkedBad w chip block)

theorem pages_pos : 2 ≤ 2 ^ w.geometry.pagesPerBlkShift := by
  calc 2 = 2 ^ 1 := rfl
    _ ≤ 2 ^ w.geometry.pagesPerBlkShift := Nat.pow_le_pow_right (by decide) w.geometry.pages_two

theorem block_of_mem_markWrites {page : Nat} (h : page ∈ markWrites w block) :
    page / 2 ^ w.geometry.pagesPerBlkShift = block := by
  have hpages := pages_pos w
  have hfirst : firstPage w block = block * 2 ^ w.geometry.pagesPerBlkShift := Nat.shiftLeft_eq _ _
  have hlast : lastPage w block =
      block * 2 ^ w.geometry.pagesPerBlkShift + (2 ^ w.geometry.pagesPerBlkShift - 1) := by
    unfold lastPage Geometry.pagesPerBlkMask
    rw [Nat.shiftLeft_eq, Nat.shiftLeft_eq, one_mul]
  have hrange : block * 2 ^ w.geometry.pagesPerBlkShift ≤ page ∧
      page < block * 2 ^ w.geometry.pagesPerBlkShift + 2 ^ w.geometry.pagesPerBlkShift := by
    unfold markWrites at h
    cases hpos : w.markPos <;> simp only [hpos, mem_cons, not_mem_nil, or_false] at h <;>
      omega
  exact Nat.div_eq_of_lt_le hrange.1 (by rw [Nat.succ_mul]; exact hrange.2)

variable {ops : List Op}

theorem of_mem_markOps {chip : Nat} {op : Op} (h : op ∈ markOps w chip ops block) :
    op.chip = chip ∧ op.block w.geometry = block := by
  unfold markOps at h
  simp only at h
  split_ifs at h
  · cases h
  · rcases mem_cons.mp h with rfl | h
    · exact ⟨rfl, rfl⟩
    · obtain ⟨page, hpage, rfl⟩ := List.mem_map.mp h
      exact ⟨rfl, block_of_mem_markWrites w hpage⟩
  · rw [mem_singleton.mp h]
    exact ⟨rfl, rfl⟩

theorem erase_mem_markOps {chip : Nat} (ops : List Op) (hblock : block < w.geometry.blocks) :
    .erase chip block ∈ markOps w chip ops block := by
  have hbound : ¬ (w.geometry.chips * w.geometry.chipsize) >>> w.geometry.eraseShift < block := by
    rw [Nat.shiftRight_eq_div_pow, Geometry.chipsize_eq, ← mul_assoc,
      Nat.mul_div_cancel _ (by positivity)]
    have := Nat.le_mul_of_pos_left w.geometry.blocks w.geometry.chips_pos
    omega
  unfold markOps
  simp only [if_neg hbound]
  split
  · exact mem_cons_self
  · exact mem_singleton_self _

/-- The verdict that goes with a condition. -/
def verdict (p : Prop) [Decidable p] : Nat := if p then bbtBBad else bbtBGood

theorem verdict_or (p q : Prop) [Decidable p] [Decidable q] :
    (if verdict p = bbtBBad then bbtBBad else verdict q) = verdict (p ∨ q) := by
  unfold verdict
  by_cases hp : p
  · simp [hp]
  · simp [hp, bbtBBad, bbtBGood]

theorem verdict_cases {j p : Prop} [Decidable p] (h : j ↔ p) :
    (j ∧ some (verdict p) = some bbtBBad) ∨ (¬ j ∧ some (verdict p) = some bbtBGood) := by
  unfold verdict
  rw [h]
  by_cases hp : p
  · exact .inl ⟨hp, by rw [if_pos hp]⟩
  · exact .inr ⟨hp, by rw [if_neg hp]⟩

theorem checkPage_eq (ops : List Op) (chip page : Nat) :
    checkPage w ops chip page =
      verdict ((w.read ops chip page).1 = eccErr ∨ (w.read ops chip page).2 ≠ 0xff) := by
  unfold checkPage verdict
  by_cases hecc : (w.read ops chip page).1 = eccErr
  · rw [if_neg (not_not.mpr hecc), if_pos (.inl hecc)]
  · rw [if_pos hecc]
    exact if_congr (by simp [hecc]) rfl rfl

theorem checkFirstTwoPages_eq (ops : List Op) (chip block : Nat) :
    checkFirstTwoPages w ops chip block =
      verdict (((w.read ops chip (firstPage w block)).1 = eccErr ∨
          (w.read ops chip (firstPage w block)).2 ≠ 0xff) ∨
        (w.read ops chip (firstPage w block + 1)).1 = eccErr) := by
  rw [← verdict_or, ← checkPage_eq]
  unfold checkFirstTwoPages verdict
  simp only [ne_eq, ite_not]
  rfl

theorem checkMarks_eq {chip block : Nat} (hpos : w.markPos ≠ .other) :
    (Seen w ops chip block ∧ checkMarks w ops chip block = some bbtBBad) ∨
      (¬ Seen w ops chip block ∧ checkMarks w ops chip block = some bbtBGood) := by
  unfold checkMarks checkFirstTwoAndLastPages checkFirstAndLastPages checkLastTwoPages
    checkLastPage
  simp only [checkFirstTwoPages_eq, checkFirstPage, checkPage_eq, verdict_or]
  unfold Seen countedPages markWrites
  cases h : w.markPos with
  | other => exact absurd h hpos
  | _ =>
    simp only [mem_cons, not_mem_nil, or_false, exists_eq_or_imp, exists_eq_left]
    refine verdict_cases ?_
    simp only [or_assoc, or_comm, or_left_comm]

theorem countedPages_subset {block : Nat} : countedPages w block ⊆ markWrites w block := by
  unfold countedPages markWrites
  cases w.markPos <;> simp

theorem checkMarks_iff
    (hops : ∀ op ∈ ops, ¬ (op.chip = 0 ∧ op.block w.geometry = block)) :
    (Judged w block ∧
        (checkMarks w ops 0 block = none ∨ checkMarks w ops 0 block = some bbtBBad)) ∨
      (¬ Judged w block ∧ checkMarks w ops 0 block = some bbtBGood) := by
  by_cases hpos : w.markPos = .other
  · exact .inl ⟨.inl hpos, .inl (by rw [checkMarks, hpos])⟩
  have hread : ∀ page ∈ markWrites w block, w.read ops 0 page = w.read [] 0 page := by
    intro page hpage
    refine w.read_frame ops 0 page fun op hop => ?_
    rw [block_of_mem_markWrites w hpage]
    exact hops op hop
  have hjudged : Judged w block ↔ Seen w ops 0 block := by
    refine (or_iff_right hpos).trans (or_congr ?_ ?_)
    · exact exists_congr fun page => and_congr_right fun hpage => by rw [hread page hpage]
    · exact exists_congr fun page => and_congr_right fun hpage => by
        rw [hread page (countedPages_subset w hpage)]
  rw [hjudged]
  exact (checkMarks_eq w hpos).imp_left (And.imp_right .inr)

variable {w} {chip : Nat} {s : BbtState}

theorem blockBad_iff_seen (hpos : w.markPos ≠ .other) (hunknown : s.table.bbtd.get block = false) :
    (blockBad w chip s block).1 = bbtBBad ↔ Seen w s.ops chip block := by
  unfold blockBad checkBadblockBbt
  simp only [hunknown, Bool.false_eq_true, if_false]
  rcases checkMarks_eq w hpos with ⟨hseen, hbad⟩ | ⟨hseen, hgood⟩
  · rw [hbad]
    exact iff_of_true rfl hseen
  · rw [hgood]
    exact iff_of_false (show ¬ bbtBGood = bbtBBad by decide) hseen

/-- A block that the table does not know is taken for bad by a mark, or a checksum error, on one of
    its pages. -/
theorem blockBad_iff_marked (hpos : w.markPos ≠ .other)
    (hunknown : s.table.bbtd.get block = false) :
    ((blockBad w chip s block).1 = bbtBBad ↔ ∃ page ∈ markWrites w block,
        (w.read s.ops chip page).1 = eccErr ∨ (w.read s.ops chip page).2 ≠ 0xff) ↔
      (w.markPos = .firstTwoPages ∨ w.markPos = .firstTwoAndLastPages →
        (w.read s.ops chip (firstPage w block + 1)).2 ≠ 0xff →
          (∃ page ∈ markWrites w block, (w.read s.ops chip page).1 = eccErr) ∨
            ∃ page ∈ countedPages w block, (w.read s.ops chip page).2 ≠ 0xff) := by
  rw [blockBad_iff_seen hpos hunknown]
  unfold Seen countedPages markWrites
  cases h : w.markPos with
  | other => exact absurd h hpos
  | _ =>
    simp only [mem_cons, not_mem_nil, or_false, exists_eq_or_imp, exists_eq_left,
      reduceCtorEq]
    grind

/-- A page that counts, was written without an error and not again keeps the mark. -/
theorem seen_of_stored {w : MarkWorld} {before after : List Nat} {page : Nat}
    (hwrites : markWrites w.toBbtWorld block = before ++ page :: after)
    (hcounted : page ∈ countedPages w.toBbtWorld block) (hafter : page ∉ after)
    (hret : w.writeRet (ops ++ .erase chip block :: before.map (.write chip)) chip page = 0) :
    Seen w.toBbtWorld
      (ops ++ .erase chip block :: (markWrites w.toBbtWorld block).map (.write chip))
        chip block := by
  have hstored := w.stored _ chip page (after.map (.write chip)) hret (by
    intro op hop
    obtain ⟨q, hq, rfl⟩ := List.mem_map.mp hop
    refine ⟨?_, nofun⟩
    rintro ⟨⟩
    exact hafter hq)
  refine .inr ⟨page, hcounted, ?_⟩
  rw [hwrites, map_append, map_cons, ← cons_append, ← append_assoc, hstored]
  decide

/-- A mark that was written without an error is found again when the tables are new. -/
theorem marked_survives {w : MarkWorld} (hpos : w.markPos ≠ .other)
    (hret : blockMarkbadRet w chip s.ops block = 0) :
    (blockBad w.toBbtWorld chip
      ⟨initialBbt.table, (blockMarkbad w.toBbtWorld chip s block).ops⟩ block).1 = bbtBBad := by
  rw [blockBad_iff_seen hpos (Bitmap.get_empty block)]
  unfold blockMarkbadRet at hret
  simp only at hret
  split_ifs at hret with hbound herase
  · exact absurd hret (by decide)
  · have hops : (blockMarkbad w.toBbtWorld chip s block).ops =
        s.ops ++ .erase chip block :: (markWrites w.toBbtWorld block).map (.write chip) := by
      simp only [blockMarkbad, markOps, if_neg hbound, if_pos herase]
    simp only [hops]
    cases h : w.markPos with
    | other => exact absurd h hpos
    | firstTwoPages =>
      -- the second page does not count
      simp only [h] at hret
      exact seen_of_stored (by rw [markWrites, h]; rfl) (by rw [countedPages, h]; simp)
        (by simp) (BitVec.or_eq_zero_iff.mp hret).1
    | lastTwoPages =>
      simp only [h] at hret
      exact seen_of_stored (by rw [markWrites, h]; rfl) (by simp [countedPages, markWrites, h])
        (by simp) (BitVec.or_eq_zero_iff.mp hret).2
    | _ =>
      -- the code is that of the last page that is written
      simp only [h] at hret
      exact seen_of_stored (by rw [markWrites, h]; rfl) (by simp [countedPages, markWrites, h])
        (by simp) hret
  · exact absurd hret (by decide)

end

/-- The scan has come to a block of a chip. The table knows the blocks of the first chip seen so
    far, and on every chip the blocks taken for bad have been marked. -/
structure ScanAt (w : BbtWorld) (chip block : Nat) (s : BbtState) : Prop where
  bbtd : ∀ i, s.table.bbtd.get i = true ↔ i < if chip = 0 then block else w.geometry.blocks
  bbt : ∀ i, s.table.bbtd.get i = true → (s.table.bbt.get i = true ↔ Judged w i)
  ops : ∀ op ∈ s.ops, Judged w (op.block w.geometry) ∧ op.block w.geometry < w.geometry.blocks ∧
    (op.chip < chip ∨ op.chip = chip ∧ op.block w.geometry < block)
  erased : ∀ c b, b < w.geometry.blocks → (c < chip ∨ c = chip ∧ b < block) → Judged w b →
    .erase c b ∈ s.ops

theorem get_updateBbt_of_ne (t : Table) (flag : Nat) {i : Nat} (h : i ≠ block) :
    (updateBbt t block flag).bbtd.get i = t.bbtd.get i ∧
      (updateBbt t block flag).bbt.get i = t.bbt.get i := by
  have hne : decide (block = i) = false := decide_eq_false (Ne.symm h)
  unfold updateBbt
  refine ⟨by rw [Bitmap.get_set, hne, Bool.or_false], ?_⟩
  split
  · rw [Bitmap.get_clear, hne, Bool.not_false, Bool.and_true]
  · rw [Bitmap.get_set, hne, Bool.or_false]

section

variable {w : BbtWorld} {chip block : Nat} {s : BbtState}

section

variable (h : ScanAt w chip block s) (hblock : block < w.geometry.blocks)
include h hblock

/-- Whatever the table knew, the verdict on a block is that on the block of the first chip. The
    table knows it then, and nothing is done to the chips. -/
theorem blockBad_of_scanAt :
    ((blockBad w chip s block).1 ≠ 0 ↔ Judged w block) ∧
      (blockBad w chip s block).2.ops = s.ops ∧
      ∀ i ≠ block, (blockBad w chip s block).2.table.bbtd.get i = s.table.bbtd.get i ∧
        (blockBad w chip s block).2.table.bbt.get i = s.table.bbt.get i := by
  unfold blockBad checkBadblockBbt
  cases hknown : s.table.bbtd.get block with
  | true =>
    have hbad := h.bbt block hknown
    cases hbit : s.table.bbt.get block with
    | true => simp [bbtBBad, bbtBGood, hbad.mp hbit]
    | false =>
      have hgood : ¬ Judged w block := fun hj => by
        rw [hbad.mpr hj] at hbit
        cases hbit
      simp [bbtBGood, hgood]
  | false =>
    -- only the first chip has blocks that the table does not know
    have hchip : chip = 0 := by
      by_contra hne
      have hlt := (h.bbtd block).mpr (by rw [if_neg hne]; exact hblock)
      rw [hknown] at hlt
      cases hlt
    subst hchip
    have hops : ∀ op ∈ s.ops, ¬ (op.chip = 0 ∧ op.block w.geometry = block) := by
      intro op hop
      have := (h.ops op hop).2.2
      omega
    simp only [Bool.false_eq_true, if_false]
    rcases checkMarks_iff w hops with ⟨hj, hnone | hbad⟩ | ⟨hj, hgood⟩
    · rw [hnone]
      exact ⟨iff_of_true (show bbtBInvalid ≠ 0 by decide) hj, rfl, fun i _ => ⟨rfl, rfl⟩⟩
    · rw [hbad]
      exact ⟨iff_of_true (show bbtBBad ≠ 0 by decide) hj, rfl,
        fun i hi => get_updateBbt_of_ne _ _ hi⟩
    · rw [hgood]
      exact ⟨iff_of_false (show ¬ bbtBGood ≠ 0 by decide) hj, rfl,
        fun i hi => get_updateBbt_of_ne _ _ hi⟩

theorem table_scanBlock (i : Nat) :
    ((scanBlock w chip s block).table.bbtd.get i = true ↔ i = block ∨ s.table.bbtd.get i = true) ∧
      (i = block → ((scanBlock w chip s block).table.bbt.get i = true ↔ Judged w block)) ∧
      (i ≠ block → (scanBlock w chip s block).table.bbt.get i = s.table.bbt.get i) := by
  obtain ⟨hverdict, -, hother⟩ := blockBad_of_scanAt h hblock
  unfold scanBlock
  by_cases hj : Judged w block
  · simp only [if_pos (hverdict.mpr hj), blockMarkbad, updateBbt]
    rw [if_neg (by decide)]
    by_cases hi : i = block
    · simp [hi, Bitmap.get_set, hj]
    · simp [hi, Ne.symm hi, Bitmap.get_set, hother i hi]
  · simp only [if_neg (mt hverdict.mp hj)]
    by_cases hi : i = block
    · simp [hi, Bitmap.get_set, Bitmap.get_clear, hj]
    · simp [hi, Ne.symm hi, Bitmap.get_set, Bitmap.get_clear, hother i hi]

theorem ops_scanBlock :
    (Judged w block ∧ (scanBlock w chip s block).ops = s.ops ++ markOps w chip s.ops block) ∨
      (¬ Judged w block ∧ (scanBlock w chip s block).ops = s.ops) := by
  obtain ⟨hverdict, hops, -⟩ := blockBad_of_scanAt h hblock
  unfold scanBlock
  by_cases hj : Judged w block
  · refine .inl ⟨hj, ?_⟩
    simp only [if_pos (hverdict.mpr hj), blockMarkbad, hops]
  · refine .inr ⟨hj, ?_⟩
    simp only [if_neg (mt hverdict.mp hj), hops]

theorem scanBlock_scanAt :
    ScanAt w chip (block + 1) (scanBlock w chip s block) where
  bbtd := by
    intro i
    rw [(table_scanBlock h hblock i).1, h.bbtd]
    split <;> omega
  bbt := by
    intro i hi
    obtain ⟨hbbtd, hself, hne⟩ := table_scanBlock h hblock i
    by_cases hib : i = block
    · rw [hself hib, hib]
    · rw [hne hib]
      exact h.bbt i ((hbbtd.mp hi).resolve_left hib)
  ops := by
    intro op hop
    rcases ops_scanBlock h hblock with ⟨hj, heq⟩ | ⟨-, heq⟩
    · rw [heq] at hop
      rcases mem_append.mp hop with hop | hop
      · obtain ⟨hjop, hlt, hpos⟩ := h.ops op hop
        exact ⟨hjop, hlt, by omega⟩
      · obtain ⟨hchip, hb⟩ := of_mem_markOps w hop
        rw [hb]
        exact ⟨hj, hblock, by omega⟩
    · rw [heq] at hop
      obtain ⟨hjop, hlt, hpos⟩ := h.ops op hop
      exact ⟨hjop, hlt, by omega⟩
  erased := by
    intro c b hb hpos hjb
    by_cases hnew : c = chip ∧ b = block
    · obtain ⟨rfl, rfl⟩ := hnew
      rcases ops_scanBlock h hblock with ⟨-, heq⟩ | ⟨hj, -⟩
      · rw [heq]
        exact mem_append_right _ (erase_mem_markOps w _ hblock)
      · exact absurd hjb hj
    · have hold := h.erased c b hb (by omega) hjb
      rcases ops_scanBlock h hblock with ⟨-, heq⟩ | ⟨-, heq⟩
      · rw [heq]
        exact mem_append_left _ hold
      · rwa [heq]

end

theorem scanChip_scanAt (h : ScanAt w chip 0 s) : ScanAt w (chip + 1) 0 (scanChip w s chip) := by
  have hrun : ∀ n ≤ w.geometry.blocks,
      ScanAt w chip n ((List.range n).foldl (scanBlock w chip) s) := by
    intro n
    induction n with
    | zero => exact fun _ => h
    | succ n ih =>
      intro hn
      rw [range_succ, foldl_append]
      exact scanBlock_scanAt (ih (by omega)) (by omega)
  have hall := hrun _ le_rfl
  have htotal : w.geometry.chipsize >>> w.geometry.eraseShift = w.geometry.blocks := by
    rw [Nat.shiftRight_eq_div_pow, Geometry.chipsize_eq, Nat.mul_div_cancel _ (by positivity)]
  unfold scanChip
  rw [htotal]
  refine ⟨fun i => ?_, hall.bbt, fun op hop => ?_, fun c b hb hpos hjb => ?_⟩
  · rw [hall.bbtd, if_neg (Nat.succ_ne_zero chip)]
    split <;> rfl
  · obtain ⟨hj, hlt, hpos⟩ := hall.ops op hop
    exact ⟨hj, hlt, by omega⟩
  · exact hall.erased c b hb (by omega) hjb

theorem scanAt_scanBbt (w : BbtWorld) : ScanAt w w.geometry.chips 0 (scanBbt w) := by
  have hinit : ScanAt w 0 0 initialBbt := by
    refine ⟨fun i => ?_, fun i hi => ?_, fun op hop => ?_, fun c b hb hpos => ?_⟩
    · rw [if_pos rfl]
      simp [initialBbt, Bitmap.get_empty]
    · simp [initialBbt, Bitmap.get_empty] at hi
    · cases hop
    · omega
  have hrun : ∀ n, ScanAt w n 0 ((List.range n).foldl (scanChip w) initialBbt) := by
    intro n
    induction n with
    | zero => exact hinit
    | succ n ih =>
      rw [range_succ, foldl_append]
      exact scanChip_scanAt ih
  exact hrun _

end

/-- The scan does what it should exactly when the verdict on every block of the first chip is right
    and on other chips no block is bad or taken for bad. -/
theorem scanHarmless_iff (w : BbtWorld) :
    ScanHarmless w (scanBbt w) ↔
      (∀ block < w.geometry.blocks, Judged w block ↔ MarkedBad w 0 block) ∧
        ∀ chip < w.geometry.chips, chip ≠ 0 → ∀ block < w.geometry.blocks,
          ¬ Judged w block ∧ ¬ MarkedBad w chip block := by
  have h := scanAt_scanBbt w
  have hchips := w.geometry.chips_pos
  have hanswer : ∀ i, checkBadblockBbt (scanBbt w).table i = bbtBBad ↔
      i < w.geometry.blocks ∧ Judged w i := by
    intro i
    have hknown := h.bbtd i
    rw [if_neg (by omega)] at hknown
    unfold checkBadblockBbt
    split_ifs with hi hbit
    · exact iff_of_true rfl ⟨hknown.mp hi, (h.bbt i hi).mp hbit⟩
    · exact iff_of_false (by decide) fun hc => hbit ((h.bbt i hi).mpr hc.2)
    · exact iff_of_false (by decide) fun hc => hi (hknown.mpr hc.1)
  constructor
  · rintro ⟨hops, htable⟩
    refine ⟨fun block hblock => ?_, fun chip hchip hne block hblock => ?_⟩
    · rw [← htable 0 hchips block hblock, hanswer, zero_mul, zero_add]
      exact ⟨fun hj => ⟨hblock, hj⟩, And.right⟩
    · -- the table has no answer for the blocks of the other chips
      have hmarked : ¬ MarkedBad w chip block := by
        rw [← htable chip hchip block hblock, hanswer]
        have := Nat.le_mul_of_pos_left w.geometry.blocks (Nat.pos_of_ne_zero hne)
        omega
      refine ⟨fun hj => hmarked ?_, hmarked⟩
      exact hops _ (h.erased chip block hblock (.inl hchip) hj)
  · rintro ⟨hfirst, hothers⟩
    refine ⟨fun op hop => ?_, fun chip hchip block hblock => ?_⟩
    · obtain ⟨hj, hlt, hpos⟩ := h.ops op hop
      by_cases hzero : op.chip = 0
      · rw [hzero]
        exact (hfirst _ hlt).mp hj
      · exact absurd hj (hothers op.chip (by omega) hzero _ hlt).1
    · rw [hanswer]
      by_cases hzero : chip = 0
      · rw [hzero, zero_mul, zero_add, ← hfirst block hblock]
        exact ⟨And.right, fun hj => ⟨hblock, hj⟩⟩
      · have := Nat.le_mul_of_pos_left w.geometry.blocks (Nat.pos_of_ne_zero hzero)
        exact iff_of_false (by omega) (hothers chip hchip hzero block hblock).2

/-- Two chips of eight blocks. The first page of block 3 of the first chip is marked, and nothing
    else is. -/
def oneMark : BbtWorld where
  geometry :=
    { pagesizeShift := 11
      pagesPerBlkShift := 6
      blocks := 8
      chips := 2
      blocks_pos := by decide
      chips_pos := by decide
      chips_le := by decide
      pages_two := by decide
      shift_le := by decide
      rows_le := by decide }
  markPos := .firstPage
  read := fun _ chip page => (0, if chip = 0 ∧ page = 3 * 64 then 0 else 0xff)
  eraseOk := fun _ _ _ => true
  read_frame := fun _ _ _ _ => rfl

/-- Block 3 of the second chip is erased, although it is good. -/
theorem scanBbt_erases_good :
    .erase 1 3 ∈ (scanBbt oneMark).ops ∧ ¬ MarkedBad oneMark 1 3 := by
  constructor
  · refine (scanAt_scanBbt oneMark).erased 1 3 (by decide) (.inl (by decide)) ?_
    exact .inr (.inr ⟨3 * 64, by decide, by decide⟩)
  · rintro ⟨page, -, hbad⟩
    unfold PageBad oneMark at hbad
    simp [eccErr] at hbad

/-- The same chips with the mark in the second page of the block. -/
def secondMark : BbtWorld :=
  { oneMark with
    markPos := .firstTwoPages
    read := fun _ _ page => (0, if page = 3 * 64 + 1 then 0 else 0xff)
    read_frame := fun _ _ _ _ => rfl }

/-- The mark is in one of the two pages for it, and the block is taken for a good one. -/
theorem secondMark_missed : (∃ page ∈ markWrites secondMark 3, (secondMark.read [] 0 page).2 = 0) ∧
    (blockBad secondMark 0 initialBbt 3).1 = bbtBGood := by
  refine ⟨⟨3 * 64 + 1, by decide, by decide⟩, ?_⟩
  decide +kernel

/-- The same chips with marks in the second and in the last page of the block. -/
def lastMark : BbtWorld :=
  { oneMark with
    markPos := .firstTwoAndLastPages
    read := fun _ _ page => (0, if page = 3 * 64 + 1 ∨ page = 3 * 64 + 63 then 0 else 0xff)
    read_frame := fun _ _ _ _ => rfl }

/-- Here the block is found by its last page. -/
theorem blockBad_lastMark : (blockBad lastMark 0 initialBbt 3).1 = bbtBBad := by
  refine ((blockBad_iff_marked (by decide) (Bitmap.get_empty 3)).mpr fun _ _ => ?_).mpr ?_
  · exact .inr ⟨3 * 64 + 63, by decide, by decide⟩
  · exact ⟨3 * 64 + 1, by decide, by decide⟩

/-- The same chips without marks, which keep those written to the first two pages and the last
    one. -/
def keepsMarks : MarkWorld :=
  { oneMark with
    markPos := .firstTwoAndLastPages
    read := fun ops chip page => (0, if .write chip page ∈ ops then 0 else 0xff)
    writeRet := fun _ _ _ => 0
    read_frame := by
      intro ops chip page hframe
      have hnot : .write chip page ∉ ops := fun hmem => hframe _ hmem ⟨rfl, rfl⟩
      simp [hnot]
    stored := by
      intro ops chip page later _ _
      simp }

theorem keepsMarks_survives : (blockBad keepsMarks.toBbtWorld 0
    ⟨initialBbt.table, (blockMarkbad keepsMarks.toBbtWorld 0 initialBbt 3).ops⟩ 3).1 = bbtBBad :=
  marked_survives (by decide) (by decide +kernel)

end Brandy.RawNand
