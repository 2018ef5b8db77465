import Brandy.Core.RawNand.Mtd

/-!
# Addresses and Pages of a Raw NAND

The shifts and masks of the driver are divisions and remainders: an address is in a page of the
device, and the page is on a chip.

## Main definitions

* `Config.chipPages`, `Config.pageRet`: The pages of a chip, and the code of a page read.

## Theorems

* `shift_page`, `shift_chip`: The page and the chip of an address.
* `readLoop_hit`, `readStep_miss`: A read with and without the page buffer.
-/

namespace Brandy.RawNand

/-- The number of pages of the device on one chip. -/
def Config.chipPages (cfg : Config) : Nat := 2 ^ (cfg.geometry.chipShift - cfg.simuPagesizeShift)

section

variable (cfg : Config)

theorem writesize_eq : cfg.writesize = 2 ^ cfg.simuPagesizeShift := by
  unfold Config.writesize
  rw [Nat.shiftLeft_eq, one_mul]

theorem blockPages_le : cfg.simuPagesizeShift + cfg.geometry.pagesPerBlkShift ≤
    cfg.geometry.chipShift := by
  unfold Config.simuPagesizeShift
  cases hmulti : cfg.simulateMultiplane with
  | true => exact cfg.planes hmulti
  | false => exact cfg.geometry.chipShift_spec.1

theorem pow_chipShift_eq : 2 ^ cfg.geometry.chipShift = cfg.chipPages * cfg.writesize := by
  have h := blockPages_le cfg
  unfold Config.chipPages
  rw [writesize_eq, ← pow_add]
  congr 1
  omega

theorem two_le_chipPages : 2 ≤ cfg.chipPages := by
  have h := blockPages_le cfg
  have hpages := cfg.geometry.pages_two
  calc 2 = 2 ^ 1 := rfl
    _ ≤ cfg.chipPages := Nat.pow_le_pow_right (by decide) (by omega)

theorem and_mask (page : Nat) : page &&& cfg.simuChipPagesMask = page % cfg.chipPages := by
  unfold Config.simuChipPagesMask Config.chipPages
  rw [Nat.shiftLeft_eq, one_mul, Nat.and_two_pow_sub_one_eq_mod]

theorem and_writesize (a : Nat) : a &&& (cfg.writesize - 1) = a % cfg.writesize := by
  rw [writesize_eq, Nat.and_two_pow_sub_one_eq_mod]

theorem shift_page (a : Nat) : a >>> cfg.simuPagesizeShift = a / cfg.writesize := by
  rw [writesize_eq, Nat.shiftRight_eq_div_pow]

theorem shift_chip (a : Nat) :
    a >>> cfg.geometry.chipShift = a / cfg.writesize / cfg.chipPages := by
  rw [Nat.shiftRight_eq_div_pow, pow_chipShift_eq, mul_comm, Nat.div_div_eq_div_mul]

theorem succ_div (n p : Nat) :
    (p + 1) / n = if (p + 1) % n = 0 then p / n + 1 else p / n := by
  rw [Nat.succ_div]
  split
  case isTrue h => rw [if_pos (Nat.mod_eq_zero_of_dvd h)]
  case isFalse h => rw [if_neg fun hc => h (Nat.dvd_of_mod_eq_zero hc), add_zero]

theorem nextChip_eq (page : Nat) :
    nextChip cfg (page / cfg.chipPages) page = (page + 1) / cfg.chipPages := by
  unfold nextChip
  rw [and_mask, succ_div]

theorem succ_mod_ne (page : Nat) : (page + 1) % cfg.chipPages ≠ page % cfg.chipPages := by
  intro heq
  have hone : 1 ≡ 0 [MOD cfg.chipPages] := Nat.ModEq.add_left_cancel' page heq
  have h := two_le_chipPages cfg
  rw [Nat.ModEq, Nat.zero_mod, Nat.mod_eq_of_lt (by omega)] at hone
  cases hone

/-- What the read of a page of the device returns. -/
def Config.pageRet (cfg : Config) (chip page : Nat) : Int :=
  if cfg.simulateMultiplane then
    if cfg.ready chip (cfg.pageA page) ∧ cfg.ready chip (cfg.pageB page) then
      cfg.status chip (cfg.pageB page)
    else -eio
  else if cfg.ready chip page then cfg.status chip page else -eio

end

section

variable {cfg : Config}

theorem readPage_ret (s : Nand cfg) (chip page : Nat) (mdata sdata : Buffer) :
    (readPage s chip page mdata sdata).ret = cfg.pageRet chip page := by
  unfold readPage Config.pageRet simuMultiReadPage chipReadPage
  cases cfg.simulateMultiplane with
  | false =>
    cases cfg.ready chip page with
    | false => rfl
    | true => rfl
  | true =>
    cases hA : cfg.ready chip (cfg.pageA page) with
    | false => simp
    | true =>
      cases hB : cfg.ready chip (cfg.pageB page) with
      | false => simp
      | true => simp

theorem readLoop_hit {k : Request} {r : Reading cfg} {chipnr page col len : Nat}
    (h : col < cfg.writesize)
    (hhit : hit k r.nand.cache (page &&& cfg.simuChipPagesMask) col len) :
    readLoop k r chipnr page col len h =
      { r.copy col len with maxBitflips := r.nand.cache.bitflips }.advance len := by
  have hlen : min (cfg.writesize - col) len = len := by
    have hvalid := r.nand.cache.valid_le
    have hend := hhit.2.2.2.1
    omega
  rw [readLoop]
  unfold readStep
  simp only [if_pos hhit, hlen, Nat.sub_self, if_true]

/-- What is known after a page that was read into the buffer without an error that ends the loop. -/
structure Filled (r r' : Reading cfg) (chipnr pageInChip col mlen : Nat) : Prop where
  ret : 0 ≤ r'.ret
  eccFailed : r'.eccFailed = (r.eccFailed || decide (cfg.pageRet chipnr pageInChip = eccErr))
  cell : r'.nand.cell = r.nand.cell
  simuPageno : r'.nand.cache.simuPageno = pageInChip
  chipno : r'.nand.cache.chipno = chipnr
  simuPagebuf : r'.nand.cache.simuPagebuf =
    (readPage r.nand chipnr pageInChip r.nand.cache.simuPagebuf r.nand.cache.simuOobbuf).mdata
  hadReadlen : r'.hadReadlen = r.hadReadlen
  mdata : r'.mdata = Buffer.memcpy r.mdata r.hadReadlen r'.nand.cache.simuPagebuf col mlen

theorem readStep_miss {k : Request} {r : Reading cfg} {page col len : Nat} (chipnr mlen : Nat)
    (h : col + mlen ≤ cfg.writesize)
    (hmiss : ¬ hit k r.nand.cache (page &&& cfg.simuChipPagesMask) col len) :
    (cfg.pageRet chipnr (page &&& cfg.simuChipPagesMask) < 0 ∧
        (readStep k r chipnr page col len mlen h).1 = false ∧
        (readStep k r chipnr page col len mlen h).2.ret =
          cfg.pageRet chipnr (page &&& cfg.simuChipPagesMask)) ∨
      (0 ≤ cfg.pageRet chipnr (page &&& cfg.simuChipPagesMask) ∧
        (readStep k r chipnr page col len mlen h).1 = true ∧
        Filled r (readStep k r chipnr page col len mlen h).2 chipnr
          (page &&& cfg.simuChipPagesMask) col mlen) := by
  unfold readStep
  simp only [if_neg hmiss, readPage_ret]
  by_cases hneg : cfg.pageRet chipnr (page &&& cfg.simuChipPagesMask) < 0
  · have hbreak : cfg.pageRet chipnr (page &&& cfg.simuChipPagesMask) ≠ eccLimit ∧
        cfg.pageRet chipnr (page &&& cfg.simuChipPagesMask) ≠ eccErr ∧
        cfg.pageRet chipnr (page &&& cfg.simuChipPagesMask) < 0 := by
      refine ⟨?_, ?_, hneg⟩ <;> intro heq <;> rw [heq] at hneg <;> exact absurd hneg (by decide)
    rw [if_pos hbreak]
    exact .inl ⟨hneg, rfl, rfl⟩
  · rw [if_neg fun hc => hneg hc.2.2]
    refine .inr ⟨by omega, rfl, ?_⟩
    refine ⟨?_, rfl, rfl, rfl, rfl, ?_, rfl, rfl⟩
    · simp only [Reading.copy]
      split
      · exact Int.natCast_nonneg _
      · omega
    · simp only [Reading.copy, Cache.tag]
      split
      · rfl
      · rfl

end

end Brandy.RawNand
