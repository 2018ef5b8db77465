import Mathlib.Tactic

/-!
# Geometry of a Raw NAND

The numbers that `aw_rawnand_chip_data_init` in `drivers/mtd/awnand/rawnand/aw_rawnand_base.c`
derives from an entry of the id table, for a device of up to four chips of the same kind.

The sizes of a page and of a block are powers of two, the number of blocks of a chip need not be one
(2128 and 4156 blocks). The chip is nevertheless given a shift, the position of the lowest bit set
in its size, or in the upper half of its size if it has more than 32 bits.

With `CONFIG_SIMULATE_MULTIPLANE` the pages at the same place of two neighbouring blocks are one
page of the `simu` chip, whose blocks have as many pages as before, twice as large.

## Main definitions

* `Geometry`: An entry of the table and the number of chips.
* `chipShift`, `simuEraseShift`, `chipBlocks`: What is derived from it.

## Theorems

* `chipShift_spec`: The shift of a chip lies between that of a block and its size.
* `chipBlocks_le`: The blocks below the shift are blocks of the chip.
-/

namespace Brandy.RawNand

/-- `ffs` of a number of 32 bits: the position of its lowest set bit, from one on. -/
def ffs (n : Nat) : Nat :=
  match (List.range 32).find? fun i => n.testBit i with
  | none => 0
  | some i => i + 1

/-- Chips of the same kind. Their pages are numbered by three bytes of a row address, and a block
    has more than one. -/
structure Geometry where
  /-- `pagesize_shift`. -/
  pagesizeShift : Nat
  /-- `pages_per_blk_shift`. -/
  pagesPerBlkShift : Nat
  /-- The blocks of a chip, over all its dies. -/
  blocks : Nat
  /-- `chips`. -/
  chips : Nat
  blocks_pos : 0 < blocks
  chips_pos : 0 < chips
  chips_le : chips ≤ 4
  pages_two : 1 ≤ pagesPerBlkShift
  shift_le : pagesizeShift + pagesPerBlkShift ≤ 30
  rows_le : blocks * 2 ^ pagesPerBlkShift ≤ 2 ^ 24

namespace Geometry

variable (g : Geometry)

def eraseShift : Nat := g.pagesizeShift + g.pagesPerBlkShift

def erasesize : Nat := 1 <<< g.eraseShift

def chipsize : Nat := g.blocks * 2 ^ g.pagesPerBlkShift * 2 ^ g.pagesizeShift

/-- `chip_shift`, and `simu_chip_shift`. -/
def chipShift : Nat :=
  if g.chipsize ≤ 0xffffffff then ffs g.chipsize - 1 else ffs (g.chipsize >>> 32) + 32 - 1

def pagesPerBlkMask : Nat := 1 <<< g.pagesPerBlkShift - 1

def chipPagesMask : Nat := 1 <<< (g.chipShift - g.pagesizeShift) - 1

/-- `simu_pagesize_shift` with simulated planes. -/
def simuPagesizeShift : Nat := g.pagesizeShift + 1

/-- `simu_erase_shift` with simulated planes. -/
def simuEraseShift : Nat := g.simuPagesizeShift + g.pagesPerBlkShift

/-- `simu_chip_pages_mask` with simulated planes. -/
def simuChipPagesMask : Nat := 1 <<< (g.chipShift - g.simuPagesizeShift) - 1

/-- The number of blocks that `chip_shift` stands for. -/
def chipBlocks : Nat := 2 ^ (g.chipShift - g.eraseShift)

end Geometry

/-- The lowest bit that is set divides the number, and the next power of two does not. -/
theorem ffs_spec {n : Nat} (hn : 0 < n) (hlt : n < 2 ^ 32) :
    0 < ffs n ∧ 2 ^ (ffs n - 1) ∣ n ∧ ∀ e, 2 ^ e ∣ n → e ≤ ffs n - 1 := by
  unfold ffs
  cases hfind : (List.range 32).find? fun i => n.testBit i with
  | none =>
    -- a number without bits is zero
    have hzero : n = 0 := by
      refine Nat.eq_of_testBit_eq fun i => ?_
      rw [Nat.zero_testBit]
      by_cases hi : i < 32
      · simpa using List.find?_eq_none.mp hfind i (List.mem_range.mpr hi)
      · exact Nat.testBit_lt_two_pow (hlt.trans_le (Nat.pow_le_pow_right (by decide) (by omega)))
    omega
  | some i =>
    obtain ⟨hbit, -, hbelow⟩ := List.find?_range_eq_some.mp hfind
    simp only [Nat.add_sub_cancel]
    refine ⟨Nat.succ_pos i, ?_, fun e he => ?_⟩
    · have hmod : n % 2 ^ i = 0 := by
        refine Nat.eq_of_testBit_eq fun j => ?_
        rw [Nat.zero_testBit, Nat.testBit_mod_two_pow]
        by_cases hj : j < i
        · simpa [hj] using hbelow j hj
        · simp [hj]
      exact Nat.dvd_of_mod_eq_zero hmod
    · by_contra hlt
      have hzero : n.testBit i = false := by
        obtain ⟨m, rfl⟩ := he
        rw [Nat.testBit_two_pow_mul]
        simp
        omega
      rw [hzero] at hbit
      cases hbit

namespace Geometry

variable (g : Geometry)

theorem chipsize_eq : g.chipsize = g.blocks * 2 ^ g.eraseShift := by
  unfold chipsize eraseShift
  rw [Nat.add_comm g.pagesizeShift, pow_add, Nat.mul_assoc]

theorem chipsize_pos : 0 < g.chipsize := by
  rw [chipsize_eq]
  exact Nat.mul_pos g.blocks_pos (by positivity)

theorem chipsize_le : g.chipsize ≤ 2 ^ 54 := by
  have hpage : 2 ^ g.pagesizeShift ≤ 2 ^ 30 :=
    Nat.pow_le_pow_right (by decide) (by have := g.shift_le; omega)
  calc g.chipsize ≤ 2 ^ 24 * 2 ^ 30 := Nat.mul_le_mul g.rows_le hpage
    _ = 2 ^ 54 := by decide

/-- The shift of a chip is at least that of a block, and its power at most the size of the chip. -/
theorem chipShift_spec : g.eraseShift ≤ g.chipShift ∧ 2 ^ g.chipShift ≤ g.chipsize := by
  have hpos := g.chipsize_pos
  have hle := g.chipsize_le
  have hshift : g.eraseShift ≤ 30 := g.shift_le
  unfold chipShift
  by_cases hsmall : g.chipsize ≤ 0xffffffff
  · rw [if_pos hsmall]
    obtain ⟨-, hdvd, hmax⟩ := ffs_spec hpos (by omega)
    exact ⟨hmax _ (g.chipsize_eq ▸ Dvd.intro_left _ rfl), Nat.le_of_dvd hpos hdvd⟩
  rw [if_neg hsmall, Nat.shiftRight_eq_div_pow]
  have hhigh : 0 < g.chipsize / 2 ^ 32 := by omega
  obtain ⟨hffs, hdvd, -⟩ := ffs_spec hhigh (by omega)
  refine ⟨by omega, ?_⟩
  calc 2 ^ (ffs (g.chipsize / 2 ^ 32) + 32 - 1)
      = 2 ^ (ffs (g.chipsize / 2 ^ 32) - 1) * 2 ^ 32 := by
        rw [← pow_add]
        congr 1
        omega
    _ ≤ g.chipsize / 2 ^ 32 * 2 ^ 32 := Nat.mul_le_mul_right _ (Nat.le_of_dvd hhigh hdvd)
    _ ≤ g.chipsize := Nat.div_mul_le_self _ _

theorem chipBlocks_pos : 0 < g.chipBlocks := by
  unfold chipBlocks
  positivity

theorem pow_chipShift : 2 ^ g.chipShift = g.chipBlocks * 2 ^ g.eraseShift := by
  unfold chipBlocks
  rw [← pow_add, Nat.sub_add_cancel g.chipShift_spec.1]

theorem chipBlocks_le : g.chipBlocks ≤ g.blocks := by
  have h := g.chipShift_spec.2
  rw [pow_chipShift, chipsize_eq] at h
  exact Nat.le_of_mul_le_mul_right h (by positivity)

end Geometry

end Brandy.RawNand
