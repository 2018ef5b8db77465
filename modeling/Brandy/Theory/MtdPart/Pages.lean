import Brandy.Core.MtdPart

/-!
# Writing Pages of a Raw Partition

What the page loop of `write_mtd_part` leaves on the chip. Programming clears bits only, so the loop
relies on the block it writes to being blank from its position on: it erases a block when it comes
to its first page, and a page that is not full is filled up with ones.

## Main definitions

* `Blank`: A block is blank from an address on.
* `Written`: Data has been written to a range, and nothing else has changed.

## Theorems

* `writeLoop_ok`, `writeData_ok`: What a call writes.
* `flushMtdDev_flash`: A flush that changes nothing.
-/

namespace Brandy.MtdPart

open Memory Word

theorem ff_and (b : UInt8) : 0xff &&& b = b := by
  apply UInt8.eq_of_toBitVec_eq
  exact BitVec.allOnes_and

theorem and_ff (b : UInt8) : b &&& 0xff = b := by
  apply UInt8.eq_of_toBitVec_eq
  exact BitVec.and_allOnes

/-- The end of the block that an address is in. -/
def blockEnd (geo : Geometry) (a : Nat) : Nat := (a / geo.erasesize + 1) * geo.erasesize

/-- The block of an address is blank from there on, unless the address is the start of the block. -/
def Blank (geo : Geometry) (flash : Mem) (a : Nat) : Prop :=
  a % geo.erasesize ≠ 0 → ∀ x : Int, a ≤ x → x < blockEnd geo a → flash x = 0xff

section

variable (st : St) (num : Nat) (p : Part)

@[simp] theorem St.setPart_part_self : (st.setPart num p).part num = p := Function.update_self _ _ _

theorem St.setPart_part_other {n : Nat} (h : n ≠ num) : (st.setPart num p).part n = st.part n :=
  Function.update_of_ne h _ _

@[simp] theorem St.setPart_wbuf : (st.setPart num p).wbuf = st.wbuf := rfl

@[simp] theorem St.setPart_flash : (st.setPart num p).flash = st.flash := rfl

end

section

variable {geo : Geometry} {faults : Faults}

theorem lt_blockEnd (geo : Geometry) (a : Nat) : a < blockEnd geo a := by
  have hsplit := Nat.div_add_mod a geo.erasesize
  have hmod := Nat.mod_lt a geo.erasesize_pos
  unfold blockEnd
  rw [Nat.succ_mul, mul_comm]
  omega

theorem page_le_blockEnd {a : Nat} (ha : geo.pagesize ∣ a) : a + geo.pagesize ≤ blockEnd geo a := by
  have hend : geo.pagesize ∣ blockEnd geo a := Dvd.dvd.mul_left geo.pagesize_dvd _
  have hlt := lt_blockEnd geo a
  have hsub := Nat.le_of_dvd (Nat.sub_pos_of_lt hlt) (Nat.dvd_sub hend ha)
  omega

theorem blockEnd_eq {a b : Nat} (hab : a ≤ b) (hb : b < blockEnd geo a) :
    blockEnd geo b = blockEnd geo a := by
  have hlo : a / geo.erasesize ≤ b / geo.erasesize := Nat.div_le_div_right hab
  have hhi : b / geo.erasesize < a / geo.erasesize + 1 :=
    (Nat.div_lt_iff_lt_mul geo.erasesize_pos).mpr hb
  unfold blockEnd
  rw [show b / geo.erasesize = a / geo.erasesize by omega]

/-- A position behind a page is in the same block, or at the start of another. -/
theorem lt_blockEnd_of_page {a b : Nat} (ha : geo.pagesize ∣ a) (hb : b ≤ a + geo.pagesize)
    (hmod : b % geo.erasesize ≠ 0) : b < blockEnd geo a := by
  refine lt_of_le_of_ne (le_trans hb (page_le_blockEnd ha)) ?_
  rintro rfl
  exact hmod (Nat.mul_mod_left _ _)

variable {flash flash' : Mem} {len : Nat}

theorem writeMtdDo_zero {buf : Mem} {dst : Nat}
    (h : writeMtdDo geo faults flash dst len buf = (0, flash')) :
    flash' = overlay flash (fun x => flash x &&& buf (x - dst)) dst len := by
  unfold writeMtdDo at h
  split at h
  · cases h
  · split at h
    · cases h
    · cases h
      rfl

theorem eraseMtd_zero {addr : Nat} (h : eraseMtd geo faults flash addr = (0, flash')) :
    flash' = overlay flash (fun _ => 0xff) addr geo.erasesize := by
  unfold eraseMtd at h
  split at h
  · cases h
  · split at h
    · cases h
    · cases h
      rfl

theorem writePage_ok {buf : Mem} {a : Nat} (ha : geo.pagesize ∣ a) (hblank : Blank geo flash a)
    (h : writePage geo faults flash a buf = (0, flash')) :
    (∀ x : Int, a ≤ x → x < a + geo.pagesize → flash' x = buf (x - a)) ∧
      (∀ x : Int, a + geo.pagesize ≤ x → x < blockEnd geo a → flash' x = 0xff) ∧
      ∀ x : Int, x < a → flash' x = flash x := by
  have hpage := page_le_blockEnd ha
  -- the page is programmed on a block that is blank from it on
  obtain ⟨flash₁, hff, hsame, hret⟩ : ∃ flash₁ : Mem,
      (∀ x : Int, a ≤ x → x < blockEnd geo a → flash₁ x = 0xff) ∧
      (∀ x : Int, x < a → flash₁ x = flash x) ∧
      writeMtdDo geo faults flash₁ a geo.pagesize buf = (0, flash') := by
    unfold writePage at h
    by_cases hstart : a % geo.erasesize = 0
    · rw [if_pos hstart] at h
      rcases herase : eraseMtd geo faults flash a with ⟨ret, flash₁⟩
      rw [herase] at h
      obtain ⟨rfl, h⟩ := ret_eq_zero h
      have hend : blockEnd geo a = a + geo.erasesize := by
        unfold blockEnd
        rw [Nat.succ_mul, Nat.div_mul_cancel (Nat.dvd_of_mod_eq_zero hstart)]
      refine ⟨flash₁, fun x hlo hhi => ?_, fun x hx => ?_, h⟩
      · rw [eraseMtd_zero herase, overlay_of_mem ⟨hlo, by rw [hend] at hhi; exact_mod_cast hhi⟩]
      · rw [eraseMtd_zero herase, overlay_of_notMem fun hmem => absurd hmem.1 (by omega)]
    · rw [if_neg hstart] at h
      exact ⟨flash, hblank hstart, fun _ _ => rfl, h⟩
  rw [writeMtdDo_zero hret]
  refine ⟨fun x hlo hhi => ?_, fun x hlo hhi => ?_, fun x hx => ?_⟩
  · rw [overlay_of_mem ⟨hlo, hhi⟩, hff x hlo (by omega), ff_and]
  · rw [overlay_of_notMem fun hmem => absurd hmem.2 (by omega), hff x (by omega) hhi]
  · rw [overlay_of_notMem fun hmem => absurd hmem.1 (by omega), hsame x hx]

/-- Data of `src` from `off` on is in `[a, a + len)`: nothing before has changed, the rest of the
    block is blank, and the page buffer holds the page not yet full. -/
structure Written (geo : Geometry) (src : Mem) (off a len : Nat) (flash wbuf' flash' : Mem) :
    Prop where
  data : ∀ x : Int, a ≤ x → x < a + len → flash' x = src (x - a + off)
  below : ∀ x : Int, x < a → flash' x = flash x
  blank : Blank geo flash' (a + len)
  page : ∀ k : Nat, k < (a + len) % geo.pagesize →
    wbuf' k = src ((off + len - (a + len) % geo.pagesize + k : Nat))

theorem Written.append {src flash₁ wbuf' : Mem} {off a m n : Nat}
    (hdata : ∀ x : Int, a ≤ x → x < a + m → flash₁ x = src (x - a + off))
    (hbelow : ∀ x : Int, x < a → flash₁ x = flash x)
    (h : Written geo src (off + m) (a + m) n flash₁ wbuf' flash') :
    Written geo src off a (m + n) flash wbuf' flash' := by
  refine ⟨fun x hlo hhi => ?_, fun x hx => ?_, ?_, fun k hk => ?_⟩
  · by_cases hx : x < a + m
    · rw [h.below x (by push_cast; exact hx), hdata x hlo hx]
    · rw [h.data x (by push_cast; omega) (by push_cast; omega)]
      congr 1
      omega
  · rw [h.below x (by push_cast; omega), hbelow x hx]
  · rw [← add_assoc]
    exact h.blank
  · simp only [← add_assoc] at hk ⊢
    exact h.page k hk

theorem turns_zero (h : (len + geo.pagesize - 1) / geo.pagesize = 0) : len = 0 := by
  have hpos := geo.pagesize_pos
  rw [Nat.div_eq_zero_iff_lt hpos] at h
  omega

theorem turns_succ {n : Nat} (h : (len + geo.pagesize - 1) / geo.pagesize = n + 1)
    (hle : geo.pagesize ≤ len) : (len - geo.pagesize + geo.pagesize - 1) / geo.pagesize = n := by
  have hpos := geo.pagesize_pos
  have hsplit : len + geo.pagesize - 1 = (len - geo.pagesize + geo.pagesize - 1) +
    geo.pagesize := by
    omega
  rw [hsplit, Nat.add_div_right _ hpos] at h
  omega

theorem writeLoop_ok {offset skipSize : Nat} {src : Mem} (turns : Nat)
    {len off recvd a recvd' : Nat} {wbuf flash wbuf' flash' : Mem}
    (hturns : (len + geo.pagesize - 1) / geo.pagesize = turns)
    (ha : offset + recvd + skipSize = a) (hdvd : geo.pagesize ∣ a) (hlt : a + len < 2 ^ 32)
    (hblank : Blank geo flash a)
    (h : writeLoop geo faults offset skipSize src turns len off recvd wbuf flash =
      (0, recvd', wbuf', flash')) :
    recvd' = recvd + len ∧ Written geo src off a len flash wbuf' flash' := by
  cases turns with
  | zero =>
    obtain rfl := turns_zero hturns
    cases h
    refine ⟨rfl, fun x hlo hhi => ?_, fun _ _ => rfl, hblank, fun k hk => ?_⟩
    · rw [Nat.cast_zero, add_zero] at hhi
      omega
    · rw [add_zero, Nat.mod_eq_zero_of_dvd hdvd] at hk
      omega
  | succ n =>
    have hdst : (offset + recvd + skipSize) % 2 ^ 32 = a := by
      rw [ha]
      exact Nat.mod_eq_of_lt (by omega)
    rw [writeLoop, hdst] at h
    by_cases hfull : geo.pagesize ≤ len
    · -- a full page, and the rest
      rw [if_pos hfull] at h
      rcases hpage : writePage geo faults flash a
        (overlay wbuf (fun x => src (x + off)) 0 geo.pagesize) with ⟨ret, flash₁⟩
      simp only [hpage] at h
      obtain ⟨rfl, h⟩ := ret_eq_zero h
      rw [Nat.mod_eq_of_lt (show recvd + geo.pagesize < 2 ^ 32 by omega)] at h
      rcases writePage_ok hdvd hblank hpage with ⟨hdata, hrest, hbelow⟩
      have hblank₁ : Blank geo flash₁ (a + geo.pagesize) := by
        intro hmod x hlo hhi
        have hin := lt_blockEnd_of_page hdvd le_rfl hmod
        rw [blockEnd_eq (Nat.le_add_right _ _) hin] at hhi
        exact hrest x (by exact_mod_cast hlo) hhi
      rcases writeLoop_ok n (turns_succ hturns hfull)
        (show offset + (recvd + geo.pagesize) + skipSize = a + geo.pagesize by omega)
        (Nat.dvd_add hdvd (dvd_refl _)) (by omega) hblank₁ h with ⟨hrecvd, hwritten⟩
      refine ⟨by omega, Nat.add_sub_cancel' hfull ▸ hwritten.append (fun x hlo hhi => ?_) hbelow⟩
      rw [hdata x hlo hhi, overlay_of_mem ⟨by omega, by omega⟩]
    · -- the last page, filled up with ones
      rw [if_neg hfull] at h
      rcases hpage : writePage geo faults flash a
        (overlay (overlay wbuf (fun _ => 0xff) 0 geo.pagesize)
        (fun x => src (x + off)) 0 len) with ⟨ret, flash₁⟩
      simp only [hpage] at h
      obtain ⟨rfl, h⟩ := ret_eq_zero h
      rw [Nat.mod_eq_of_lt (show recvd + len < 2 ^ 32 by omega)] at h
      rcases writePage_ok hdvd hblank hpage with ⟨hdata, hrest, hbelow⟩
      cases h
      have hcol : (a + len) % geo.pagesize = len := by
        rw [Nat.add_mod, Nat.mod_eq_zero_of_dvd hdvd, zero_add, Nat.mod_mod,
          Nat.mod_eq_of_lt (by omega)]
      refine ⟨rfl, fun x hlo hhi => ?_, hbelow, fun hmod x hlo hhi => ?_, fun k hk => ?_⟩
      · rw [hdata x hlo (by omega), overlay_of_mem ⟨by omega, by omega⟩]
      · have hin := lt_blockEnd_of_page hdvd (show a + len ≤ a + geo.pagesize by omega) hmod
        rw [blockEnd_eq (Nat.le_add_right _ _) hin] at hhi
        by_cases hx : x < a + geo.pagesize
        · rw [hdata x (by omega) hx, overlay_of_notMem fun hmem => absurd hmem.2 (by omega),
            overlay_of_mem ⟨by omega, by omega⟩]
        · exact hrest x (by omega) hhi
      · rw [hcol] at hk ⊢
        rw [overlay_of_mem ⟨by omega, by omega⟩]
        congr 1
        omega

section

variable {offset skipSize recvd a : Nat} {wbuf : Mem} (ha : offset + recvd + skipSize = a)
  (hcol : a % geo.pagesize = recvd % geo.pagesize) (hlt : a + len < 2 ^ 32)
  (hbuf : ∀ k : Nat, k < a % geo.pagesize → wbuf k = flash (a - a % geo.pagesize + k : Nat))
  (hblank : Blank geo flash a)
  (hfills : recvd % geo.pagesize = 0 ∨ geo.pagesize - recvd % geo.pagesize ≤ len)
include ha hcol hlt hbuf hblank hfills

theorem fillPage_ok {len' off' recvd' : Nat} {src wbuf' : Mem}
    (h : fillPage geo faults offset skipSize src len recvd wbuf flash =
      (0, len', off', recvd', wbuf', flash')) :
    off' + len' = len ∧ recvd' = recvd + off' ∧ geo.pagesize ∣ a + off' ∧
      Blank geo flash' (a + off') ∧
      (∀ x : Int, a ≤ x → x < a + off' → flash' x = src (x - a)) ∧
      ∀ x : Int, x < a → flash' x = flash x := by
  have hpos := geo.pagesize_pos
  have hmod := Nat.mod_lt a hpos
  have hsplit := Nat.div_add_mod a geo.pagesize
  unfold fillPage at h
  rw [ha, Nat.mod_eq_of_lt (show a < 2 ^ 32 by omega), ← hcol] at h
  rw [← hcol] at hfills
  dsimp only at h
  by_cases hzero : a % geo.pagesize = 0
  · rw [if_neg (not_not.mpr hzero)] at h
    cases h
    refine ⟨by omega, rfl, Nat.dvd_of_mod_eq_zero hzero, hblank, fun x hlo hhi => ?_,
      fun _ _ => rfl⟩
    rw [Nat.cast_zero, add_zero] at hhi
    omega
  rcases hfills with hno | hfills
  · exact absurd hno hzero
  rw [if_pos hzero, if_pos hfills] at h
  generalize hcolumn : a % geo.pagesize = col at *
  generalize hpagestart : a / geo.pagesize * geo.pagesize = p at *
  have hp : p + col = a := by
    rw [← hpagestart, mul_comm]
    exact hsplit
  have hpdvd : geo.pagesize ∣ p := hpagestart ▸ Nat.dvd_mul_left _ _
  -- a position inside a page is not the start of a block
  have hinside : a % geo.erasesize ≠ 0 := by
    intro hstart
    have hdvd := dvd_trans geo.pagesize_dvd (Nat.dvd_of_mod_eq_zero hstart)
    rw [Nat.mod_eq_zero_of_dvd hdvd] at hcolumn
    omega
  have hend : blockEnd geo a = blockEnd geo p :=
    blockEnd_eq (by omega) (lt_blockEnd_of_page hpdvd (by omega) hinside)
  have hpage := page_le_blockEnd hpdvd
  rcases hwrite : writeMtdDo geo faults flash p geo.pagesize
    (overlay wbuf (fun x => src (x - col)) col (geo.pagesize - col)) with ⟨ret, flash₁⟩
  simp only [hwrite] at h
  obtain ⟨rfl, h⟩ := ret_eq_zero h
  rw [Nat.mod_eq_of_lt (show recvd + (geo.pagesize - col) < 2 ^ 32 by omega)] at h
  cases h
  have hflash := writeMtdDo_zero hwrite
  have hnext : a + (geo.pagesize - col) = p + geo.pagesize := by omega
  rw [hnext]
  refine ⟨by omega, rfl, Nat.dvd_add hpdvd (dvd_refl _), fun hmod' x hlo hhi => ?_,
    fun x hlo hhi => ?_, fun x hx => ?_⟩
  · rw [blockEnd_eq (Nat.le_add_right _ _) (lt_blockEnd_of_page hpdvd le_rfl hmod')] at hhi
    rw [hflash, overlay_of_notMem fun hmem => absurd hmem.2 (by omega)]
    exact hblank hinside x (by omega) (by rw [hend]; exact hhi)
  · rw [hflash, overlay_of_mem ⟨by omega, by omega⟩,
      hblank hinside x hlo (by rw [hend]; omega), ff_and, overlay_of_mem ⟨by omega, by omega⟩]
    congr 1
    omega
  · rw [hflash]
    by_cases hin : (p : Int) ≤ x
    · -- the page is programmed with what it holds
      rw [overlay_of_mem ⟨hin, by omega⟩, overlay_of_notMem fun hmem => absurd hmem.1 (by omega)]
      have hk := hbuf (x - p).toNat (by omega)
      rw [show (((x - p).toNat : Nat) : Int) = x - p by omega,
        show ((a - col + (x - p).toNat : Nat) : Int) = x by omega] at hk
      rw [hk, UInt8.and_self]
    · rw [overlay_of_notMem fun hmem => absurd hmem.1 (by omega)]

theorem writeData_ok {len' off' recvd₁ recvd' : Nat} {src wbuf₁ flash₁ wbuf' : Mem}
    (hfill : fillPage geo faults offset skipSize src len recvd wbuf flash =
      (0, len', off', recvd₁, wbuf₁, flash₁))
    (hloop : writeLoop geo faults offset skipSize src ((len' + geo.pagesize - 1) / geo.pagesize)
      len' off' recvd₁ wbuf₁ flash₁ = (0, recvd', wbuf', flash')) :
    recvd' = recvd + len ∧ Written geo src 0 a len flash wbuf' flash' := by
  rcases fillPage_ok ha hcol hlt hbuf hblank hfills hfill with
    ⟨hsum, hrecvd₁, hdvd, hblank₁, hdata₁, hbelow₁⟩
  rcases writeLoop_ok _ rfl (show offset + recvd₁ + skipSize = a + off' by omega) hdvd (by omega)
    hblank₁ hloop with ⟨hrecvd, hwritten⟩
  refine ⟨by omega, hsum ▸ Written.append (fun x hlo hhi => ?_) hbelow₁
    ((zero_add off').symm ▸ hwritten)⟩
  rw [hdata₁ x hlo hhi, Nat.cast_zero, add_zero]

end

theorem writeMtdDo_same {buf : Mem} {dst : Nat}
    (h : ∀ x : Int, dst ≤ x → x < dst + len → flash x &&& buf (x - dst) = flash x) :
    (writeMtdDo geo faults flash dst len buf).2 = flash := by
  unfold writeMtdDo
  split
  · rfl
  split
  · rfl
  funext x
  dsimp only
  by_cases hx : x ∈ Set.Ico (dst : Int) (dst + len)
  · rw [overlay_of_mem hx, h x hx.1 hx.2]
  · rw [overlay_of_notMem hx]

/-- A flush changes nothing when its first page is as it is on the chip. All other pages are
    ones. -/
theorem flushLoop_same (geo : Geometry) (faults : Faults) (offset n writtenBytes : Nat)
    (updBuf flash : Mem)
    (hsame : ∀ x : Int, (((offset + writtenBytes) % 2 ^ 32 : Nat) : Int) ≤ x →
      x < (((offset + writtenBytes) % 2 ^ 32 : Nat) : Int) + geo.pagesize →
      flash x &&& updBuf (x - ((offset + writtenBytes) % 2 ^ 32 : Nat)) = flash x) :
    (flushLoop geo faults offset n writtenBytes updBuf flash).2.2.2 = flash := by
  induction n generalizing writtenBytes updBuf flash with
  | zero => rfl
  | succ n ih =>
    have hkept : (writeMtdDo geo faults flash ((offset + writtenBytes) % 2 ^ 32) geo.pagesize
        updBuf).2 = flash := writeMtdDo_same hsame
    rw [flushLoop]
    rcases hwrite : writeMtdDo geo faults flash ((offset + writtenBytes) % 2 ^ 32)
      geo.pagesize updBuf with ⟨ret, flash₁⟩
    rw [hwrite] at hkept
    subst hkept
    dsimp only
    split
    · rfl
    · refine ih _ _ _ fun x hlo hhi => ?_
      rw [overlay_of_mem ⟨by omega, by omega⟩, and_ff]

theorem flushMtdDev_flash {st : St} {num start col : Nat} (hnum : st.lastPartno = num)
    (hstart : ((st.part num).offset + toBytes (st.part num).writtenSects / geo.pagesize *
      geo.pagesize) % 2 ^ 32 = start)
    (hcol : toBytes (st.part num).writtenSects % geo.pagesize = col)
    (h : ∀ x : Int, start ≤ x → x < start + col →
      st.flash x &&& st.wbuf (x - start) = st.flash x) :
    (flushMtdDev geo faults st).2.flash = st.flash := by
  have hpos := geo.pagesize_pos
  unfold flushMtdDev
  rw [hnum, if_neg (by omega)]
  dsimp only
  rw [Int.toNat_natCast, hcol]
  split
  · rfl
  have hsame := flushLoop_same geo faults (st.part num).offset
    ((toAlign (toBytes (st.part num).planWrSects) geo.pagesize -
      toBytes (st.part num).writtenSects / geo.pagesize * geo.pagesize) / geo.pagesize)
    (toBytes (st.part num).writtenSects / geo.pagesize * geo.pagesize)
    (overlay st.wbuf (fun _ => 0xff) col (geo.pagesize - col)) st.flash
  rw [hstart] at hsame
  have hkept := hsame fun x hlo hhi => by
    by_cases hx : x < start + col
    · rw [overlay_of_notMem fun hmem => absurd hmem.1 (by omega), h x hlo hx]
    · rw [overlay_of_mem ⟨by omega, by omega⟩, and_ff]
  split
  · exact hkept
  · exact hkept

end

end Brandy.MtdPart
