import Brandy.Theory.RawNand.EraseData
import Brandy.Theory.RawNand.Uncorrectable

/-!
# The MTD Layer as a Store of Bytes

What a read, a write and an erase of a range do to the bytes of the device when no chip operation
fails.

## Main definitions

* `Nand.bytes`: The bytes as one buffer over all chips.
* `Nand.Coherent`: The page buffer holds a page as it is on its chip.

## Theorems

* `readLoop_done`, `mtdWrite_ok`, `mtdErase_ok`: The three operations.
-/

namespace Brandy.RawNand

open Buffer (memcpy)

variable {cfg : Config}

/-- A byte of a page of the device, by its chip. -/
def Nand.simuByte (s : Nand cfg) (chip page i : Nat) : UInt8 :=
  if cfg.simulateMultiplane then
    if i < cfg.pagesize then s.cell chip (cfg.pageA page) i
    else s.cell chip (cfg.pageB page) (i - cfg.pagesize)
  else s.cell chip page i

/-- The bytes of the device by their address. -/
def Nand.bytes (s : Nand cfg) : Buffer := fun a =>
  s.simuByte (a / cfg.writesize / cfg.chipPages) (a / cfg.writesize % cfg.chipPages)
    (a % cfg.writesize)

/-- The page buffer holds a page of the device as it is on its chip. -/
def Nand.Coherent (s : Nand cfg) : Prop :=
  ∀ page : Nat, s.cache.simuPageno = page → page < cfg.chipPages ∧ ∃ chip : Nat,
    s.cache.chipno = chip ∧ ∀ i < cfg.writesize, s.cache.simuPagebuf i = s.simuByte chip page i

/-- All chip operations succeed. -/
structure Config.Healthy (cfg : Config) : Prop where
  ready : ∀ chip page, cfg.ready chip page = true
  status : ∀ chip page, cfg.status chip page = 0 ∨ cfg.status chip page = eccLimit
  writeRet : ∀ chip page, cfg.writeRet chip page = 0
  eraseOk : ∀ chip block, cfg.eraseOk chip block = true

theorem bytes_page {s : Nand cfg} {page : Nat} {x : Nat} (hx : x < cfg.writesize) :
    s.bytes (page * cfg.writesize + x) =
      s.simuByte (page / cfg.chipPages) (page % cfg.chipPages) x := by
  have hpos := cfg.writesize_pos
  unfold Nand.bytes
  rw [mul_comm, Nat.mul_add_div hpos, Nat.div_eq_of_lt hx, add_zero, Nat.mul_add_mod,
    Nat.mod_eq_of_lt hx]

variable {s s' : Nand cfg}

theorem simuByte_congr (h : s'.cell = s.cell) : s'.simuByte = s.simuByte := by
  funext chip page i
  unfold Nand.simuByte
  rw [h]

theorem bytes_congr (h : s'.cell = s.cell) : s'.bytes = s.bytes := by
  unfold Nand.bytes
  rw [simuByte_congr h]

theorem writesize_multi (h : cfg.simulateMultiplane = true) :
    cfg.writesize = 2 * cfg.pagesize := by
  unfold Config.writesize Config.pagesize Config.simuPagesizeShift Geometry.simuPagesizeShift
  rw [if_pos h, Nat.shiftLeft_eq, Nat.shiftLeft_eq, pow_succ]
  omega

theorem writesize_single (h : cfg.simulateMultiplane = false) : cfg.writesize = cfg.pagesize := by
  unfold Config.writesize Config.pagesize Config.simuPagesizeShift
  rw [h]
  rfl

section

variable (hcfg : cfg.Healthy)
include hcfg

theorem pageRet_healthy (chip page : Nat) :
    cfg.pageRet chip page = 0 ∨ cfg.pageRet chip page = eccLimit := by
  unfold Config.pageRet
  simp only [hcfg.ready, and_self, if_true]
  split
  · exact hcfg.status _ _
  · exact hcfg.status _ _

theorem readPage_mdata (s : Nand cfg) (chip page : Nat) (mdata sdata : Buffer) {i : Nat}
    (hi : i < cfg.writesize) :
    (readPage s chip page mdata sdata).mdata i = s.simuByte chip page i := by
  unfold readPage simuMultiReadPage chipReadPage Nand.simuByte
  simp only [hcfg.ready, if_true]
  cases hmulti : cfg.simulateMultiplane with
  | false =>
    rw [writesize_single hmulti] at hi
    simp only [Bool.false_eq_true, if_false]
    rw [Buffer.memcpy_of_mem]
    simp
  | true =>
    rw [writesize_multi hmulti] at hi
    simp only [if_true]
    by_cases hfirst : i < cfg.pagesize
    · rw [if_pos hfirst, Buffer.memcpy_of_lt hfirst,
        Buffer.memcpy_of_mem]
      simp
    · rw [if_neg hfirst, Buffer.memcpy_of_mem, zero_add]

end

@[simp] theorem advance_hadReadlen (r : Reading cfg) (mlen : Nat) :
    (r.advance mlen).hadReadlen = r.hadReadlen + mlen := by
  unfold Reading.advance
  simp only
  split <;> rfl

@[simp] theorem advance_mdata (r : Reading cfg) (mlen : Nat) :
    (r.advance mlen).mdata = r.mdata := by
  unfold Reading.advance
  simp only
  split <;> rfl

/-- A copy of the page buffer is one of the device, if the buffer holds the page. -/
theorem memcpy_pagebuf {s : Nand cfg} {buf : Buffer} {page : Nat}
    (h : ∀ i < cfg.writesize, buf i = s.simuByte (page / cfg.chipPages) (page % cfg.chipPages) i)
    (m : Buffer) (d : Nat) {col mlen : Nat} (hcol : col + mlen ≤ cfg.writesize) :
    memcpy m d buf col mlen = memcpy m d s.bytes (page * cfg.writesize + col) mlen := by
  refine Buffer.memcpy_congr m d fun i hi => ?_
  rw [h _ (by omega), add_assoc, bytes_page (by omega)]

/-- What a reader has done when it has read a range of the device. -/
structure ReadDone (r r' : Reading cfg) (a len : Nat) : Prop where
  cell : r'.nand.cell = r.nand.cell
  coherent : r'.nand.Coherent
  ret : 0 ≤ r'.ret
  eccFailed : r'.eccFailed = r.eccFailed
  hadReadlen : r'.hadReadlen = r.hadReadlen + len
  mdata : r'.mdata = memcpy r.mdata r.hadReadlen r.nand.bytes a len

theorem ReadDone.trans {r r1 r2 : Reading cfg} {a m n : Nat} (h : ReadDone r r1 a m)
    (h' : ReadDone r1 r2 (a + m) n) : ReadDone r r2 a (m + n) where
  cell := h'.cell.trans h.cell
  coherent := h'.coherent
  ret := h'.ret
  eccFailed := h'.eccFailed.trans h.eccFailed
  hadReadlen := by rw [h'.hadReadlen, h.hadReadlen, add_assoc]
  mdata := by rw [h'.mdata, h.mdata, h.hadReadlen, bytes_congr h.cell, Buffer.memcpy_append]

theorem readDone_advance {r r' : Reading cfg} {a len : Nat} (hcell : r'.nand.cell = r.nand.cell)
    (hco : r'.nand.Coherent) (hret : 0 ≤ r'.ret) (hfailed : r'.eccFailed = r.eccFailed)
    (hhad : r'.hadReadlen = r.hadReadlen)
    (hmdata : r'.mdata = memcpy r.mdata r.hadReadlen r.nand.bytes a len) :
    ReadDone r (r'.advance len) a len := by
  constructor
  · rwa [advance_nand]
  · rwa [advance_nand]
  · rwa [advance_ret]
  · rwa [advance_eccFailed]
  · rw [advance_hadReadlen, hhad]
  · rwa [advance_mdata]

theorem readLoop_done (hcfg : cfg.Healthy) {k : Request} {r : Reading cfg} {page col len : Nat}
    (h : col < cfg.writesize) (hret : 0 ≤ r.ret) (hco : r.nand.Coherent)
    (hchip : hit k r.nand.cache (page &&& cfg.simuChipPagesMask) col len →
      r.nand.cache.chipno = (page / cfg.chipPages : Nat)) :
    ReadDone r (readLoop k r (page / cfg.chipPages) page col len h) (page * cfg.writesize + col)
      len := by
  induction hn : len using Nat.strong_induction_on generalizing r page col len with
  | _ n ih =>
    subst hn
    by_cases hhit : hit k r.nand.cache (page &&& cfg.simuChipPagesMask) col len
    · rw [readLoop_hit h hhit]
      obtain ⟨-, chip, hno, hbuf⟩ := hco _ hhit.2.1.symm
      have hvalid := r.nand.cache.valid_le
      have hend := hhit.2.2.2.1
      obtain rfl : chip = page / cfg.chipPages := by
        have := hchip hhit
        omega
      rw [and_mask] at hbuf
      exact readDone_advance rfl hco hret rfl rfl (memcpy_pagebuf hbuf _ _ (by omega))
    · have hpage := pageRet_healthy hcfg (page / cfg.chipPages) (page % cfg.chipPages)
      rcases readLoop_miss h hhit rfl with ⟨hneg, -⟩ | ⟨-, r', hstep, hloop, hnext⟩
      · rcases hpage with hpage | hpage <;> rw [hpage] at hneg <;> exact absurd hneg (by decide)
      -- the buffer holds the page that was read
      have hbuf : ∀ i < cfg.writesize, r'.nand.cache.simuPagebuf i =
          r.nand.simuByte (page / cfg.chipPages) (page % cfg.chipPages) i := by
        intro i hi
        rw [hstep.simuPagebuf, readPage_mdata hcfg _ _ _ _ _ hi]
      have hco' : r'.nand.Coherent := by
        intro p hp
        rw [hstep.simuPageno] at hp
        have hp' : page % cfg.chipPages = p := by exact_mod_cast hp
        subst hp'
        refine ⟨Nat.mod_lt _ (by have := two_le_chipPages cfg; omega), page / cfg.chipPages,
          hstep.chipno, fun i hi => ?_⟩
        rw [hbuf i hi, simuByte_congr hstep.cell]
      have hfailed : r'.eccFailed = r.eccFailed := by
        rw [hstep.eccFailed]
        rcases hpage with hpage | hpage <;> rw [hpage] <;> simp [eccErr, eccLimit]
      have hdone := readDone_advance hstep.cell hco' hstep.ret hfailed hstep.hadReadlen
        (hstep.mdata.trans (memcpy_pagebuf hbuf _ _ (by omega)))
      rw [hloop]
      split_ifs with hlast
      · rwa [show min (cfg.writesize - col) len = len by omega] at hdone ⊢
      have hrest := ih (len - min (cfg.writesize - col) len) (by omega) cfg.writesize_pos
        hdone.ret hdone.coherent (fun hc => absurd hc hnext) rfl
      have hplace : (page + 1) * cfg.writesize + 0 =
          page * cfg.writesize + col + min (cfg.writesize - col) len := by
        rw [add_one_mul]
        omega
      rw [hplace] at hrest
      have hall := hdone.trans hrest
      rwa [show min (cfg.writesize - col) len + (len - min (cfg.writesize - col) len) = len by
        omega] at hall

/-- The number of pages of a block. -/
def Config.blockPages (cfg : Config) : Nat := 2 ^ cfg.geometry.pagesPerBlkShift

theorem blockPages_pos : 0 < cfg.blockPages := by
  unfold Config.blockPages
  positivity

theorem and_pagesPerBlkMask (page : Nat) :
    page &&& cfg.geometry.pagesPerBlkMask = page % cfg.blockPages := by
  unfold Geometry.pagesPerBlkMask Config.blockPages
  rw [Nat.shiftLeft_eq, one_mul, Nat.and_two_pow_sub_one_eq_mod]

/-- The pages of the two planes are at the same place of neighbouring blocks. -/
def Config.planePage (cfg : Config) (plane : Fin 2) (page : Nat) : Nat :=
  (2 * (page / cfg.blockPages) + plane) * cfg.blockPages + page % cfg.blockPages

theorem pageA_eq (page : Nat) : cfg.pageA page = cfg.planePage 0 page := by
  unfold Config.pageA Config.planePage
  rw [and_pagesPerBlkMask, Nat.shiftRight_eq_div_pow, Nat.shiftLeft_eq,
    Nat.shiftLeft_eq, Nat.pow_one, mul_comm (page / _) 2]
  rfl

theorem pageB_eq (page : Nat) : cfg.pageB page = cfg.planePage 1 page := by
  unfold Config.pageB Config.planePage
  rw [pageA_eq, Nat.shiftLeft_eq, one_mul, Config.planePage, Fin.val_zero, Fin.val_one,
    add_zero, add_mul (2 * _) 1, one_mul, add_right_comm]
  rfl

theorem planePage_div (plane : Fin 2) (page : Nat) :
    cfg.planePage plane page / cfg.blockPages = 2 * (page / cfg.blockPages) + plane := by
  rw [Config.planePage, mul_comm, Nat.mul_add_div blockPages_pos,
    Nat.div_eq_of_lt (Nat.mod_lt _ blockPages_pos), add_zero]

theorem planePage_inj {b b' : Fin 2} {p q : Nat} :
    cfg.planePage b p = cfg.planePage b' q ↔ b = b' ∧ p = q := by
  refine ⟨fun h => ?_, fun h => by rw [h.1, h.2]⟩
  have hdiv := congrArg (· / cfg.blockPages) h
  have hmod := congrArg (· % cfg.blockPages) h
  simp only [planePage_div] at hdiv
  simp only [Config.planePage, Nat.mul_add_mod', Nat.mod_mod] at hmod
  exact ⟨by omega, Nat.ext_div_modEq (by omega) hmod⟩

section

variable (hcfg : cfg.Healthy)
include hcfg

theorem chipWritePage_ok (s : Nand cfg) (chip page : Nat) (m : Buffer) (off mlen : Nat) :
    ∃ s' : Nand cfg, chipWritePage s chip page m off mlen = (0, s') ∧ s'.cache = s.cache ∧
      ∀ c p, s'.cell c p =
        if c = chip ∧ p = page then memcpy (s.cell chip page) 0 m off mlen else s.cell c p := by
  unfold chipWritePage
  rw [if_pos (hcfg.writeRet _ _)]
  refine ⟨_, rfl, rfl, fun c p => ?_⟩
  by_cases hc : c = chip
  · subst hc
    by_cases hp : p = page
    · subst hp
      simp
    · simp [hp]
  · simp [hc]

theorem writePage_ok (s : Nand cfg) (chip page : Nat) (m : Buffer) :
    ∃ s' : Nand cfg, writePage s chip page m cfg.writesize = (0, s') ∧ s'.cache = s.cache ∧
      ∀ c p, ∀ i < cfg.writesize, s'.simuByte c p i =
        if c = chip ∧ p = page then m i else s.simuByte c p i := by
  unfold writePage
  cases hmulti : cfg.simulateMultiplane with
  | false =>
    obtain ⟨s', hwrite, hcache, hcell⟩ := chipWritePage_ok hcfg s chip page m 0 cfg.writesize
    refine ⟨s', hwrite, hcache, fun c p i hi => ?_⟩
    unfold Nand.simuByte
    simp only [hmulti, Bool.false_eq_true, if_false, hcell]
    split
    · rw [Buffer.memcpy_of_mem, zero_add, Nat.sub_zero]
    · rfl
  | true =>
    have hsize := writesize_multi hmulti
    obtain ⟨s1, hfirst, hcache1, hcell1⟩ :=
      chipWritePage_ok hcfg s chip (cfg.pageA page) m 0 (cfg.writesize >>> 1)
    obtain ⟨s2, hsecond, hcache2, hcell2⟩ :=
      chipWritePage_ok hcfg s1 chip (cfg.pageB page) m cfg.pagesize cfg.pagesize
    refine ⟨s2, ?_, hcache2.trans hcache1, fun c p i hi => ?_⟩
    · unfold multiWritePage
      simp only [if_true, hfirst, hsecond]
    · unfold Nand.simuByte
      simp only [hmulti, if_true, hcell2, hcell1, pageA_eq, pageB_eq, planePage_inj, zero_ne_one,
        one_ne_zero, true_and, false_and, and_false, if_false]
      split_ifs with hplane
      · rw [Buffer.memcpy_of_mem, zero_add, Nat.sub_zero]
      · rfl
      · rw [Buffer.memcpy_of_mem, Nat.sub_zero, Nat.add_sub_cancel' (not_lt.mp hplane)]
      · rfl

end

/-- The chip and the place on it say which page, or block, of `n` bytes an address is in. -/
theorem place_iff {n : Nat} (hn : 0 < n) (m a b : Nat) :
    a / n / m = b / m ∧ a / n % m = b % m ↔ b * n ≤ a ∧ a < b * n + n := by
  have hpage : a / n = b ↔ a / n / m = b / m ∧ a / n % m = b % m := Nat.ext_div_modEq_iff m _ b
  rw [← hpage, Nat.div_eq_iff hn]
  omega

theorem bytes_of_page {page : Nat} {m : Buffer}
    (h : ∀ c p, ∀ i < cfg.writesize, s'.simuByte c p i =
      if c = page / cfg.chipPages ∧ p = page % cfg.chipPages then m i else s.simuByte c p i) :
    s'.bytes = memcpy s.bytes (page * cfg.writesize) m 0 cfg.writesize := by
  have hpos := cfg.writesize_pos
  funext a
  unfold Nand.bytes Buffer.memcpy
  rw [h _ _ _ (Nat.mod_lt _ hpos)]
  simp only [place_iff hpos]
  split_ifs with ha
  · obtain ⟨x, rfl⟩ := exists_add_of_le ha.1
    rw [Nat.mul_add_mod', Nat.mod_eq_of_lt (by omega), zero_add, Nat.add_sub_cancel_left]
  · rfl

/-- A range of pages that is written where it should be: the driver only notices the start of
    another chip if the range does not start at one, and its cache command does not know pairs of
    planes. -/
structure WriteSafe (cfg : Config) (page n : Nat) : Prop where
  chip : ∀ p, page < p → p < page + n → p % cfg.chipPages = 0 → page % cfg.chipPages ≠ 0
  cacheprog : cfg.simulateMultiplane = true → cfg.hasCacheprog = true → ∀ p, page ≤ p →
    p + 1 < page + n → (p % cfg.chipPages + 1) % cfg.blockPages = 0

theorem writeChip_succ {first n page : Nat} (h : WriteSafe cfg first n) (hle : first ≤ page)
    (hlt : page + 1 < first + n) :
    writeChip cfg (page / cfg.chipPages) (page + 1) (first % cfg.chipPages) =
      (page + 1) / cfg.chipPages := by
  unfold writeChip
  simp only [and_mask]
  rw [succ_div]
  refine if_congr ⟨And.left, fun hzero => ⟨hzero, ?_⟩⟩ rfl rfl
  rw [hzero]
  exact Ne.symm (h.chip _ (by omega) hlt hzero)

theorem writeChip_first (page chipnr : Nat) :
    writeChip cfg chipnr page (page % cfg.chipPages) = chipnr := by
  unfold writeChip
  simp only [and_mask, ne_eq, not_true_eq_false, and_false, if_false]

section

variable (hcfg : cfg.Healthy)
include hcfg

theorem writeStep_ok (s : Nand cfg) (chip pageInChip : Nat)
    (h : cfg.simulateMultiplane = true → cfg.hasCacheprog = true →
      (pageInChip + 1) % cfg.blockPages = 0) :
    ∃ s' : Nand cfg, writeStep s chip pageInChip = (0, s') ∧ s'.cache = s.cache ∧
      ∀ c p, ∀ i < cfg.writesize, s'.simuByte c p i =
        if c = chip ∧ p = pageInChip then s.cache.simuPagebuf i else s.simuByte c p i := by
  unfold writeStep
  rw [and_pagesPerBlkMask]
  split_ifs with hlast hprog
  · exact writePage_ok hcfg s chip pageInChip _
  · -- without planes the cache command is a program like any other
    have hsingle : cfg.simulateMultiplane = false := by
      cases hmulti : cfg.simulateMultiplane with
      | false => rfl
      | true => exact absurd (h hmulti hprog) hlast
    have hwrite := writePage_ok hcfg s chip pageInChip s.cache.simuPagebuf
    unfold writePage at hwrite
    rw [hsingle] at hwrite
    exact hwrite
  · exact writePage_ok hcfg s chip pageInChip _

omit hcfg in
theorem pagebuf_fill (s : Nand cfg) (mdata : Buffer) (off : Nat) :
    ∀ i < cfg.writesize,
      (s.fill 0 mdata off cfg.writesize).cache.simuPagebuf i = mdata (off + i) := by
  intro i hi
  simp only [Nand.fill]
  rw [Buffer.memcpy_of_mem, Nat.sub_zero]

theorem writeLoop_ok {first n : Nat} (hsafe : WriteSafe cfg first n) (mdata : Buffer)
    (left page chipnr off : Nat) (s : Nand cfg) (hle : first ≤ page) (hlt : page + left < first + n)
    (hchip : writeChip cfg chipnr page (first % cfg.chipPages) = page / cfg.chipPages)
    (hbuf : ∀ i < cfg.writesize, s.cache.simuPagebuf i = mdata (off + i)) :
    ∃ chipnr' s', writeLoop mdata (first % cfg.chipPages) left page chipnr off s =
        .ok (chipnr', s') ∧
      writeChip cfg chipnr' (page + left) (first % cfg.chipPages) =
        (page + left) / cfg.chipPages ∧
      s'.bytes = memcpy s.bytes (page * cfg.writesize) mdata off (left * cfg.writesize) ∧
      ∀ i < cfg.writesize, s'.cache.simuPagebuf i = mdata (off + left * cfg.writesize + i) := by
  induction left generalizing page chipnr off s with
  | zero =>
    refine ⟨chipnr, s, rfl, hchip, ?_, fun i hi => ?_⟩
    · rw [zero_mul, Buffer.memcpy_zero]
    · rw [hbuf i hi, zero_mul, add_zero]
  | succ left ih =>
    obtain ⟨s1, hwrite, hcache, hbyte⟩ := writeStep_ok hcfg s (page / cfg.chipPages)
      (page % cfg.chipPages) fun hmulti hprog =>
        hsafe.cacheprog hmulti hprog page hle (by omega)
    have hbytes : s1.bytes = memcpy s.bytes (page * cfg.writesize) mdata off cfg.writesize := by
      rw [bytes_of_page hbyte]
      exact Buffer.memcpy_congr _ _ fun i hi => by rw [zero_add, hbuf i hi]
    obtain ⟨chipnr', s', hloop, hchip', hbytes', hbuf'⟩ := ih (page + 1)
      (page / cfg.chipPages) (off + cfg.writesize)
      (s1.fill 0 mdata (off + cfg.writesize) cfg.writesize) (by omega) (by omega)
      (writeChip_succ hsafe hle (by omega)) (pagebuf_fill _ _ _)
    refine ⟨chipnr', s', ?_, ?_, ?_, fun i hi => ?_⟩
    · rw [writeLoop]
      simp only [hchip, and_mask, hwrite, ne_eq, not_true_eq_false, if_false]
      exact hloop
    · rw [show page + (left + 1) = page + 1 + left by omega]
      exact hchip'
    · have hfill : (s1.fill 0 mdata (off + cfg.writesize) cfg.writesize).bytes = s1.bytes := rfl
      rw [hbytes', hfill, hbytes, add_one_mul, add_one_mul, Buffer.memcpy_append,
        add_comm cfg.writesize]
    · rw [hbuf' i hi, add_one_mul, add_right_comm off, add_assoc off (_ * _)]

theorem writeLast_ok (s : Nand cfg) (page : Nat) :
    ∃ s' : Nand cfg, writeLast s (page / cfg.chipPages) (page % cfg.chipPages) = (0, s') ∧
      s'.Coherent ∧
      s'.bytes = memcpy s.bytes (page * cfg.writesize) s.cache.simuPagebuf 0 cfg.writesize := by
  obtain ⟨s', hwrite, hcache, hbyte⟩ := writePage_ok hcfg
    { s with cache := { s.cache with
        simuPageno := (page % cfg.chipPages : Nat)
        validCol := 0
        validLen := cfg.writesize
        simuOobno := (page % cfg.chipPages : Nat)
        validOobCol := 0
        validOobLen := 0
        chipno := (page / cfg.chipPages : Nat)
        valid_le := by omega } }
    (page / cfg.chipPages) (page % cfg.chipPages) s.cache.simuPagebuf
  refine ⟨s', hwrite, fun p hp => ?_, bytes_of_page hbyte⟩
  rw [hcache] at hp
  obtain rfl : page % cfg.chipPages = p := Int.ofNat.inj hp
  refine ⟨Nat.mod_lt _ (by have := two_le_chipPages cfg; omega), page / cfg.chipPages, ?_,
    fun i hi => ?_⟩
  · rw [hcache]
  · rw [hcache, hbyte _ _ i hi, if_pos ⟨rfl, rfl⟩]

theorem mtdWrite_ok {page n : Nat} (hn : 0 < n) (hsafe : WriteSafe cfg page n)
    (hsize : page * cfg.writesize + n * cfg.writesize ≤ cfg.size) (s : Nand cfg) (mdata : Buffer) :
    ∃ s' : Nand cfg, mtdWrite s (page * cfg.writesize) (n * cfg.writesize) mdata = some (0, s') ∧
      s'.Coherent ∧
      s'.bytes = memcpy s.bytes (page * cfg.writesize) mdata 0 (n * cfg.writesize) := by
  have hpos := cfg.writesize_pos
  have hlen : cfg.writesize ≤ n * cfg.writesize := Nat.le_mul_of_pos_left _ hn
  obtain ⟨chipnr, s1, hloop, hchip, hbytes, hbuf⟩ := writeLoop_ok hcfg hsafe mdata
    (n - 1) page (page / cfg.chipPages) 0 (s.fill 0 mdata 0 cfg.writesize) le_rfl (by omega)
    (writeChip_first _ _) (pagebuf_fill _ _ _)
  obtain ⟨s2, hlast, hco, hbytes2⟩ := writeLast_ok hcfg s1 (page + (n - 1))
  refine ⟨s2, ?_, hco, ?_⟩
  · have hpage : (page * cfg.writesize) >>> cfg.simuPagesizeShift = page := by
      rw [shift_page, Nat.mul_div_cancel _ hpos]
    have hnpage : (n * cfg.writesize) >>> cfg.simuPagesizeShift = n := by
      rw [shift_page, Nat.mul_div_cancel _ hpos]
    have hcol : ∀ m, m * cfg.writesize &&& (cfg.writesize - 1) = 0 := by
      intro m
      rw [and_writesize, Nat.mul_mod_left]
    have hstart : (page * cfg.writesize) >>> cfg.geometry.chipShift = page / cfg.chipPages := by
      rw [shift_chip, Nat.mul_div_cancel _ hpos]
    unfold mtdWrite
    rw [if_neg (by omega), if_neg (by omega)]
    simp only [hpage, hnpage, hcol, hstart, and_mask, ne_eq, not_true_eq_false, if_false, add_zero,
      zero_add, lt_irrefl, hloop, hchip, hlast, writeOut]
  · have hfill : (s.fill 0 mdata 0 cfg.writesize).bytes = s.bytes := rfl
    rw [hbytes2, hbytes, hfill]
    have hn' : (n - 1) * cfg.writesize + cfg.writesize = n * cfg.writesize := by
      rw [← Nat.succ_mul]
      congr 1
      omega
    rw [Buffer.memcpy_congr _ _ fun i hi => ?_, add_mul]
    have happend := Buffer.memcpy_append s.bytes (page * cfg.writesize) mdata 0
      ((n - 1) * cfg.writesize) cfg.writesize
    rw [zero_add, hn'] at happend
    · exact happend
    · rw [zero_add, hbuf i hi, zero_add]

end

/-- The number of blocks of the device on one chip. -/
def Config.devBlocks (cfg : Config) : Nat := 2 ^ (cfg.geometry.chipShift - cfg.simuEraseShift)

theorem chipPages_eq : cfg.chipPages = cfg.devBlocks * cfg.blockPages := by
  have h := blockPages_le cfg
  unfold Config.chipPages Config.devBlocks Config.blockPages Config.simuEraseShift
  rw [← pow_add]
  congr 1
  omega

theorem erasesize_eq : cfg.simuErasesize = cfg.blockPages * cfg.writesize := by
  unfold Config.simuErasesize Config.simuEraseShift Config.blockPages
  rw [Nat.shiftLeft_eq, one_mul, pow_add, writesize_eq, mul_comm]

variable (cfg) in
theorem erasesize_pos : 0 < cfg.simuErasesize := by
  rw [erasesize_eq]
  exact mul_pos blockPages_pos cfg.writesize_pos

theorem eraseDevBlock_eq (chipnr blk : Nat) :
    eraseDevBlock cfg chipnr (blk * cfg.blockPages &&& cfg.simuChipPagesMask) =
      ((eraseOne cfg.world chipnr blk).1,
        (eraseOne cfg.world chipnr blk).2.filter fun e => cfg.eraseOk e.1 e.2) := by
  unfold eraseDevBlock eraseOne Config.blockPages Config.simuChipPagesMask Config.simuPagesizeShift
  rw [← Nat.shiftLeft_eq]
  have hworld : cfg.world.simulateMultiplane = cfg.simulateMultiplane := rfl
  rw [hworld]
  cases cfg.simulateMultiplane <;> rfl

section

variable (hcfg : cfg.Healthy)
include hcfg

theorem eraseOne_ret (chipnr blk : Nat) : (eraseOne cfg.world chipnr blk).1 = 0 := by
  unfold eraseOne multiErase realMultiErase simuMultiErase chipErase
  have hok : ∀ c b, cfg.world.eraseOk c b = true := hcfg.eraseOk
  simp only [hok, and_self, if_true]
  split
  · split <;> rfl
  · rfl

theorem simuByte_erase (s : Nand cfg) (chipnr blk c p i : Nat) :
    (s.erase (eraseDevBlock cfg chipnr (blk * cfg.blockPages &&& cfg.simuChipPagesMask)).2).simuByte
        c p i =
      if c = chipnr ∧ p / cfg.blockPages = blk % cfg.devBlocks then 0xff else s.simuByte c p i := by
  have hall : ∀ log : Log, log.filter (fun e => cfg.eraseOk e.1 e.2) = log :=
    fun log => List.filter_eq_self.mpr fun e _ => hcfg.eraseOk _ _
  rw [eraseDevBlock_eq, hall]
  unfold Nand.erase Nand.simuByte
  simp only [Nat.shiftRight_eq_div_pow]
  cases hmulti : cfg.simulateMultiplane with
  | false =>
    have hblocks : cfg.world.geometry.chipBlocks = cfg.devBlocks := by
      unfold Geometry.chipBlocks Config.devBlocks Config.simuEraseShift Config.simuPagesizeShift
      rw [hmulti]
      rfl
    rw [eraseOne_single cfg.world hmulti, hblocks]
    have hdiv : p / 2 ^ cfg.geometry.pagesPerBlkShift = p / cfg.blockPages := rfl
    simp only [Bool.false_eq_true, if_false, List.mem_singleton, Prod.mk.injEq, hdiv]
    split
    · rfl
    · rfl
  | true =>
    have hblocks : cfg.world.simuBlocks = cfg.devBlocks := by
      unfold World.simuBlocks Config.devBlocks Config.simuEraseShift Config.simuPagesizeShift
      rw [hmulti]
      rfl
    have hdiv : ∀ b q, cfg.planePage b q / 2 ^ cfg.geometry.pagesPerBlkShift =
        2 * (q / cfg.blockPages) + b := planePage_div
    have hboth : cfg.world.hasMultiErase = true ∨
        cfg.world.eraseOk chipnr (2 * (blk % cfg.devBlocks)) = true := .inr (hcfg.eraseOk _ _)
    rw [eraseOne_multi cfg.world (cfg.planes hmulti) hmulti, hblocks]
    simp only [if_pos hboth, if_true, List.mem_cons, List.not_mem_nil, or_false, Prod.mk.injEq,
      pageA_eq, pageB_eq, hdiv, Fin.val_zero, Fin.val_one]
    -- the halves of the page are in the even and in the odd block of the pair
    split_ifs <;> first | rfl | omega

theorem bytes_erase (s : Nand cfg) (blk : Nat) :
    (s.erase (eraseDevBlock cfg (blk / cfg.devBlocks)
        (blk * cfg.blockPages &&& cfg.simuChipPagesMask)).2).bytes =
      memcpy s.bytes (blk * cfg.simuErasesize) (fun _ => 0xff) 0 cfg.simuErasesize := by
  funext a
  unfold Nand.bytes Buffer.memcpy
  rw [simuByte_erase hcfg]
  have hblock : a / cfg.writesize / cfg.blockPages = a / cfg.simuErasesize := by
    rw [Nat.div_div_eq_div_mul, erasesize_eq, mul_comm]
  have hchip : a / cfg.writesize / cfg.chipPages = a / cfg.simuErasesize / cfg.devBlocks := by
    rw [chipPages_eq, mul_comm, ← Nat.div_div_eq_div_mul, hblock]
  have hplace : a / cfg.writesize % cfg.chipPages / cfg.blockPages =
      a / cfg.simuErasesize % cfg.devBlocks := by
    rw [chipPages_eq, mul_comm, Nat.mod_mul_right_div_self, hblock]
  rw [hplace, hchip, if_congr (place_iff (erasesize_pos cfg) _ a blk) rfl rfl]
  simp only [hchip]

theorem eraseLoop_ok {n : Nat} (left blk : Nat) (hn : 0 < n) (hleft : n ≤ left)
    (hlen : n * cfg.simuErasesize < 2 ^ 64) (s : Nand cfg) :
    ∃ s' : Nand cfg, eraseLoop left (blk * cfg.blockPages) (blk / cfg.devBlocks)
        (n * cfg.simuErasesize) s = some (0, s') ∧ s'.cache = s.cache ∧
      s'.bytes = memcpy s.bytes (blk * cfg.simuErasesize) (fun _ => 0xff) 0
        (n * cfg.simuErasesize) := by
  have hpos := erasesize_pos cfg
  induction n generalizing left blk s with
  | zero => omega
  | succ n ih =>
    obtain ⟨left, rfl⟩ : ∃ l, left = l + 1 := ⟨left - 1, by omega⟩
    have hmul : (n + 1) * cfg.simuErasesize = n * cfg.simuErasesize + cfg.simuErasesize :=
      Nat.succ_mul _ _
    have hrest : ((n + 1) * cfg.simuErasesize + (2 ^ 64 - cfg.simuErasesize)) % 2 ^ 64 =
        n * cfg.simuErasesize := by
      rw [hmul] at hlen ⊢
      rw [show n * cfg.simuErasesize + cfg.simuErasesize + (2 ^ 64 - cfg.simuErasesize) =
        n * cfg.simuErasesize + 2 ^ 64 by omega, Nat.add_mod_right, Nat.mod_eq_of_lt (by omega)]
    have hpage : blk * cfg.blockPages + 1 <<< cfg.geometry.pagesPerBlkShift =
        (blk + 1) * cfg.blockPages := by
      rw [Nat.shiftLeft_eq, one_mul, Nat.succ_mul]
      rfl
    have hchip : (if (blk + 1) * cfg.blockPages &&& cfg.simuChipPagesMask = 0 then
        blk / cfg.devBlocks + 1 else blk / cfg.devBlocks) = (blk + 1) / cfg.devBlocks := by
      rw [and_mask, chipPages_eq, Nat.mul_mod_mul_right, succ_div]
      refine if_congr ?_ rfl rfl
      rw [Nat.mul_eq_zero]
      exact or_iff_left (Nat.pos_iff_ne_zero.mp blockPages_pos)
    rw [eraseLoop]
    simp only [hrest, hpage, hchip]
    rw [show (eraseDevBlock cfg (blk / cfg.devBlocks)
      (blk * cfg.blockPages &&& cfg.simuChipPagesMask)).1 = 0 by
        rw [eraseDevBlock_eq]; exact eraseOne_ret hcfg _ _, if_neg (not_not.mpr rfl)]
    by_cases hzero : n = 0
    · subst hzero
      rw [if_neg (by omega)]
      refine ⟨_, rfl, rfl, ?_⟩
      rw [bytes_erase hcfg, zero_add, one_mul]
    · rw [if_pos (mul_pos (Nat.pos_of_ne_zero hzero) hpos)]
      obtain ⟨s', hloop, hcache, hbytes⟩ := ih left (blk + 1) (by omega) (by omega)
        (by omega) (s.erase (eraseDevBlock cfg (blk / cfg.devBlocks)
          (blk * cfg.blockPages &&& cfg.simuChipPagesMask)).2)
      refine ⟨s', hloop, hcache, ?_⟩
      rw [hbytes, bytes_erase hcfg, Nat.succ_mul, hmul, add_comm (n * _)]
      exact Buffer.memcpy_append _ _ (fun _ => 0xff) 0 _ _

theorem mtdErase_ok {blk n : Nat} (hn : 0 < n)
    (hsize : blk * cfg.simuErasesize + n * cfg.simuErasesize ≤ cfg.size) (s : Nand cfg) :
    ∃ s' : Nand cfg, mtdErase s (blk * cfg.simuErasesize) (n * cfg.simuErasesize) = some (0, s') ∧
      s'.cache = s.cache ∧
      s'.bytes = memcpy s.bytes (blk * cfg.simuErasesize) (fun _ => 0xff) 0
        (n * cfg.simuErasesize) := by
  have hpos := erasesize_pos cfg
  have hlen : n * cfg.simuErasesize < 2 ^ 64 := by
    have hchip : 2 ^ cfg.geometry.chipShift ≤ 2 ^ 54 :=
      cfg.geometry.chipShift_spec.2.trans cfg.geometry.chipsize_le
    have hall : cfg.size ≤ 4 * 2 ^ 54 := by
      unfold Config.size
      rw [Nat.shiftLeft_eq]
      exact Nat.mul_le_mul cfg.geometry.chips_le hchip
    omega
  have hleft : n ≤ cfg.size / cfg.simuErasesize + 1 := by
    have : n ≤ cfg.size / cfg.simuErasesize := (Nat.le_div_iff_mul_le hpos).mpr (by omega)
    omega
  -- the arguments are compared with blocks of one plane
  have haligned : ∀ m, m * cfg.simuErasesize &&& (cfg.geometry.erasesize - 1) = 0 := by
    intro m
    have hdvd : 2 ^ cfg.geometry.eraseShift ∣ m * cfg.simuErasesize := by
      unfold Config.simuErasesize
      rw [Nat.shiftLeft_eq, one_mul]
      refine Dvd.dvd.mul_left (pow_dvd_pow 2 ?_) m
      unfold Config.simuEraseShift Config.simuPagesizeShift Geometry.eraseShift
        Geometry.simuPagesizeShift
      split <;> omega
    unfold Geometry.erasesize
    rw [Nat.shiftLeft_eq, one_mul, Nat.and_two_pow_sub_one_eq_mod, Nat.mod_eq_zero_of_dvd hdvd]
  have hpage : (blk * cfg.simuErasesize) >>> cfg.simuPagesizeShift = blk * cfg.blockPages := by
    rw [shift_page, erasesize_eq, ← mul_assoc, Nat.mul_div_cancel _ cfg.writesize_pos]
  have hchip : (blk * cfg.simuErasesize) >>> cfg.geometry.chipShift = blk / cfg.devBlocks := by
    rw [shift_chip, ← shift_page, hpage, chipPages_eq,
      Nat.mul_div_mul_right _ _ blockPages_pos]
  unfold mtdErase
  rw [if_neg (by simp only [haligned, ne_eq, not_true_eq_false, false_or]; omega), hpage, hchip]
  exact eraseLoop_ok hcfg _ _ hn hleft hlen s

end

end Brandy.RawNand
