import Brandy.Theory.RawNand.PageStore

/-!
# Runs of the MTD Layer

The MTD layer compared with a store of bytes, over every sequence of calls. The chips never fail
here. The page buffer makes the difference: it is a copy of a page of the device, and every call
keeps it one except an erase, which does not look at it.

## Main definitions

* `MtdOp.apply`, `MtdOp.Answered`: A call of the store, and a call that is answered like it.
* `MtdOp.Safe`: The condition on a call.

## Theorems

* `answered_of_safe`: One call.
* `mtd_faithful`: A sequence of safe calls cannot be told from the store.
-/

namespace Brandy.RawNand

open Option

open Buffer (memcpy)

variable {cfg : Config}

/-- A call of the MTD layer. Writes are of whole pages and erases of whole blocks. -/
inductive MtdOp where
  | write (page n : Nat) (buf : Buffer)
  | erase (blk n : Nat)
  | read (start len : Nat) (buf : Buffer)

/-- The state after a call, if it returns. -/
def Nand.step (s : Nand cfg) : MtdOp → Option (Nand cfg)
  | .write page n buf => (mtdWrite s (page * cfg.writesize) (n * cfg.writesize) buf).map Prod.snd
  | .erase blk n => (mtdErase s (blk * cfg.simuErasesize) (n * cfg.simuErasesize)).map Prod.snd
  | .read start len buf => some (mtdRead s start len buf).nand

/-- What a call makes of the bytes of the store. -/
def MtdOp.apply (cfg : Config) (bytes : Buffer) : MtdOp → Buffer
  | .write page n buf => memcpy bytes (page * cfg.writesize) buf 0 (n * cfg.writesize)
  | .erase blk n =>
    memcpy bytes (blk * cfg.simuErasesize) (fun _ => 0xff) 0 (n * cfg.simuErasesize)
  | .read _ _ _ => bytes

/-- A call inside of the device. Only erased pages are written. -/
def MtdOp.Allowed (s : Nand cfg) : MtdOp → Prop
  | .write page n _ => page * cfg.writesize + n * cfg.writesize ≤ cfg.size ∧
      ∀ a, page * cfg.writesize ≤ a → a < page * cfg.writesize + n * cfg.writesize →
        s.bytes a = 0xff
  | .erase blk n => blk * cfg.simuErasesize + n * cfg.simuErasesize ≤ cfg.size
  | .read start len _ => start + len ≤ cfg.size

/-- What the code needs: there is something to write or to erase, a write finds its chips, the page
    in the buffer is not erased, and a read that finds its page there wants it from the same
    chip. -/
def MtdOp.Safe (s : Nand cfg) : MtdOp → Prop
  | .write page n _ => 0 < n ∧ WriteSafe cfg page n
  | .erase blk n => 0 < n ∧ ∀ chip page : Nat, s.cache.chipno = chip → s.cache.simuPageno = page →
      (chip * cfg.chipPages + page) * cfg.writesize < blk * cfg.simuErasesize ∨
        blk * cfg.simuErasesize + n * cfg.simuErasesize ≤
          (chip * cfg.chipPages + page) * cfg.writesize
  | .read start len _ =>
    hit Request.data s.cache (start / cfg.writesize % cfg.chipPages) (start % cfg.writesize) len →
      s.cache.chipno = (start / cfg.writesize / cfg.chipPages : Nat)

/-- The answer to a call is the one of the store. -/
def MtdOp.Answered (s : Nand cfg) (bytes : Buffer) : MtdOp → Prop
  | .write page n buf =>
    ∃ s', mtdWrite s (page * cfg.writesize) (n * cfg.writesize) buf = some (0, s')
  | .erase blk n =>
    ∃ s', mtdErase s (blk * cfg.simuErasesize) (n * cfg.simuErasesize) = some (0, s')
  | .read start len buf =>
    0 ≤ (mtdRead s start len buf).result ∧ (mtdRead s start len buf).hadReadlen = len ∧
      (mtdRead s start len buf).mdata = memcpy buf 0 bytes start len

/-- Every call of a sequence meets a condition on the state it finds. -/
def Meets (P : Nand cfg → MtdOp → Prop) : List MtdOp → Nand cfg → Prop
  | [], _ => True
  | op :: ops, s => P s op ∧ ∀ s', s.step op = some s' → Meets P ops s'

/-- Every call of a sequence is answered as by the store. -/
def Faithful : List MtdOp → Nand cfg → Buffer → Prop
  | [], _, _ => True
  | op :: ops, s, bytes =>
    op.Answered s bytes ∧ ∀ s', s.step op = some s' → Faithful ops s' (op.apply cfg bytes)

variable {s : Nand cfg}

theorem coherent_of_invalid (h : s.cache.simuPageno = invalidCache) :
    s.Coherent := by
  intro page hpage
  rw [h] at hpage
  exact absurd hpage (by unfold invalidCache; omega)

theorem coherent_of_outside {s s' : Nand cfg} (hco : s.Coherent) (hcache : s'.cache = s.cache)
    (h : ∀ chip page i : Nat, s.cache.chipno = chip → s.cache.simuPageno = page →
      page < cfg.chipPages → i < cfg.writesize →
        s'.bytes ((chip * cfg.chipPages + page) * cfg.writesize + i) =
          s.bytes ((chip * cfg.chipPages + page) * cfg.writesize + i)) : s'.Coherent := by
  intro page hpage
  rw [hcache] at hpage ⊢
  obtain ⟨hlt, chip, hchip, hbuf⟩ := hco page hpage
  refine ⟨hlt, chip, hchip, fun i hi => ?_⟩
  have hpos : 0 < cfg.chipPages := by omega
  have hdiv : (chip * cfg.chipPages + page) / cfg.chipPages = chip := by
    rw [mul_comm, Nat.mul_add_div hpos, Nat.div_eq_of_lt hlt, add_zero]
  have hmod : (chip * cfg.chipPages + page) % cfg.chipPages = page := by
    rw [mul_comm, Nat.mul_add_mod, Nat.mod_eq_of_lt hlt]
  have hsame := h chip page i hchip hpage hlt hi
  rw [bytes_page hi, bytes_page hi, hdiv, hmod] at hsame
  rw [hbuf i hi, hsame]

theorem answered_of_safe (hcfg : cfg.Healthy) (hco : s.Coherent) {op : MtdOp}
    (hallowed : op.Allowed s) (hsafe : op.Safe s) :
    op.Answered s s.bytes ∧
      ∀ s', s.step op = some s' → s'.Coherent ∧ s'.bytes = op.apply cfg s.bytes := by
  cases op with
  | write page n buf =>
    obtain ⟨s1, hwrite, hco1, hbytes⟩ := mtdWrite_ok hcfg hsafe.1 hsafe.2 hallowed.1 s buf
    refine ⟨⟨s1, hwrite⟩, fun s' hstep => ?_⟩
    simp only [Nand.step, hwrite, map_some, some.injEq] at hstep
    subst hstep
    exact ⟨hco1, hbytes⟩
  | erase blk n =>
    obtain ⟨s1, herase, hcache, hbytes⟩ := mtdErase_ok hcfg hsafe.1 hallowed s
    refine ⟨⟨s1, herase⟩, fun s' hstep => ?_⟩
    simp only [Nand.step, herase, map_some, some.injEq] at hstep
    subst hstep
    refine ⟨coherent_of_outside hco hcache fun chip page i hchip hpage hlt hi => ?_, hbytes⟩
    have hout := hsafe.2 chip page hchip hpage
    rw [hbytes]
    -- pages do not lie across the ends of a block
    have hpage : ∀ b, (chip * cfg.chipPages + page) * cfg.writesize < b * cfg.simuErasesize →
        (chip * cfg.chipPages + page) * cfg.writesize + cfg.writesize ≤ b * cfg.simuErasesize := by
      intro b hb
      rw [erasesize_eq, ← mul_assoc] at hb ⊢
      rw [← Nat.succ_mul]
      exact Nat.mul_le_mul_right _ (Nat.lt_of_mul_lt_mul_right hb)
    unfold Buffer.memcpy
    rw [if_neg]
    rintro ⟨hge, hlt'⟩
    rcases hout with hbefore | hbehind
    · have := hpage blk hbefore
      omega
    · omega
  | read start len buf =>
    have hdone : ReadDone (Reading.start s Request.data buf fun _ => 0) (mtdRead s start len buf)
        start len := by
      have hchip : hit Request.data s.cache (start / cfg.writesize &&& cfg.simuChipPagesMask)
          (start % cfg.writesize) len →
          s.cache.chipno = (start / cfg.writesize / cfg.chipPages : Nat) := by
        rw [and_mask]
        exact hsafe
      have hloop := readLoop_done hcfg (r := Reading.start s Request.data buf fun _ => 0)
        (Nat.mod_lt _ cfg.writesize_pos) le_rfl hco hchip
      rw [mul_comm, Nat.div_add_mod] at hloop
      unfold mtdRead readRange
      simp only [shift_chip, shift_page, and_writesize]
      exact hloop
    refine ⟨⟨?_, ?_, ?_⟩, fun s' hstep => ?_⟩
    · unfold Reading.result
      rw [if_neg (Int.not_lt.mpr hdone.ret), hdone.eccFailed]
      exact Int.natCast_nonneg _
    · rw [hdone.hadReadlen]
      exact zero_add len
    · exact hdone.mdata
    · simp only [Nand.step, some.injEq] at hstep
      subst hstep
      exact ⟨hdone.coherent, bytes_congr hdone.cell⟩

theorem faithful_of_coherent (hcfg : cfg.Healthy) (ops : List MtdOp)
    (hco : s.Coherent) (h : Meets (fun s op => op.Allowed s ∧ op.Safe s) ops s) :
    Faithful ops s s.bytes := by
  induction ops generalizing s with
  | nil => trivial
  | cons op ops ih =>
    obtain ⟨⟨hallowed, hsafe⟩, hrest⟩ := h
    obtain ⟨hanswered, hnext⟩ := answered_of_safe hcfg hco hallowed hsafe
    refine ⟨hanswered, fun s' hstep => ?_⟩
    obtain ⟨hco', hbytes⟩ := hnext s' hstep
    rw [← hbytes]
    exact ih hco' (hrest s' hstep)

/-- From a device that was just set up, whatever is on its chips, calls that are each safe in the
    state they find are answered as by a store of bytes. -/
theorem mtd_faithful (hcfg : cfg.Healthy) (ops : List MtdOp) (s : Nand cfg)
    (hfresh : s.cache.simuPageno = invalidCache)
    (h : Meets (fun s op => op.Allowed s ∧ op.Safe s) ops s) : Faithful ops s s.bytes :=
  faithful_of_coherent hcfg ops (coherent_of_invalid hfresh) h

/-- A device without faults. -/
def goodChip : Config := { firstPageBad with status := fun _ _ => 0 }

theorem goodChip_healthy : goodChip.Healthy where
  ready _ _ := rfl
  status _ _ := .inl rfl
  writeRet _ _ := rfl
  eraseOk _ _ := rfl

/-- The first page is written, a block is erased and the first byte is read. -/
def writeEraseRead (blk : Nat) : List MtdOp :=
  [.write 0 1 fun _ => 0x55, .erase blk 1, .read 0 1 fun _ => 0]

/-- The page buffer behind the write. -/
structure FirstPage (s : Nand goodChip) : Prop where
  simuPageno : s.cache.simuPageno = 0
  validCol : s.cache.validCol = 0
  validLen : s.cache.validLen = goodChip.writesize
  chipno : s.cache.chipno = 0
  simuPagebuf : s.cache.simuPagebuf 0 = 0x55

theorem first_write {s : Nand goodChip}
    (h : (freshNand goodChip).step (.write 0 1 fun _ => 0x55) = some s) : FirstPage s := by
  have hcache : ((freshNand goodChip).step (.write 0 1 fun _ => 0x55)).map (fun s =>
      (s.cache.simuPageno, s.cache.validCol, s.cache.validLen, s.cache.chipno,
        s.cache.simuPagebuf 0)) = some (0, 0, goodChip.writesize, 0, 0x55) := by
    decide +kernel
  rw [h] at hcache
  simp only [map_some, some.injEq, Prod.mk.injEq] at hcache
  obtain ⟨hpage, hcol, hlen, hchip, hbuf⟩ := hcache
  exact ⟨hpage, hcol, hlen, hchip, hbuf⟩

theorem firstPage_erase {s s' : Nand goodChip} (hfirst : FirstPage s) {blk : Nat}
    (hblk : (MtdOp.erase blk 1).Allowed s) (h : s.step (.erase blk 1) = some s') :
    FirstPage s' := by
  obtain ⟨s1, herase, hcache, -⟩ := mtdErase_ok goodChip_healthy one_pos hblk s
  simp only [Nand.step, herase, map_some, some.injEq] at h
  subst h
  obtain ⟨hpage, hcol, hlen, hchip, hbuf⟩ := hfirst
  rw [← hcache] at hpage hcol hlen hchip hbuf
  exact ⟨hpage, hcol, hlen, hchip, hbuf⟩

theorem writeEraseRead_allowed (blk : Nat)
    (hblk : blk * goodChip.simuErasesize + 1 * goodChip.simuErasesize ≤ goodChip.size) :
    Meets (fun s op => op.Allowed s) (writeEraseRead blk) (freshNand goodChip) := by
  refine ⟨⟨by decide +kernel, fun a _ _ => rfl⟩, fun s1 _ => ⟨hblk, fun s2 _ => ⟨?_, ?_⟩⟩⟩
  · exact show 0 + 1 ≤ goodChip.size by decide +kernel
  · exact fun _ _ => trivial

theorem writeEraseRead_safe : Meets (fun s op => op.Allowed s ∧ op.Safe s) (writeEraseRead 1)
    (freshNand goodChip) := by
  obtain ⟨hwrite, hrest⟩ := writeEraseRead_allowed 1 (by decide +kernel)
  refine ⟨⟨hwrite, one_pos, ?_, ?_⟩, fun s1 hs1 => ?_⟩
  · exact fun p hlt hle => absurd hle (by omega)
  · exact fun hmulti => absurd hmulti (by decide)
  obtain ⟨herase, hrest⟩ := hrest s1 hs1
  have hfirst := first_write hs1
  refine ⟨⟨herase, one_pos, fun chip page hchip hpage => .inl ?_⟩, fun s2 hs2 => ?_⟩
  · have hchip0 : chip = 0 := Int.ofNat.inj (hchip.symm.trans hfirst.chipno)
    have hpage0 : page = 0 := Int.ofNat.inj (hpage.symm.trans hfirst.simuPageno)
    subst hchip0 hpage0
    decide +kernel
  · obtain ⟨hread, hrest⟩ := hrest s2 hs2
    refine ⟨⟨hread, fun _ => ?_⟩, fun _ _ => trivial⟩
    rw [(firstPage_erase hfirst herase hs2).chipno, Nat.zero_div, Nat.zero_div]
    rfl

/-- The page is read back when another block was erased. -/
theorem mtd_faithful_other_block :
    Faithful (writeEraseRead 1) (freshNand goodChip) (freshNand goodChip).bytes :=
  mtd_faithful goodChip_healthy (writeEraseRead 1) (freshNand goodChip) rfl writeEraseRead_safe

/-- The page is still read as it was written when its own block was erased: the read takes it from
    the page buffer. -/
theorem erase_keeps_stale :
    Meets (fun s op => op.Allowed s) (writeEraseRead 0) (freshNand goodChip) ∧
      ¬ Faithful (writeEraseRead 0) (freshNand goodChip) (freshNand goodChip).bytes := by
  refine ⟨writeEraseRead_allowed 0 (by decide +kernel), fun h => ?_⟩
  obtain ⟨⟨s1, hwrite⟩, h⟩ := h
  have hs1 : (freshNand goodChip).step (.write 0 1 fun _ => 0x55) = some s1 := by
    simp only [Nand.step, hwrite, map_some]
  obtain ⟨⟨s2, herase⟩, h⟩ := h s1 hs1
  have hs2 : s1.step (.erase 0 1) = some s2 := by
    simp only [Nand.step, herase, map_some]
  obtain ⟨⟨-, -, hread⟩, -⟩ := h s2 hs2
  have hfirst := firstPage_erase (first_write hs1)
    (show 0 * goodChip.simuErasesize + 1 * goodChip.simuErasesize ≤ goodChip.size by decide +kernel)
    hs2
  have hhit : hit Request.data s2.cache
      ((0 >>> goodChip.simuPagesizeShift) &&& goodChip.simuChipPagesMask)
      (0 &&& (goodChip.writesize - 1)) 1 := by
    rw [Nat.zero_shiftRight, Nat.zero_and, Nat.zero_and]
    refine ⟨fun hc => absurd hc (by decide), hfirst.simuPageno.symm, ?_, ?_,
      fun hc => absurd hc (by decide)⟩
    · rw [hfirst.validCol]
    · rw [hfirst.validCol, hfirst.validLen]
      decide +kernel
  have hold : (mtdRead s2 0 1 fun _ => 0).mdata 0 = 0x55 := by
    unfold mtdRead readRange
    rw [readLoop_hit _ hhit, advance_mdata]
    exact hfirst.simuPagebuf
  rw [hread] at hold
  exact absurd hold (by decide +kernel)

end Brandy.RawNand
