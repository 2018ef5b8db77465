import Brandy.Theory.MtdPart.Pages
import Brandy.Library.Goods
import Brandy.Library.Simulation
import Mathlib.Data.List.GetD

/-!
# Streaming Data to a Raw Partition

The writer of a raw partition looks for bad blocks at the beginning of a call only, and it does not
count what it receives when that does not complete the page it has begun. A call is smooth when
neither matters.

## Main definitions

* `addr`: The address of a byte of the stream, in the good blocks.
* `Smooth`: The condition on a call.
* `Stored`: The good blocks hold the stream.

## Theorems

* `writeMtdPart_stored`: One smooth call.
* `stream_stored`: Along smooth calls nothing is lost.
-/

namespace Brandy.MtdPart

open Memory Word Goods Simulation List Option

/-- The address of byte `t` of the stream: the good blocks from the start of the partition on hold
    one block each. -/
def addr (geo : Geometry) (offset t : Nat) : Nat :=
  (goods geo.isBad (offset / geo.erasesize) (geo.size / geo.erasesize)).getD (t / geo.erasesize) 0 *
    geo.erasesize + t % geo.erasesize

/-- The position is that of byte `t` of the stream, or there are only bad blocks between. -/
structure Points (geo : Geometry) (offset pos t : Nat) : Prop where
  dvd : geo.erasesize ∣ offset
  le : offset ≤ pos
  mod : pos % geo.erasesize = t % geo.erasesize
  count : (goods geo.isBad (offset / geo.erasesize) (pos / geo.erasesize)).length =
    t / geo.erasesize

/-- What the calls hand over. -/
def received (calls : List (Nat × Mem)) : List UInt8 :=
  calls.flatMap fun call => read call.2 0 (call.1 * 512)

/-- Where the next byte goes, as far as the writer knows. -/
def posOf (p : Part) : Nat := p.offset + p.writtenSects * 512 + p.skipSects * 512

/-- A call that completes the page that was begun and comes to good blocks only, after the bad
    blocks at its beginning. -/
structure Smooth (geo : Geometry) (p : Part) (sectors : Nat) : Prop where
  pos : 0 < sectors
  small : sectors * 512 < 2 ^ 32
  fills : p.writtenSects * 512 % geo.pagesize = 0 ∨
    geo.pagesize - p.writtenSects * 512 % geo.pagesize ≤ sectors * 512
  row : ∃ n, (∀ x, posOf p / geo.erasesize ≤ x → x < posOf p / geo.erasesize + n →
      geo.isBad x = true) ∧
    ∀ x, posOf p / geo.erasesize + n ≤ x →
      x * geo.erasesize < posOf p + n * geo.erasesize + sectors * 512 → geo.isBad x = false

/-- The good blocks of the partition hold `data`, the page buffer the last bytes of it, and nothing
    before the partition has changed. -/
structure Stored (geo : Geometry) (p : Part) (data : List UInt8) (base wbuf flash : Mem) :
    Prop where
  recvd : p.writtenSects * 512 = data.length
  points : Points geo p.offset (posOf p) data.length
  pos_le : posOf p ≤ geo.size
  inside : data.length % geo.erasesize ≠ 0 → geo.isBad (posOf p / geo.erasesize) = false
  lastSkip : p.lastSkipBlock = -1 ∨
    0 ≤ p.lastSkipBlock ∧ p.lastSkipBlock < (posOf p / geo.erasesize : Nat)
  bytes : ∀ t < data.length, flash (addr geo p.offset t) = data.getD t 0
  blank : Blank geo flash (posOf p)
  page : ∀ k : Nat, k < data.length % geo.pagesize →
    wbuf k = data.getD (data.length - data.length % geo.pagesize + k) 0
  below : ∀ x : Int, x < p.offset → flash x = base x

/-- The blocks of `len` bytes from an address on are good. -/
abbrev GoodRow (geo : Geometry) (a len : Nat) : Prop :=
  ∀ x, a / geo.erasesize ≤ x → x * geo.erasesize < a + len → geo.isBad x = false

/-- `n` blocks from that of an address on are bad. -/
abbrev BadRow (geo : Geometry) (a n : Nat) : Prop :=
  ∀ x, a / geo.erasesize ≤ x → x < a / geo.erasesize + n → geo.isBad x = true

section

variable {geo : Geometry} {faults : Faults}

theorem good_lt {b : Nat} (hgood : geo.isBad b = false) :
    b < geo.size / geo.erasesize ∧ (b + 1) * geo.erasesize ≤ geo.size := by
  have hle : (b + 1) * geo.erasesize ≤ geo.size := by
    by_contra hlt
    have hbad := geo.beyond b (not_le.mp hlt)
    rw [hgood] at hbad
    cases hbad
  exact ⟨(Nat.le_div_iff_mul_le geo.erasesize_pos).mpr hle, hle⟩

/-- Behind the first of some bad blocks there are the others, and the good block. -/
theorem BadRow.next {a n : Nat} (hbad : BadRow geo a (n + 1))
    (hgood : geo.isBad (a / geo.erasesize + (n + 1)) = false) :
    geo.isBad (a / geo.erasesize) = true ∧ BadRow geo (a + geo.erasesize) n ∧
      geo.isBad ((a + geo.erasesize) / geo.erasesize + n) = false := by
  have hnext := Nat.add_div_right a geo.erasesize_pos
  refine ⟨hbad _ le_rfl (by omega), fun x hlo hhi => hbad x (by omega) (by omega), ?_⟩
  rwa [hnext, add_right_comm]

theorem addr_eq {offset b t : Nat} (hb : offset / geo.erasesize ≤ b) (hgood : geo.isBad b = false)
    (ht : (goods geo.isBad (offset / geo.erasesize) b).length = t / geo.erasesize) :
    addr geo offset t = b * geo.erasesize + t % geo.erasesize := by
  unfold addr
  rw [← ht, getD_goods hb (good_lt hgood).1 hgood]

theorem addr_lt {offset b t : Nat} (hb : offset / geo.erasesize ≤ b)
    (hlt : b ≤ geo.size / geo.erasesize)
    (ht : t / geo.erasesize < (goods geo.isBad (offset / geo.erasesize) b).length) :
    addr geo offset t < b * geo.erasesize := by
  have hpos := geo.erasesize_pos
  have hmem : (goods geo.isBad (offset / geo.erasesize) (geo.size / geo.erasesize)).getD
      (t / geo.erasesize) 0 < b := by
    rw [goods_append hb hlt, getD_eq_getElem?_getD, getElem?_append_left ht,
      getElem?_eq_getElem ht, getD_some]
    exact (mem_goods.mp (getElem_mem ht)).2.1
  have hmod := Nat.mod_lt t hpos
  have hblock := Nat.mul_le_mul_right geo.erasesize (Nat.succ_le_of_lt hmem)
  rw [Nat.succ_mul] at hblock
  unfold addr
  omega

theorem row_le_size {a len : Nat} (hlen : 0 < len) (hrow : GoodRow geo a len) :
    a + len ≤ geo.size := by
  -- the block of the last byte is one of them
  have hlast := Nat.div_mul_le_self (a + len - 1) geo.erasesize
  have hend := (good_lt (hrow ((a + len - 1) / geo.erasesize) (Nat.div_le_div_right (by omega))
    (by omega))).2
  have hlt := lt_blockEnd geo (a + len - 1)
  unfold blockEnd at hlt
  omega

section

variable {offset pos t len : Nat} (h : Points geo offset pos t)
include h

theorem Points.start_le : offset / geo.erasesize ≤ pos / geo.erasesize :=
  Nat.div_le_div_right h.le

theorem Points.skip {n : Nat} (hbad : BadRow geo pos n) :
    Points geo offset (pos + n * geo.erasesize) t := by
  have hblock : (pos + n * geo.erasesize) / geo.erasesize = pos / geo.erasesize + n :=
    Nat.add_mul_div_right _ _ geo.erasesize_pos
  constructor
  · exact h.dvd
  · exact le_trans h.le (Nat.le_add_right _ _)
  · rw [Nat.add_mul_mod_self_right, h.mod]
  · have hnone : goods geo.isBad (pos / geo.erasesize) (pos / geo.erasesize + n) = [] := by
      refine eq_nil_iff_forall_not_mem.mpr fun x hx => ?_
      rcases mem_goods.mp hx with ⟨hlo, hhi, hno⟩
      rw [hbad x hlo hhi] at hno
      cases hno
    rw [hblock, goods_append h.start_le (Nat.le_add_right _ n), hnone, append_nil, h.count]

theorem Points.addr_eq_pos (hgood : geo.isBad (pos / geo.erasesize) = false) :
    addr geo offset t = pos := by
  rw [addr_eq h.start_le hgood h.count, ← h.mod, mul_comm, Nat.div_add_mod]

theorem Points.run (hrow : GoodRow geo pos len) :
    Points geo offset (pos + len) (t + len) := by
  have hpos := geo.erasesize_pos
  have hp := Nat.div_add_mod pos geo.erasesize
  have ht := Nat.div_add_mod t geo.erasesize
  -- both come to the same number of blocks further on
  have hpdiv : (pos + len) / geo.erasesize =
      pos / geo.erasesize + (t % geo.erasesize + len) / geo.erasesize := by
    rw [← Nat.mul_add_div hpos, ← add_assoc, ← h.mod, hp]
  have htdiv : (t + len) / geo.erasesize =
      t / geo.erasesize + (t % geo.erasesize + len) / geo.erasesize := by
    rw [← Nat.mul_add_div hpos, ← add_assoc, ht]
  constructor
  · exact h.dvd
  · exact le_trans h.le (Nat.le_add_right _ _)
  · rw [Nat.add_mod, h.mod, ← Nat.add_mod]
  · rw [htdiv, hpdiv, length_goods_add h.start_le, h.count]
    intro x hlo hhi
    rw [← hpdiv] at hhi
    have hend := Nat.div_mul_le_self (pos + len) geo.erasesize
    have hmul := Nat.mul_le_mul_right geo.erasesize hhi
    rw [Nat.succ_mul] at hmul
    exact hrow x hlo (by omega)

theorem Points.addr_add (hrow : GoodRow geo pos len) {i : Nat} (hi : i < len) :
    addr geo offset (t + i) = pos + i := by
  have hblock := Nat.div_mul_le_self (pos + i) geo.erasesize
  refine (h.run fun x hlo hhi => hrow x hlo (by omega)).addr_eq_pos ?_
  exact hrow _ (Nat.div_le_div_right (Nat.le_add_right _ _)) (by omega)

end

theorem toBytes_eq {sects : Nat} (h : sects * 512 < 2 ^ 32) : toBytes sects = sects * 512 :=
  Nat.mod_eq_of_lt h

theorem toSects_mul (geo : Geometry) : toSects geo.erasesize * 512 = geo.erasesize :=
  Nat.div_mul_cancel geo.sector_dvd

theorem checkLoop_ok {offset recvd : Nat} (n : Nat) {fuel skip pos : Nat} {last : Int}
    (hfuel : n < fuel) (hpos : offset + recvd + skip * 512 = pos)
    (hlt : pos + n * geo.erasesize < 2 ^ 32) (hbad : BadRow geo pos n)
    (hgood : geo.isBad (pos / geo.erasesize + n) = false)
    (hlast : last = -1 ∨ 0 ≤ last ∧ last < (pos / geo.erasesize : Nat)) :
    ∃ last', checkLoop geo offset recvd fuel skip last =
        some (skip + n * toSects geo.erasesize, last') ∧
      (last' = -1 ∨ 0 ≤ last' ∧ last' < (pos / geo.erasesize + n : Nat)) := by
  rcases Nat.exists_eq_succ_of_ne_zero (show fuel ≠ 0 by omega) with ⟨fuel, rfl⟩
  rw [checkLoop, toBytes_eq (by omega), show recvd + skip * 512 + offset = pos by omega,
    Nat.mod_eq_of_lt (show pos < 2 ^ 32 by omega)]
  cases n with
  | zero =>
    refine ⟨last, ?_, hlast⟩
    rw [if_neg, zero_mul, add_zero]
    rintro ⟨hbad, -⟩
    rw [add_zero, hbad] at hgood
    cases hgood
  | succ n =>
    have hskip : offset + recvd + (skip + toSects geo.erasesize) * 512 = pos + geo.erasesize := by
      rw [add_mul, toSects_mul, ← hpos, add_assoc _ (skip * 512)]
    rw [Nat.succ_mul] at hlt
    -- the block after the one that is skipped
    have hnext := Nat.add_div_right pos geo.erasesize_pos
    have hepos := geo.erasesize_pos
    have hblock := Nat.div_le_self pos geo.erasesize
    obtain ⟨hfirst, hrest, hend⟩ := BadRow.next hbad hgood
    rcases checkLoop_ok n (show n < fuel by omega) hskip (by omega) hrest hend
      (.inr ⟨Int.natCast_nonneg (pos / geo.erasesize), by omega⟩) with ⟨last', heq, hlast'⟩
    refine ⟨last', ?_, by omega⟩
    rw [if_pos, Nat.mod_eq_of_lt (by omega), heq]
    · congr 2
      rw [Nat.succ_mul]
      omega
    · refine ⟨hfirst, ?_⟩
      -- a block that was skipped before is not met again
      rcases hlast with rfl | ⟨hnonneg, hlt'⟩
      · rw [show u32 (-1) = 4294967295 by decide +kernel]
        omega
      · rw [u32_of_range last.toNat (by omega) (by omega)]
        omega

section

variable {p : Part} {data : List UInt8} {base wbuf flash : Mem}

section

variable (h : Stored geo p data base wbuf flash)
include h

theorem Stored.pos_eq : p.offset + data.length + p.skipSects * 512 = posOf p := by
  unfold posOf
  rw [h.recvd]

/-- The position in the stream and the one on the chip agree inside whatever divides a block. -/
theorem Stored.mod_eq {n : Nat} (hn : n ∣ geo.erasesize) (len : Nat) :
    (posOf p + len) % n = (data.length + len) % n :=
  ((show posOf p ≡ data.length [MOD geo.erasesize] from h.points.mod).of_dvd hn).add_right len

theorem Stored.toBytes_eq : toBytes p.writtenSects = data.length := by
  have hsize := geo.size_lt
  have hle := h.pos_le
  have hsum := h.pos_eq
  rw [MtdPart.toBytes_eq (by rw [h.recvd]; omega), h.recvd]

end

theorem posOf_skip (geo : Geometry) (p : Part) (n : Nat) (last : Int) :
    posOf { p with skipSects := p.skipSects + n * toSects geo.erasesize, lastSkipBlock := last } =
      posOf p + n * geo.erasesize := by
  unfold posOf
  dsimp only
  rw [add_mul, mul_assoc, toSects_mul]
  omega

theorem Stored.skip (h : Stored geo p data base wbuf flash) {n : Nat} {last : Int}
    (hbad : BadRow geo (posOf p) n)
    (hgood : geo.isBad (posOf p / geo.erasesize + n) = false)
    (hlast : last = -1 ∨ 0 ≤ last ∧ last < (posOf p / geo.erasesize + n : Nat)) :
    Stored geo
      { p with skipSects := p.skipSects + n * toSects geo.erasesize, lastSkipBlock := last }
      data base wbuf flash := by
  have hmove := posOf_skip geo p n last
  have hblock : (posOf p + n * geo.erasesize) / geo.erasesize = posOf p / geo.erasesize + n :=
    Nat.add_mul_div_right _ _ geo.erasesize_pos
  constructor
  · exact h.recvd
  · rw [hmove]
    exact h.points.skip hbad
  · rw [hmove]
    have hend := (good_lt hgood).2
    have hlt := lt_blockEnd geo (posOf p + n * geo.erasesize)
    unfold blockEnd at hlt
    rw [hblock] at hlt
    omega
  · intro _
    rw [hmove, hblock]
    exact hgood
  · rw [hmove, hblock]
    exact hlast
  · exact h.bytes
  · rw [hmove]
    rcases Nat.eq_zero_or_pos n with rfl | hn
    · rw [zero_mul, add_zero]
      exact h.blank
    -- bad blocks are skipped at the start of a block only
    intro hmod
    rw [Nat.add_mul_mod_self_right, h.points.mod] at hmod
    have hinside := h.inside hmod
    rw [hbad _ le_rfl (by omega)] at hinside
    cases hinside
  · exact h.page
  · exact h.below

theorem mod_le_of_fills {r len : Nat} (hfills : r % geo.pagesize = 0 ∨
    geo.pagesize - r % geo.pagesize ≤ len) : (r + len) % geo.pagesize ≤ len := by
  have hpos := geo.pagesize_pos
  have hmod := Nat.mod_lt r hpos
  rw [Nat.add_mod]
  rcases hfills with hzero | hfills
  · rw [hzero, zero_add, Nat.mod_mod]
    exact Nat.mod_le _ _
  by_cases hlast : len % geo.pagesize = len
  · rw [hlast, Nat.mod_eq_sub_mod (by omega)]
    exact le_trans (Nat.mod_le _ _) (by omega)
  have hlt := Nat.mod_lt (r % geo.pagesize + len % geo.pagesize) hpos
  have hge : geo.pagesize ≤ len := by
    by_contra hsmall
    exact hlast (Nat.mod_eq_of_lt (not_le.mp hsmall))
  omega

section

variable (h : Stored geo p data base wbuf flash)
  (hgood : geo.isBad (posOf p / geo.erasesize) = false)
include h hgood

theorem Stored.page_eq (k : Nat) (hk : k < posOf p % geo.pagesize) :
    wbuf k = flash (posOf p - posOf p % geo.pagesize + k : Nat) := by
  have hcol : posOf p % geo.pagesize = data.length % geo.pagesize := h.mod_eq geo.pagesize_dvd 0
  have hmod := h.points.mod
  -- the page that was begun is in the block of the position
  have hin : data.length % geo.pagesize ≤ data.length % geo.erasesize := by
    rw [← Nat.mod_mod_of_dvd data.length geo.pagesize_dvd]
    exact Nat.mod_le _ _
  rw [hcol] at hk ⊢
  have hsplit := Nat.div_add_mod data.length geo.erasesize
  have hpsplit := Nat.div_add_mod (posOf p) geo.erasesize
  have hlt := Nat.mod_lt data.length geo.erasesize_pos
  generalize hc : data.length % geo.pagesize = c at *
  have ht : data.length - c + k =
      geo.erasesize * (data.length / geo.erasesize) + (data.length % geo.erasesize - c + k) := by
    omega
  have hsmall : data.length % geo.erasesize - c + k < geo.erasesize := by omega
  have hdiv : (data.length - c + k) / geo.erasesize = data.length / geo.erasesize := by
    rw [ht, Nat.mul_add_div geo.erasesize_pos, Nat.div_eq_of_lt hsmall, add_zero]
  have hrem : (data.length - c + k) % geo.erasesize = data.length % geo.erasesize - c + k := by
    rw [ht, Nat.mul_add_mod, Nat.mod_eq_of_lt hsmall]
  rw [h.page k (hc ▸ hk), hc, ← h.bytes _ (by omega),
    addr_eq h.points.start_le hgood (h.points.count.trans hdiv.symm), hrem]
  congr 2
  rw [mul_comm]
  omega

theorem Stored.addr_lt_pos {t : Nat} (ht : t < data.length) : addr geo p.offset t < posOf p := by
  have hmod := h.points.mod
  have hpsplit := Nat.div_add_mod (posOf p) geo.erasesize
  rw [mul_comm] at hpsplit
  rcases Nat.lt_or_eq_of_le (Nat.div_le_div_right (c := geo.erasesize) (le_of_lt ht)) with hlt | heq
  · have := addr_lt h.points.start_le (le_of_lt (good_lt hgood).1) (h.points.count ▸ hlt)
    omega
  rw [addr_eq h.points.start_le hgood (h.points.count.trans heq.symm)]
  have hsplit := Nat.div_add_mod data.length geo.erasesize
  have htsplit := Nat.div_add_mod t geo.erasesize
  rw [heq] at htsplit
  omega

end

theorem Stored.write {buffer wbuf' flash' : Mem} {sectors : Nat}
    (h : Stored geo p data base wbuf flash)
    (hgood : geo.isBad (posOf p / geo.erasesize) = false)
    (hrow : GoodRow geo (posOf p) (sectors * 512))
    (hfills : data.length % geo.pagesize = 0 ∨
      geo.pagesize - data.length % geo.pagesize ≤ sectors * 512)
    (hpos : 0 < sectors)
    (hw : Written geo buffer 0 (posOf p) (sectors * 512) flash wbuf' flash') :
    Stored geo { p with writtenSects := p.writtenSects + sectors }
      (data ++ read buffer 0 (sectors * 512)) base wbuf' flash' := by
  have hepos := geo.erasesize_pos
  have hmove : posOf { p with writtenSects := p.writtenSects + sectors } =
      posOf p + sectors * 512 := by
    unfold posOf
    dsimp only
    rw [add_mul]
    omega
  have hlength : (data ++ read buffer 0 (sectors * 512)).length = data.length + sectors * 512 := by
    rw [length_append, length_read]
  have hfwd : posOf p / geo.erasesize ≤ (posOf p + sectors * 512) / geo.erasesize :=
    Nat.div_le_div_right (Nat.le_add_right _ _)
  constructor
  · rw [hlength, ← h.recvd, ← add_mul]
  · rw [hmove, hlength]
    exact h.points.run hrow
  · rw [hmove]
    exact row_le_size (by omega) hrow
  · intro hmod
    rw [hlength, ← h.mod_eq (dvd_refl geo.erasesize)] at hmod
    rw [hmove]
    have hsplit := Nat.div_add_mod (posOf p + sectors * 512) geo.erasesize
    rw [mul_comm] at hsplit
    exact hrow _ hfwd (by omega)
  · rw [hmove]
    rcases h.lastSkip with hnone | ⟨hnonneg, hlt⟩
    · exact .inl hnone
    · exact .inr ⟨hnonneg, lt_of_lt_of_le hlt (by exact_mod_cast hfwd)⟩
  · intro t ht
    rw [hlength] at ht
    by_cases hold : t < data.length
    · have hbefore := h.addr_lt_pos hgood hold
      rw [hw.below _ (by exact_mod_cast hbefore), h.bytes t hold, getD_append _ _ _ _ hold]
    rcases Nat.exists_eq_add_of_le (not_lt.mp hold) with ⟨i, rfl⟩
    rw [h.points.addr_add hrow (show i < sectors * 512 by omega),
      hw.data _ (by push_cast; omega) (by push_cast; omega),
      getD_append_right _ _ _ _ (Nat.le_add_right _ _), Nat.add_sub_cancel_left,
      getD_read _ _ _ _ (by omega)]
    congr 1
    omega
  · rw [hmove]
    exact hw.blank
  · intro k hk
    have hle := mod_le_of_fills hfills
    rw [hlength] at hk ⊢
    have hpage := hw.page k (by rw [h.mod_eq geo.pagesize_dvd]; exact hk)
    rw [h.mod_eq geo.pagesize_dvd] at hpage
    rw [hpage, getD_append_right _ _ _ _ (by omega), getD_read _ _ _ _ (by omega)]
    congr 1
    omega
  · intro x hx
    have hstart : (p.offset : Int) ≤ posOf p := by
      rw [← h.pos_eq]
      omega
    dsimp only at hx
    rw [hw.below x (by omega), h.below x hx]

end

theorem startPart_lastNum (geo : Geometry) (faults : Faults) (st : St) (num : Nat) :
    (startPart geo faults st num).lastNum = num := by
  unfold startPart
  by_cases h : (num : Int) ≠ st.lastNum
  · rw [if_pos h]
    rfl
  · rw [if_neg h, not_not.mp h]

variable {num : Nat} {st : St}

theorem startPart_of_lastNum (h : st.lastNum = num) :
    startPart geo faults st num = st := by
  unfold startPart
  rw [if_neg (not_not.mpr h.symm)]

theorem flushMtdDev_offset (geo : Geometry) (faults : Faults) (st : St) (num : Nat) :
    ((flushMtdDev geo faults st).2.part num).offset = (st.part num).offset := by
  unfold flushMtdDev
  split
  · rfl
  dsimp only
  split
  · rfl
  split
  · rfl
  · dsimp only
    by_cases hnum : num = st.lastPartno.toNat
    · rw [hnum, St.setPart_part_self]
    · rw [St.setPart_part_other _ _ _ hnum]

theorem startPart_stored (hnew : (num : Int) ≠ st.lastNum)
    (hdvd : geo.erasesize ∣ (st.part num).offset) (hle : (st.part num).offset ≤ geo.size) :
    Stored geo ((startPart geo faults st num).part num) [] (flushMtdDev geo faults st).2.flash
      (startPart geo faults st num).wbuf (startPart geo faults st num).flash := by
  have hoffset := flushMtdDev_offset geo faults st num
  unfold startPart
  rw [if_pos hnew]
  generalize (flushMtdDev geo faults st).2 = s at hoffset ⊢
  simp only [St.setPart_part_self, St.setPart_wbuf, St.setPart_flash, hoffset]
  have hpos : posOf { s.part num with
      offset := (st.part num).offset, writtenSects := 0, skipSects := 0, lastSkipBlock := -1 } =
      (st.part num).offset := by
    unfold posOf
    simp only [zero_mul, add_zero]
  constructor
  · exact zero_mul 512
  · rw [hpos]
    refine ⟨hdvd, le_rfl, Nat.mod_eq_zero_of_dvd hdvd, ?_⟩
    rw [length_nil, Nat.zero_div, goods_of_le le_rfl, length_nil]
  · rw [hpos]
    exact hle
  · intro hmod
    exact absurd (Nat.zero_mod _) hmod
  · exact .inl rfl
  · intro t ht
    cases ht
  · rw [hpos]
    intro hmod
    exact absurd (Nat.mod_eq_zero_of_dvd hdvd) hmod
  · intro k hk
    rw [length_nil, Nat.zero_mod] at hk
    cases hk
  · intro x _
    rfl

variable {data : List UInt8}

theorem writeData_stored (st : St) {st' : St} {sectors : Nat} {buffer base : Mem}
    (h : Stored geo (st.part num) data base st.wbuf st.flash)
    (hrow : GoodRow geo (posOf (st.part num)) (sectors * 512))
    (hfills : data.length % geo.pagesize = 0 ∨
      geo.pagesize - data.length % geo.pagesize ≤ sectors * 512)
    (hpos : 0 < sectors) (hret : writeData geo faults st num sectors buffer = (0, st')) :
    Stored geo (st'.part num) (data ++ read buffer 0 (sectors * 512)) base st'.wbuf st'.flash ∧
      st'.lastNum = st.lastNum ∧ st'.lastPartno = st.lastPartno ∧
      (st'.part num).offset = (st.part num).offset := by
  have hsize := geo.size_lt
  have hend := row_le_size (show 0 < sectors * 512 by omega) hrow
  have hblock := Nat.div_mul_le_self (posOf (st.part num)) geo.erasesize
  have hgood := hrow _ le_rfl (by omega)
  have hsum := h.pos_eq
  have hbytes := h.toBytes_eq
  unfold writeData at hret
  rw [hbytes, toBytes_eq (show sectors * 512 < 2 ^ 32 by omega),
    toBytes_eq (show (st.part num).skipSects * 512 < 2 ^ 32 by omega)] at hret
  rcases hfill : fillPage geo faults (st.part num).offset ((st.part num).skipSects * 512) buffer
    (sectors * 512) data.length st.wbuf st.flash with ⟨ret, len, off, recvd, wbuf₁, flash₁⟩
  simp only [hfill] at hret
  obtain ⟨rfl, hrest⟩ := ret_eq_zero hret
  rcases hloop : writeLoop geo faults (st.part num).offset ((st.part num).skipSects * 512) buffer
    ((len + geo.pagesize - 1) / geo.pagesize) len off recvd wbuf₁ flash₁ with
    ⟨ret₂, recvd', wbuf', flash'⟩
  simp only [hloop] at hrest
  obtain ⟨rfl, hdone⟩ := ret_eq_zero hrest
  rcases writeData_ok hsum (h.mod_eq geo.pagesize_dvd 0) (by omega) (h.page_eq hgood) h.blank
    hfills hfill hloop with ⟨hrecvd, hwritten⟩
  have hsects : toSects recvd' = (st.part num).writtenSects + sectors := by
    unfold toSects
    rw [hrecvd, ← h.recvd, ← add_mul, Nat.mul_div_cancel _ (by decide)]
  cases hdone
  simp only [St.setPart_part_self, St.setPart_wbuf, St.setPart_flash, hsects]
  exact ⟨h.write hgood hrow hfills hpos hwritten, rfl, rfl, trivial⟩

theorem writeMtdPart_stored {st st' : St} {sectors : Nat} {buffer base : Mem}
    (h : Stored geo ((startPart geo faults st num).part num) data base
      (startPart geo faults st num).wbuf (startPart geo faults st num).flash)
    (hsmooth : Smooth geo ((startPart geo faults st num).part num) sectors)
    (hret : writeMtdPart geo faults st num sectors buffer = some (0, st')) :
    Stored geo (st'.part num) (data ++ read buffer 0 (sectors * 512)) base st'.wbuf st'.flash ∧
      st'.lastNum = num ∧ st'.lastPartno = (startPart geo faults st num).lastPartno ∧
      (st'.part num).offset = ((startPart geo faults st num).part num).offset := by
  have hsize := geo.size_lt
  have hlastNum := startPart_lastNum geo faults st num
  unfold writeMtdPart at hret
  generalize startPart geo faults st num = s at *
  have hsum := h.pos_eq
  rcases hsmooth.row with ⟨n, hbad, hrow⟩
  have hpos := hsmooth.pos
  -- the search ends at the first block of the row
  have hrow' : GoodRow geo (posOf (s.part num) + n * geo.erasesize) (sectors * 512) := by
    rwa [GoodRow, Nat.add_mul_div_right _ _ geo.erasesize_pos]
  have hend := row_le_size (show 0 < sectors * 512 by omega) hrow'
  have hgood : geo.isBad (posOf (s.part num) / geo.erasesize + n) = false := by
    have hblock := Nat.div_mul_le_self (posOf (s.part num) + n * geo.erasesize) geo.erasesize
    rw [Nat.add_mul_div_right _ _ geo.erasesize_pos] at hblock
    exact hrow _ le_rfl (by omega)
  have hfuel : n < 2 ^ 23 + 1 := by
    have hsector := Nat.le_of_dvd geo.erasesize_pos geo.sector_dvd
    have hmul := Nat.mul_le_mul_left n hsector
    omega
  rcases checkLoop_ok n hfuel hsum (by omega) hbad hgood h.lastSkip with ⟨last, hcheck, hlast⟩
  dsimp only at hret
  split at hret
  · rw [some.injEq, Prod.mk.injEq] at hret
    exact absurd hret.1 (by decide)
  rw [h.toBytes_eq, hcheck] at hret
  rw [some.injEq] at hret
  have hskip := h.skip hbad hgood hlast
  rcases writeData_stored _ (by rw [St.setPart_part_self]; exact hskip)
    (by rw [St.setPart_part_self, posOf_skip]; exact hrow')
    (by rw [← h.recvd]; exact hsmooth.fills) hpos hret with
    ⟨hstored, hnum, hpartno, hoffset⟩
  rw [St.setPart_part_self] at hoffset
  exact ⟨hstored, hnum.trans hlastNum, hpartno, hoffset⟩

/-- The flush of the partition changes nothing: no block was skipped, or the last page is full, or
    there is nothing to write. -/
def Settled (geo : Geometry) (p : Part) : Prop :=
  p.skipSects = 0 ∨ p.writtenSects * 512 % geo.pagesize = 0 ∨
    toAlign (toBytes p.planWrSects) geo.pagesize ≤
      p.writtenSects * 512 / geo.pagesize * geo.pagesize

/-- What holds after the calls `done`, the partition being started in any case. -/
def Holding (geo : Geometry) (faults : Faults) (num offset : Nat) (base : Mem)
    (done : List (Nat × Mem)) (s : St) : Prop :=
  Stored geo ((startPart geo faults s num).part num) (received done) base
      (startPart geo faults s num).wbuf (startPart geo faults s num).flash ∧
    (startPart geo faults s num).lastPartno = num ∧
    ((startPart geo faults s num).part num).offset = offset ∧ (done = [] ∨ s.lastNum = num)

theorem flush_settled {base : Mem} (hnum : st.lastPartno = num)
    (h : Stored geo (st.part num) data base st.wbuf st.flash)
    (hsettled : Settled geo (st.part num)) :
    (flushMtdDev geo faults st).2.flash = st.flash := by
  have hsize := geo.size_lt
  have hle := h.pos_le
  have hsum := h.pos_eq
  have hbytes := h.toBytes_eq
  have hsplit := Nat.div_add_mod data.length geo.pagesize
  rw [mul_comm] at hsplit
  have hwhere : ((st.part num).offset + toBytes (st.part num).writtenSects / geo.pagesize *
      geo.pagesize) % 2 ^ 32 =
      (st.part num).offset + data.length / geo.pagesize * geo.pagesize := by
    rw [hbytes]
    exact Nat.mod_eq_of_lt (by omega)
  have hcol : toBytes (st.part num).writtenSects % geo.pagesize = data.length % geo.pagesize := by
    rw [hbytes]
  unfold Settled at hsettled
  rw [h.recvd] at hsettled
  by_cases hfull : data.length % geo.pagesize = 0
  · refine flushMtdDev_flash hnum hwhere hcol fun x hlo hhi => ?_
    rw [hfull] at hhi
    omega
  rcases hsettled with hskip | hno | hplan
  · -- the page that is not full is where the flush puts it
    have hgood : geo.isBad (posOf (st.part num) / geo.erasesize) = false := by
      refine h.inside fun hmod => hfull ?_
      exact Nat.mod_eq_zero_of_dvd (dvd_trans geo.pagesize_dvd (Nat.dvd_of_mod_eq_zero hmod))
    have hpmod : posOf (st.part num) % geo.pagesize = data.length % geo.pagesize :=
      h.mod_eq geo.pagesize_dvd 0
    rw [hskip, zero_mul, add_zero] at hsum
    refine flushMtdDev_flash hnum hwhere hcol fun x hlo hhi => ?_
    have hpage := h.page_eq hgood
      (x - ((st.part num).offset + data.length / geo.pagesize * geo.pagesize : Nat)).toNat
      (by omega)
    rw [hpmod] at hpage
    rw [show ((posOf (st.part num) - data.length % geo.pagesize + (x - ((st.part num).offset +
      data.length / geo.pagesize * geo.pagesize : Nat)).toNat : Nat) : Int) = x by omega,
      Int.toNat_of_nonneg (by omega)] at hpage
    rw [hpage, UInt8.and_self]
  · exact absurd hno hfull
  · unfold flushMtdDev
    rw [hnum, if_neg (by omega)]
    dsimp only
    rw [Int.toNat_natCast, hbytes, if_pos hplan]

/-- Along smooth calls that all return 0 the good blocks hold what was received. -/
theorem stored_along (hnew : (num : Int) ≠ st.lastNum)
    (hdvd : geo.erasesize ∣ (st.part num).offset) (hle : (st.part num).offset ≤ geo.size)
    {calls : List (Nat × Mem)}
    (hsmooth : Along (writeStep geo faults num)
      (fun s call => Smooth geo ((startPart geo faults s num).part num) call.1) st calls)
    (hzero : ∀ r ∈ replies (writeStep geo faults num) st calls, r = some 0) :
    Holding geo faults num (st.part num).offset (flushMtdDev geo faults st).2.flash calls
      (after (writeStep geo faults num) st calls) := by
  refine after_of_step (Q := fun r => r = some 0) (fun done s call hI hP hQ => ?_) [] st ?_
    hsmooth hzero
  · rcases hI with ⟨hstored, hpartno, hoffset, -⟩
    unfold writeStep at hQ ⊢
    rcases hcall : writeMtdPart geo faults s num call.1 call.2 with - | ⟨ret, s'⟩
    · rw [hcall] at hQ
      cases hQ
    rw [hcall] at hQ
    rw [some.injEq] at hQ
    rw [hQ] at hcall
    rcases writeMtdPart_stored hstored hP hcall with ⟨hstored', hnum, hpartno', hoffset'⟩
    unfold Holding
    rw [startPart_of_lastNum hnum]
    refine ⟨?_, hpartno'.trans hpartno, hoffset'.trans hoffset, .inr hnum⟩
    unfold received at hstored' ⊢
    rw [flatMap_append, flatMap_singleton]
    exact hstored'
  · refine ⟨startPart_stored hnew hdvd hle, ?_, ?_, .inl rfl⟩
    · unfold startPart
      rw [if_pos hnew]
      rfl
    · unfold startPart
      rw [if_pos hnew]
      rw [St.setPart_part_self]
      exact flushMtdDev_offset geo faults st num

/-- Along smooth calls that all return 0, nothing is lost: when another partition is started, the
    good blocks of the partition begin with what was received, and nothing before it has changed
    since its start. -/
theorem stream_stored {st : St} {num next : Nat} {calls : List (Nat × Mem)}
    (hnew : (num : Int) ≠ st.lastNum) (hdvd : geo.erasesize ∣ (st.part num).offset)
    (hle : (st.part num).offset ≤ geo.size) (hcalls : calls ≠ []) (hnext : next ≠ num)
    (hsmooth : Along (writeStep geo faults num)
      (fun s call => Smooth geo ((startPart geo faults s num).part num) call.1) st calls)
    (hzero : ∀ r ∈ replies (writeStep geo faults num) st calls, r = some 0)
    (hsettled : Settled geo ((after (writeStep geo faults num) st calls).part num)) :
    (∀ t < (received calls).length,
      (startPart geo faults (after (writeStep geo faults num) st calls) next).flash
        (addr geo (st.part num).offset t) = (received calls).getD t 0) ∧
    ∀ x : Int, x < (st.part num).offset →
      (startPart geo faults (after (writeStep geo faults num) st calls) next).flash x =
        (flushMtdDev geo faults st).2.flash x := by
  have hrun := stored_along hnew hdvd hle hsmooth hzero
  generalize after (writeStep geo faults num) st calls = s at *
  rcases hrun.2.2.2 with hnil | hlast
  · exact absurd hnil hcalls
  rcases hrun with ⟨hstored, hpartno, hoffset, -⟩
  rw [startPart_of_lastNum hlast] at hstored hpartno hoffset
  have hflush : (startPart geo faults s next).flash = s.flash := by
    unfold startPart
    rw [hlast, if_pos (by exact_mod_cast hnext)]
    exact flush_settled hpartno hstored hsettled
  rw [hflush, ← hoffset]
  exact ⟨hstored.bytes, hstored.below⟩

/-- A chip of 128 MiB with pages of 2 KiB, blocks of 128 KiB and no bad block. -/
def goodChip : Geometry where
  erasesize := 131072
  pagesize := 2048
  size := 134217728
  isBad b := decide (1024 ≤ b)
  pagesize_pos := by decide
  erasesize_pos := by decide
  pagesize_dvd := by decide
  sector_dvd := by decide
  size_lt := by decide
  beyond b hb := decide_eq_true (by omega)

/-- Nothing has been written, and partition 0 starts at block 8. -/
def freshSt : St where
  wbuf _ := 0
  lastPartno := -1
  part _ := ⟨1048576, 0, 0, 0, -1⟩
  lastNum := -1
  flash _ := 0

/-- A chip with four blocks, of which the second one is bad. -/
def smallChip : Geometry where
  erasesize := 512
  pagesize := 512
  size := 2048
  isBad b := decide (b = 1 ∨ 4 ≤ b)
  pagesize_pos := Nat.two_pow_pos 9
  erasesize_pos := Nat.two_pow_pos 9
  pagesize_dvd := Nat.dvd_mul_right 512 1
  sector_dvd := Nat.dvd_mul_right 512 1
  size_lt := by decide
  beyond b hb := decide_eq_true (by omega)

/-- Nothing has been written to it either. Its bytes are the numbers of the blocks. -/
def smallSt : St :=
  { freshSt with part _ := ⟨0, 0, 0, 0, -1⟩, flash x := UInt8.ofNat (x.toNat / 512) }

/-- Two calls with a page each. The bad block is between the pages. -/
def twoSectors : List (Nat × Mem) := [(1, fun _ => 1), (1, fun _ => 2)]

theorem smooth_twoSectors : Along (writeStep smallChip noFaults 0)
    (fun s call => Smooth smallChip ((startPart smallChip noFaults s 0).part 0) call.1)
    smallSt twoSectors := by
  refine ⟨⟨by decide, by decide, .inl (by decide +kernel), 0, ?_⟩,
    ⟨by decide, by decide, .inl (by decide +kernel), 1, ?_⟩, trivial⟩
  · rw [show posOf _ = 0 by decide +kernel]
    refine ⟨fun x hlo hhi => by omega, fun x hlo hx => decide_eq_false ?_⟩
    change x * 512 < 512 at hx
    omega
  · rw [show posOf _ = 512 by decide +kernel]
    refine ⟨fun x hlo hhi => decide_eq_true ?_, fun x hlo hx => decide_eq_false ?_⟩
    · change 1 ≤ x at hlo
      change x < 2 at hhi
      omega
    · change 2 ≤ x at hlo
      change x * 512 < 1536 at hx
      omega

/-- The pages are in the blocks 0 and 2 when another partition is started. -/
theorem stream_twoSectors :
    (received twoSectors).length = 1024 ∧ ∀ t < 1024,
      (startPart smallChip noFaults
        (after (writeStep smallChip noFaults 0) smallSt twoSectors) 1).flash
        (addr smallChip 0 t) = (received twoSectors).getD t 0 := by
  have hlength : (received twoSectors).length = 1024 := by decide +kernel
  refine ⟨hlength, ?_⟩
  rw [← hlength]
  exact (stream_stored (by decide) (by decide) (by decide) (cons_ne_nil _ _) (by decide)
    smooth_twoSectors (by decide +kernel) (.inr (.inl (by decide +kernel)))).1

/-- Two calls with one sector each: the second one returns 0, and its data is neither on the chip
    nor counted. -/
theorem short_call_lost :
    replies (writeStep goodChip noFaults 0) freshSt [(1, fun _ => 1), (1, fun _ => 2)] =
        [some 0, some 0] ∧
      (received [(1, fun _ => 1), (1, fun _ => 2)]).getD 512 0 = 2 ∧
      (startPart goodChip noFaults (after (writeStep goodChip noFaults 0) freshSt
        [(1, fun _ => 1), (1, fun _ => 2)]) 1).flash (addr goodChip 1048576 512) = 0xff := by
  refine ⟨by decide +kernel, by decide +kernel, by decide +kernel⟩

end

end Brandy.MtdPart
