import Mathlib.Tactic
import Brandy.Core.SpinandKernel

/-!
# Reading the Kernel in Pieces

The pages that a call of `spinand_read_kernel` reads are those of the good blocks from its start on.
A second call takes its first block from the sector number, as if no block in front of it had been
bad.

## Main definitions

* `pageAt`: The `k`-th page of the good blocks.
* `Additive`: Two calls deliver the same as one.

## Theorems

* `spinandReadKernel_eq`: The pages that a call delivers.
* `additive_iff`: When two calls deliver the same as one.
-/

namespace Brandy.SpinandKernel

open Buffer (memcpy memcpy_of_lt memcpy_of_mem)
open Goods (IsFirst firstGood firstGood_isFirst nthGood nthGood_eq_iff)

namespace KernelFlash

variable (f : KernelFlash)

/-- The first good block from `block` on. -/
def next (block : Nat) : Nat := firstGood f.skipBadBlock (f.bound - block) block

theorem next_isFirst (block : Nat) : IsFirst f.skipBadBlock block (f.next block) := by
  refine firstGood_isFirst fun x hx => ?_
  rw [skipBadBlock]
  rcases f.good_of_le x (by omega) with hnone | hgood
  · rw [hnone]
  · rw [hgood]
    rfl

theorem checkMiddle_eq (fuel startPage blkNum : Nat) :
    f.checkMiddle fuel startPage blkNum =
      (startPage + (firstGood f.skipBadBlock fuel (blkNum + 1) - (blkNum + 1)) * f.pagesPerBlock,
        firstGood f.skipBadBlock fuel (blkNum + 1)) := by
  have hle : ∀ fuel b, b ≤ firstGood f.skipBadBlock fuel b := by
    intro fuel
    induction fuel with
    | zero => exact fun b => le_rfl
    | succ fuel ih =>
      intro b
      rw [firstGood]
      split
      · exact (Nat.le_succ b).trans (ih (b + 1))
      · exact le_rfl
  induction fuel generalizing startPage blkNum with
  | zero => simp [checkMiddle, firstGood]
  | succ fuel ih =>
    rw [checkMiddle, firstGood]
    by_cases hbad : f.skipBadBlock (blkNum + 1) = true
    · rw [if_pos hbad, if_pos hbad, ih]
      have h := hle fuel (blkNum + 1 + 1)
      generalize firstGood f.skipBadBlock fuel (blkNum + 1 + 1) = g at *
      obtain ⟨d, rfl⟩ := Nat.exists_eq_add_of_le h
      rw [Nat.add_sub_cancel_left, show blkNum + 1 + 1 + d - (blkNum + 1) = d + 1 by omega,
        Nat.succ_mul, Nat.add_assoc, add_comm f.pagesPerBlock]
    · rw [if_neg hbad, if_neg hbad, Nat.sub_self, zero_mul]
      rfl

/-- The `k`-th page of the good blocks from `block` on. -/
def pageAt (block k : Nat) : Nat :=
  nthGood f.next block (k / f.pagesPerBlock) * f.pagesPerBlock + k % f.pagesPerBlock

theorem pageAt_of_lt (block q : Nat) {x : Nat} (hx : x < f.pagesPerBlock) :
    f.pageAt block (q * f.pagesPerBlock + x) =
      nthGood f.next block q * f.pagesPerBlock + x := by
  rw [pageAt, Nat.mul_add_mod', Nat.mod_eq_of_lt hx, add_comm (q * _),
    Nat.add_mul_div_right _ _ f.pagesPerBlock_pos, Nat.div_eq_of_lt hx, zero_add]

theorem nthGood_good (block q : Nat) : f.skipBadBlock (nthGood f.next block q) = false := by
  cases q with
  | zero => exact (f.next_isFirst _).good
  | succ q => exact (f.next_isFirst _).good

theorem pageAt_good (block k : Nat) :
    f.skipBadBlock (f.pageAt block k / f.pagesPerBlock) = false := by
  rw [pageAt, add_comm, Nat.add_mul_div_right _ _ f.pagesPerBlock_pos,
    Nat.div_eq_of_lt (Nat.mod_lt _ f.pagesPerBlock_pos), zero_add]
  exact f.nthGood_good _ _

/-- Pages that are copied one behind the other. -/
def fill (buffer : Nat) (src : Nat → Nat) : Nat → Nat → Buffer → Buffer
  | 0, _, buf => buf
  | left + 1, i, buf =>
    fill buffer src left (i + 1)
      (memcpy buf (buffer + f.pageSize * i) (f.data (src i)) 0 f.pageSize)

section

variable (buffer : Nat) (src : Nat → Nat) (left i : Nat) (buf : Buffer)

theorem fill_of_lt {x : Nat} (hx : x < buffer + f.pageSize * i) :
    f.fill buffer src left i buf x = buf x := by
  induction left generalizing i buf with
  | zero => rfl
  | succ left ih =>
    rw [fill, ih (i + 1) _ (by rw [Nat.mul_succ]; omega), memcpy_of_lt hx]

theorem fill_of_page {j c : Nat} (hi : i ≤ j) (hj : j < i + left) (hc : c < f.pageSize) :
    f.fill buffer src left i buf (buffer + (f.pageSize * j + c)) = f.data (src j) c := by
  induction left generalizing i buf with
  | zero => omega
  | succ left ih =>
    rw [fill]
    rcases Nat.eq_or_lt_of_le hi with rfl | hlt
    · rw [fill_of_lt _ _ _ _ _ _ (by rw [Nat.mul_succ]; omega), memcpy_of_mem]
      congr 1
      omega
    · exact ih (i + 1) _ hlt (by omega)

end

theorem readLoop_eq
    (hok : ∀ page, f.skipBadBlock (page / f.pagesPerBlock) = false → f.readOk page = true)
    {n buffer block first : Nat} (hn : n % f.sctsPerPage = 0) (k : Nat) (left : Nat)
    {i startPage q x : Nat}
    (hle : block ≤ nthGood f.next first q)
    (hplace : block * f.pagesPerBlock + startPage + i =
      nthGood f.next first q * f.pagesPerBlock + x)
    (hk : k + i = q * f.pagesPerBlock + x) (hx : x ≤ f.pagesPerBlock)
    (hfirst : x = 0 → i = 0) (hend : x = f.pagesPerBlock → i ≠ 0) (buf : Buffer) :
    f.readLoop n buffer block left i startPage (nthGood f.next first q) buf =
      (true, f.fill buffer (fun j => f.pageAt first (k + j)) left i buf) := by
  induction left generalizing i startPage q x buf with
  | zero => rfl
  | succ left ih =>
    have hpos := f.pagesPerBlock_pos
    -- the page that is read, and the place behind it
    have hstep : ∀ startPage' q' x', block ≤ nthGood f.next first q' →
        block * f.pagesPerBlock + startPage' + i =
          nthGood f.next first q' * f.pagesPerBlock + x' →
        k + i = q' * f.pagesPerBlock + x' → x' < f.pagesPerBlock →
        (let r := f.readSinglePage block (startPage' + i) f.pageSize buf (buffer + f.pageSize * i)
         if r.1 = false then (false, r.2)
         else f.readLoop n buffer block left (i + 1) startPage' (nthGood f.next first q') r.2) =
          (true, f.fill buffer (fun j => f.pageAt first (k + j)) (left + 1) i buf) := by
      intro startPage' q' x' hle' hplace' hk' hx'
      have haddr : block * f.pagesPerBlock + (startPage' + i) = f.pageAt first (k + i) := by
        rw [hk', pageAt_of_lt _ _ _ hx']
        omega
      have hread : f.readOk (f.pageAt first (k + i)) = true := hok _ (f.pageAt_good _ _)
      simp only [readSinglePage, haddr, hread, if_true, fill]
      exact ih (x := x' + 1) hle' (by omega) (by omega) (by omega) (by omega) (by omega) _
    have hsize : (if left = 0 ∧ n % f.sctsPerPage ≠ 0 then n * 512 - f.pageSize * i
        else f.pageSize) = f.pageSize := if_neg fun h => h.2 hn
    obtain ⟨d, hd⟩ := Nat.exists_eq_add_of_le hle
    have hmod : (startPage + i) % f.pagesPerBlock = x % f.pagesPerBlock := by
      rw [hd, add_mul] at hplace
      rw [show startPage + i = d * f.pagesPerBlock + x by omega, Nat.mul_add_mod']
    rw [readLoop, hsize, hmod]
    by_cases hfull : x = f.pagesPerBlock
    · -- at the end of a block the next good one follows
      have hnext : f.next (nthGood f.next first q + 1) = nthGood f.next first (q + 1) := rfl
      have hge : nthGood f.next first q + 1 ≤ nthGood f.next first (q + 1) := (f.next_isFirst _).le
      have hcheck : i ≠ 0 ∧ x % f.pagesPerBlock = 0 :=
        ⟨hend hfull, by rw [hfull, Nat.mod_self]⟩
      rw [if_pos hcheck, checkMiddle_eq, ← next, hnext]
      obtain ⟨e, he⟩ := Nat.exists_eq_add_of_le hge
      refine hstep _ (q + 1) 0 (by omega) ?_ (by rw [Nat.succ_mul]; omega) hpos
      rw [he, Nat.add_sub_cancel_left, add_mul, add_mul]
      omega
    · have hno : ¬ (i ≠ 0 ∧ x % f.pagesPerBlock = 0) := by
        rintro ⟨hi, hzero⟩
        rw [Nat.mod_eq_of_lt (by omega)] at hzero
        exact hi (hfirst hzero)
      rw [if_neg hno]
      exact hstep _ q x hle hplace hk (by omega)

theorem spinandReadKernel_eq
    (hok : ∀ page, f.skipBadBlock (page / f.pagesPerBlock) = false → f.readOk page = true)
    (page pages buffer : Nat) (buf : Buffer) :
    f.spinandReadKernel (f.sctsPerPage * page) (f.sctsPerPage * pages) buffer buf =
      (true, f.fill buffer
        (fun j => f.pageAt (page / f.pagesPerBlock) (page % f.pagesPerBlock + j)) pages 0 buf) := by
  have hpos := f.sctsPerPage_pos
  have hblock : f.sctsPerPage * page / f.sctsPerBlock = page / f.pagesPerBlock := by
    rw [sctsPerBlock, mul_comm f.pagesPerBlock, Nat.mul_div_mul_left _ _ hpos]
  have hpage : f.sctsPerPage * page % f.sctsPerBlock / f.sctsPerPage = page % f.pagesPerBlock := by
    rw [sctsPerBlock, mul_comm f.pagesPerBlock, Nat.mul_mod_mul_left,
      Nat.mul_div_cancel_left _ hpos]
  have hlt := Nat.mod_lt page f.pagesPerBlock_pos
  rw [spinandReadKernel, hblock, hpage, Nat.mul_mod_right, if_neg (by decide),
    Nat.mul_div_cancel_left _ hpos]
  exact f.readLoop_eq hok (Nat.mul_mod_right _ _) _ _ (q := 0) le_rfl rfl (by omega) (by omega)
    (fun _ => rfl) (by omega) _

/-- If the `q`-th good block is where counting blocks leads, it is so for the blocks behind it. -/
theorem nthGood_add (block q : Nat) (h : nthGood f.next block q = f.next (block + q)) (r : Nat) :
    nthGood f.next block (q + r) = nthGood f.next (block + q) r := by
  induction r with
  | zero => exact h
  | succ r ih => rw [← Nat.add_assoc, nthGood, ih, nthGood]

theorem pageAt_add (block q k : Nat) :
    f.pageAt block (q * f.pagesPerBlock + k) =
      nthGood f.next block (q + k / f.pagesPerBlock) * f.pagesPerBlock + k % f.pagesPerBlock := by
  rw [pageAt, Nat.mul_add_mod', add_comm (q * _), Nat.add_mul_div_right _ _ f.pagesPerBlock_pos,
    add_comm q]

end KernelFlash

/-- Two calls, the second for the sectors behind the first, leave the same bytes as one, whatever is
    on the device. -/
def Additive (f : KernelFlash) (s n1 n2 : Nat) : Prop :=
  ∀ (data : Nat → Buffer) (b : Nat) (buf : Buffer),
    let f := { f with data := data }
    let first := f.spinandReadKernel s n1 b buf
    let both := f.spinandReadKernel (s + n1) n2 (b + 512 * n1) first.2
    ∀ i < 512 * (n1 + n2), both.2 (b + i) = (f.spinandReadKernel s (n1 + n2) b buf).2 (b + i)

section

variable (f : KernelFlash)
  (hok : ∀ page, f.skipBadBlock (page / f.pagesPerBlock) = false → f.readOk page = true)

include hok

theorem two_calls_iff (page m1 m2 b : Nat) (buf : Buffer) :
    (∀ i < 512 * (f.sctsPerPage * m1 + f.sctsPerPage * m2),
      (f.spinandReadKernel (f.sctsPerPage * page + f.sctsPerPage * m1) (f.sctsPerPage * m2)
        (b + 512 * (f.sctsPerPage * m1))
        (f.spinandReadKernel (f.sctsPerPage * page) (f.sctsPerPage * m1) b buf).2).2 (b + i) =
      (f.spinandReadKernel (f.sctsPerPage * page) (f.sctsPerPage * m1 + f.sctsPerPage * m2) b
        buf).2 (b + i)) ↔
    ∀ j < m2, ∀ c < f.pageSize,
      f.data (f.pageAt ((page + m1) / f.pagesPerBlock) ((page + m1) % f.pagesPerBlock + j)) c =
        f.data (f.pageAt (page / f.pagesPerBlock) (page % f.pagesPerBlock + (m1 + j))) c := by
  have hsize : ∀ m, 512 * (f.sctsPerPage * m) = f.pageSize * m := by
    intro m
    rw [KernelFlash.pageSize, mul_comm f.sctsPerPage 512, mul_assoc]
  have hpos : 0 < f.pageSize := mul_pos f.sctsPerPage_pos (by decide)
  rw [← Nat.mul_add, ← Nat.mul_add, hsize, hsize, f.spinandReadKernel_eq hok,
    f.spinandReadKernel_eq hok, f.spinandReadKernel_eq hok]
  dsimp only
  constructor
  · intro h j hj c hc
    have hi : f.pageSize * (m1 + j) + c < f.pageSize * (m1 + m2) :=
      calc f.pageSize * (m1 + j) + c < f.pageSize * (m1 + j + 1) := by rw [Nat.mul_succ]; omega
        _ ≤ f.pageSize * (m1 + m2) := Nat.mul_le_mul_left _ (by omega)
    have hbyte := h _ hi
    rw [f.fill_of_page b _ _ 0 buf (Nat.zero_le _) (by omega) hc, Nat.mul_add, Nat.add_assoc,
      ← Nat.add_assoc b, f.fill_of_page _ _ _ 0 _ (Nat.zero_le j) (by omega) hc] at hbyte
    exact hbyte
  · intro h i hi
    have hdiv : i / f.pageSize < m1 + m2 := Nat.div_lt_of_lt_mul hi
    have hmod := Nat.mod_lt i hpos
    rw [← Nat.div_add_mod i f.pageSize] at hi ⊢
    generalize i / f.pageSize = j at *
    generalize i % f.pageSize = c at *
    rw [f.fill_of_page b _ _ 0 buf (Nat.zero_le j) (by omega) hmod]
    rcases Nat.lt_or_ge j m1 with hlt | hge
    · have hlast : f.pageSize * j + c < f.pageSize * m1 :=
        calc f.pageSize * j + c < f.pageSize * (j + 1) := by rw [Nat.mul_succ]; omega
          _ ≤ f.pageSize * m1 := Nat.mul_le_mul_left _ hlt
      rw [f.fill_of_lt _ _ _ _ _ (by omega),
        f.fill_of_page b _ _ 0 buf (Nat.zero_le j) (by omega) hmod]
    · obtain ⟨j, rfl⟩ := Nat.exists_eq_add_of_le hge
      rw [Nat.mul_add, Nat.add_assoc, ← Nat.add_assoc b,
        f.fill_of_page _ _ _ 0 _ (Nat.zero_le j) (by omega) hmod]
      exact h j (by omega) c hmod

theorem additive_iff_pages (page m1 m2 : Nat) :
    Additive f (f.sctsPerPage * page) (f.sctsPerPage * m1) (f.sctsPerPage * m2) ↔
      ∀ j < m2, f.pageAt ((page + m1) / f.pagesPerBlock) ((page + m1) % f.pagesPerBlock + j) =
        f.pageAt (page / f.pagesPerBlock) (page % f.pagesPerBlock + (m1 + j)) := by
  have hpos : 0 < f.pageSize := mul_pos f.sctsPerPage_pos (by decide)
  constructor
  · intro h j hj
    -- only the page that the second call reads holds a 1
    generalize hpage : f.pageAt ((page + m1) / f.pagesPerBlock)
      ((page + m1) % f.pagesPerBlock + j) = second
    obtain ⟨data, hdata⟩ : ∃ data : Nat → Buffer, ∀ a c, data a c = if a = second then 1 else 0 :=
      ⟨_, fun _ _ => rfl⟩
    have hbyte : data (f.pageAt ((page + m1) / f.pagesPerBlock)
        ((page + m1) % f.pagesPerBlock + j)) 0 =
        data (f.pageAt (page / f.pagesPerBlock) (page % f.pagesPerBlock + (m1 + j))) 0 :=
      (two_calls_iff { f with data := data } hok page m1 m2 0 fun _ => 0).mp
        (h data 0 fun _ => 0) j hj 0 hpos
    rw [hpage, hdata, hdata, if_pos rfl] at hbyte
    by_contra hne
    rw [if_neg fun heq => hne heq.symm] at hbyte
    exact absurd hbyte (by decide)
  · intro h data b buf
    refine (two_calls_iff { f with data := data } hok page m1 m2 b buf).mpr fun j hj c _ => ?_
    exact congrArg (fun a => data a c) (h j hj)

omit hok

theorem sector_block (s : Nat) : s / f.sctsPerBlock = s / f.sctsPerPage / f.pagesPerBlock := by
  rw [KernelFlash.sctsPerBlock, mul_comm, Nat.div_div_eq_div_mul]

/-- A call starts with a whole page. -/
theorem readKernel_floor (s n b : Nat) (buf : Buffer) :
    f.spinandReadKernel (f.sctsPerPage * (s / f.sctsPerPage)) n b buf =
      f.spinandReadKernel s n b buf := by
  have hdiv : f.sctsPerPage * (s / f.sctsPerPage) / f.sctsPerPage = s / f.sctsPerPage :=
    Nat.mul_div_cancel_left _ f.sctsPerPage_pos
  have hpage : ∀ t, t % f.sctsPerBlock / f.sctsPerPage = t / f.sctsPerPage % f.pagesPerBlock := by
    intro t
    rw [KernelFlash.sctsPerBlock, mul_comm, Nat.mod_mul_right_div_self]
  simp only [KernelFlash.spinandReadKernel, sector_block, hpage, hdiv]

end

/-- Two calls leave the same bytes as one just if no block is bad from that of the first sector up
    to that of the second call. -/
theorem additive_iff (f : KernelFlash)
    (hok : ∀ page, f.skipBadBlock (page / f.pagesPerBlock) = false → f.readOk page = true)
    (s n1 n2 : Nat) (hn1 : f.sctsPerPage ∣ n1) (hn2 : f.sctsPerPage ∣ n2) :
    Additive f s n1 n2 ↔
      n2 = 0 ∨ ∀ block, s / f.sctsPerBlock ≤ block → block < (s + n1) / f.sctsPerBlock →
        f.skipBadBlock block = false := by
  obtain ⟨m1, rfl⟩ := hn1
  obtain ⟨m2, rfl⟩ := hn2
  have hpos := f.pagesPerBlock_pos
  have hsecond : (s + f.sctsPerPage * m1) / f.sctsPerPage = s / f.sctsPerPage + m1 :=
    Nat.add_mul_div_left _ _ f.sctsPerPage_pos
  have hfloor : Additive f s (f.sctsPerPage * m1) (f.sctsPerPage * m2) ↔ Additive f
      (f.sctsPerPage * (s / f.sctsPerPage)) (f.sctsPerPage * m1) (f.sctsPerPage * m2) := by
    refine forall_congr' fun data => forall_congr' fun b => forall_congr' fun buf => ?_
    have h := readKernel_floor { f with data := data }
    have h' := h (s + f.sctsPerPage * m1)
    simp only [hsecond, Nat.mul_add] at h'
    simp only [h s, h']
  rw [hfloor, additive_iff_pages f hok, sector_block, sector_block, hsecond, Nat.mul_eq_zero,
    or_iff_right (ne_of_gt f.sctsPerPage_pos)]
  generalize s / f.sctsPerPage = page
  -- the second call starts `q` blocks behind the first
  obtain ⟨q, hstart, hq⟩ : ∃ q, (page + m1) / f.pagesPerBlock = page / f.pagesPerBlock + q ∧
      page % f.pagesPerBlock + m1 = q * f.pagesPerBlock + (page + m1) % f.pagesPerBlock := by
    refine ⟨(page % f.pagesPerBlock + m1) / f.pagesPerBlock, ?_, ?_⟩
    · conv_lhs => rw [← Nat.div_add_mod' page f.pagesPerBlock, Nat.add_assoc, add_comm,
        Nat.add_mul_div_right _ _ hpos]
      exact add_comm _ _
    · rw [← Nat.mod_add_mod, Nat.div_add_mod']
  have hiff := nthGood_eq_iff f.next_isFirst (page / f.pagesPerBlock) q
  simp only [← Nat.add_assoc, hq, hstart]
  rw [← hiff.2]
  simp only [Nat.add_assoc, f.pageAt_add]
  constructor
  · intro h
    rcases Nat.eq_zero_or_pos m2 with hzero | hmore
    · exact Or.inl hzero
    have hpage := h 0 hmore
    have hlt := Nat.mod_lt (page + m1) hpos
    rw [add_zero, KernelFlash.pageAt, Nat.div_eq_of_lt hlt] at hpage
    refine Or.inr (Nat.eq_of_mul_eq_mul_right hpos ?_).symm
    exact Nat.add_right_cancel hpage
  · rintro (hzero | heq) j hj
    · omega
    · rw [f.nthGood_add _ _ heq, KernelFlash.pageAt]

/-- Blocks of two pages of four sectors, and one bad block. -/
def oneBad (bad : Nat) : KernelFlash :=
  { sctsPerPage := 4, pagesPerBlock := 2,
    oob := fun block => some (if block = bad then 0 else 0xff),
    readOk := fun _ => true, data := fun _ _ => 0, bound := bad + 1,
    sctsPerPage_pos := Nat.two_pow_pos 2, pagesPerBlock_pos := Nat.two_pos,
    good_of_le := fun block h => Or.inr (congrArg some (if_neg (by omega))) }

/-- Two calls before a bad block. -/
theorem additive_before_bad : Additive (oneBad 2) 0 12 4 := by
  refine (additive_iff (oneBad 2) (fun _ _ => rfl) 0 12 4 (by decide) (by decide)).mpr
    (Or.inr fun block _ hblock => ?_)
  have hlt : block < 1 := hblock
  obtain rfl : block = 0 := by omega
  rfl

/-- Block 1 is bad. After two blocks the second call starts with block 2, which the first has read
    already. -/
theorem additive_not : ¬ Additive (oneBad 1) 0 16 8 := by
  intro h
  have hbyte := h (fun page _ => UInt8.ofNat page) 0 (fun _ => 0) 8192 (by decide)
  exact absurd hbyte (by decide +kernel)

end Brandy.SpinandKernel
