import Brandy.Theory.Checksum
import Brandy.Theory.RawNand.Upload
import Mathlib.Data.List.GetD

/-!
# Attempts to Read a Package

The reader of the U-Boot area makes attempts. An attempt takes the pages one after the other, and a
page that cannot be read sends it to the next block without resetting anything. The pages it gets
are therefore a fixed list. It is over when enough pages for the length in the head have been read
and summed up.

Blocks that are skipped leave 0 behind as the return code, like an area that ends in the middle of a
copy: the code returns what the last page read returned.

## Main definitions

* `UbootFlash.stream`, `UbootFlash.behind`: The pages an attempt gets, and the blocks behind it.
* `Package`: A package can be read from some blocks on.
* `Skips`: The reader gets from some blocks to others with nothing in hand.

## Theorems

* `Reached.block`: What one block does to an attempt.
* `uploadBlocks_package`: An attempt at a package, up to its checksum.
* `Skips.run`: Blocks that are skipped.
* `upload_verified`: When a return code of 0 means a package in order.
-/

namespace Brandy.RawNand

open List Option Bool

open Buffer (memcpy Agree)

variable {n : Nat}

theorem sumOk_congr {b b' : Buffer} (hn : headSize ≤ n) (h : Agree n b b') :
    SumOk b n ↔ SumOk b' n := by
  unfold headSize at hn
  have hsum : headAddSum b = headAddSum b' :=
    headAddSum_congr fun i hi => h i (by unfold headSize at hi; omega)
  unfold SumOk spriteGenerateChecksum
  rw [hsum, Checksum.generateChecksum_congr _ (by omega) fun x hx hlt => h x.toNat (by omega)]

theorem headValidLen_lt (b : Buffer) : headValidLen b < 2 ^ 32 := by
  have h := Memory.leValue_lt (Buffer.bytes (fun i => b (36 + i)) 4)
  rwa [Buffer.length_bytes] at h

namespace UbootFlash

variable (f : UbootFlash)

/-- A page that is read without error. -/
def pageOk (page : Nat) : Bool := f.cfg.ready 0 page && decide (f.cfg.status 0 page = 0)

/-- The pages of a block up to the first one that cannot be read. -/
def usable (blk : Nat) : List Nat :=
  (range' (f.firstPage blk) f.pagesPerBlk).takeWhile f.pageOk

/-- The pages that are read one after the other from these blocks on: behind a page that cannot be
    read, the reader goes on with the next block. -/
def stream (blks : List Nat) : List Nat := (blks.filter fun blk => !f.blockBad blk).flatMap f.usable

/-- The first bytes of a buffer are those of some pages. -/
def Holds (pages : List Nat) (n : Nat) (m : Buffer) : Prop :=
  n ≤ pages.length * f.pagesize ∧
    ∀ i < n, m i = f.nand.cell 0 (pages.getD (i / f.pagesize) 0) (i % f.pagesize)

end UbootFlash

section

variable {f : UbootFlash} {len : Nat}

theorem stream_bad {blk : Nat} (h : f.blockBad blk = true) (rest : List Nat) :
    f.stream (blk :: rest) = f.stream rest := by
  unfold UbootFlash.stream
  rw [filter_cons_of_neg (by simp [h])]

theorem stream_good {blk : Nat} (h : ¬ f.blockBad blk = true) (rest : List Nat) :
    f.stream (blk :: rest) = f.usable blk ++ f.stream rest := by
  unfold UbootFlash.stream
  rw [filter_cons_of_pos (by simp [h]), flatMap_cons]

variable {m m' : Buffer} {pages : List Nat}

theorem Holds.page_lt {i : Nat} (hn : n ≤ pages.length * f.pagesize) (hi : i < n) :
    i / f.pagesize < pages.length :=
  (Nat.div_lt_iff_lt_mul f.pagesize_pos).mpr (by omega)

theorem holds_append_iff (more : List Nat) (hn : n ≤ pages.length * f.pagesize) :
    f.Holds (pages ++ more) n m ↔ f.Holds pages n m := by
  have hlen : n ≤ (pages ++ more).length * f.pagesize := by
    rw [length_append, add_mul]
    omega
  refine and_congr (iff_of_true hlen hn) (forall₂_congr fun i hi => ?_)
  rw [getD_append _ _ _ _ (Holds.page_lt hn hi)]

theorem Holds.mono {n' : Nat} (h : f.Holds pages n m) (hle : n' ≤ n) : f.Holds pages n' m :=
  ⟨hle.trans h.1, fun i hi => h.2 i (by omega)⟩

theorem Holds.agree (h : f.Holds pages n m) (h' : f.Holds pages n m') : Agree n m m' :=
  fun i hi => (h.2 i hi).trans (h'.2 i hi).symm

theorem Holds.congr (h : f.Holds pages n m) (hag : Agree n m' m) : f.Holds pages n m' :=
  ⟨h.1, fun i hi => (hag i hi).trans (h.2 i hi)⟩

theorem Holds.snoc (h : f.Holds pages (pages.length * f.pagesize) m) (page : Nat)
    {src : Buffer} (hsrc : ∀ i < f.pagesize, src i = f.nand.cell 0 page i)
    (hle : pages.length * f.pagesize ≤ n) (hn : n ≤ (pages.length + 1) * f.pagesize) :
    f.Holds (pages ++ [page]) n
      (memcpy m (pages.length * f.pagesize) src 0 (n - pages.length * f.pagesize)) := by
  rw [add_mul, Nat.one_mul] at hn
  refine ⟨?_, fun i hi => ?_⟩
  · rw [length_append, length_singleton, add_mul, Nat.one_mul]
    exact hn
  · by_cases hold : i < pages.length * f.pagesize
    · rw [Buffer.memcpy_of_lt hold, h.2 i hold,
        getD_append _ _ _ _ (Holds.page_lt le_rfl hold)]
    · have hdiv : i / f.pagesize = pages.length :=
        (Nat.div_eq_iff f.pagesize_pos).mpr ⟨by omega, by omega⟩
      have hmod : i % f.pagesize = i - pages.length * f.pagesize := by
        have := Nat.div_add_mod i f.pagesize
        rw [hdiv, mul_comm] at this
        omega
      rw [Buffer.memcpy_of_mem, hdiv, hmod, zero_add,
        getD_append_right _ _ _ _ le_rfl, Nat.sub_self, hsrc _ (by omega)]
      rfl

variable {u : Upload} {page : Nat}

theorem read_ok (hok : f.pageOk page = true) :
    u.read f page = match u.mdata with
      | .buf => { u with ret := 0, buf := memcpy u.buf u.off (f.nand.cell 0 page) 0 f.pagesize }
      | .mbuf =>
        { u with ret := 0, mbuf := memcpy u.mbuf u.off (f.nand.cell 0 page) 0 f.pagesize } := by
  unfold UbootFlash.pageOk at hok
  rw [and_eq_true, decide_eq_true_eq] at hok
  unfold Upload.read chipReadPage
  simp only [hok.1, hok.2, if_true]
  rfl

/-- A page that cannot be read may still leave something where it was read to. -/
theorem read_fail (hfail : ¬ f.pageOk page = true) :
    (u.read f page).ret ≠ 0 ∧ (u.read f page).mdata = u.mdata ∧ (u.read f page).off = u.off ∧
      (u.mdata = .buf → ∀ i < u.off, (u.read f page).buf i = u.buf i) ∧
      (u.mdata = .mbuf → (u.read f page).buf = u.buf) := by
  have hret : ∀ m : Buffer, (chipReadPage f.nand 0 page u.off 0 m fun _ => 0).ret ≠ 0 := by
    intro m hzero
    unfold chipReadPage at hzero
    unfold UbootFlash.pageOk at hfail
    split_ifs at hzero with hready
    · exact hfail (by rw [hready, Bool.true_and, decide_eq_true_eq]; exact hzero)
    · exact absurd (show -eio = 0 from hzero) (by decide)
  unfold Upload.read
  cases u.mdata with
  | buf =>
    refine ⟨hret u.buf, rfl, rfl, fun _ i hi => ?_, fun hc => by cases hc⟩
    simp only [chipReadPage]
    split
    · exact Buffer.memcpy_of_lt hi
    · rfl
  | mbuf => exact ⟨hret u.mbuf, rfl, rfl, (fun hc => by cases hc), fun _ => rfl⟩

/-- Some pages of a package of more than one page have been read, and more are needed. -/
structure Progress (f : UbootFlash) (len : Nat) (pages : List Nat) (u : Upload) : Prop where
  had : u.hadReadLen = pages.length * f.pagesize
  pos : 0 < pages.length
  magic : headMagic u.buf = tocMainInfoMagic
  length : headValidLen u.buf ≤ len
  more : pages.length * f.pagesize < headValidLen u.buf
  holds : f.Holds pages (pages.length * f.pagesize) u.buf
  target : if headValidLen u.buf ≤ (pages.length + 1) * f.pagesize then
      u.mdata = .mbuf ∧ u.off = 0
    else u.mdata = .buf ∧ u.off = pages.length * f.pagesize

/-- Some pages made up a package of more than one page, and its checksum was looked at. -/
structure Complete (f : UbootFlash) (pages : List Nat) (e : PageEnd) (u : Upload) : Prop where
  had : u.hadReadLen = 0
  long : f.pagesize < headValidLen u.buf
  holds : f.Holds pages (headValidLen u.buf) u.buf
  checked : (SumOk u.buf (headValidLen u.buf) ∧ u.ret = 0 ∧ e = .accepted (headValidLen u.buf)) ∨
    (¬ SumOk u.buf (headValidLen u.buf) ∧ e = .wrongSum (headValidLen u.buf))

section

variable (h : Progress f len pages u)
include h

theorem Progress.pagesize_le :
    f.pagesize ≤ pages.length * f.pagesize := Nat.le_mul_of_pos_left _ h.pos

theorem Progress.of_agree {u' : Upload} (hhad : u'.hadReadLen = u.hadReadLen)
    (hmdata : u'.mdata = u.mdata) (hoff : u'.off = u.off)
    (hbuf : Agree (pages.length * f.pagesize) u'.buf u.buf) : Progress f len pages u' := by
  have hle := h.pagesize_le
  have hsize := f.headSize_le
  have hhead : ∀ i < headSize, u'.buf i = u.buf i := fun i hi => hbuf i (by omega)
  have hvalid := headValidLen_congr hhead
  refine ⟨hhad.trans h.had, h.pos, (headMagic_congr hhead).trans h.magic, hvalid.trans_le h.length,
    h.more.trans_eq hvalid.symm, Holds.congr h.holds hbuf, ?_⟩
  rw [hvalid, hmdata, hoff]
  exact h.target

theorem Progress.fail (hfail : ¬ f.pageOk page = true) :
    (uploadPage f len page u).1 = .readFail ∧ Progress f len pages (uploadPage f len page u).2 := by
  obtain ⟨hret, hmdata, hoff, hbuf, hmbuf⟩ := read_fail (u := u) hfail
  unfold uploadPage
  rw [if_pos hret]
  refine ⟨rfl, h.of_agree (read_hadReadLen u) hmdata hoff fun i hi => ?_⟩
  have htarget := h.target
  split at htarget
  · rw [hmbuf htarget.1]
  · exact hbuf htarget.1 i (by omega)

theorem Progress.last (hok : f.pageOk page = true)
    (hlast : headValidLen u.buf ≤ (pages.length + 1) * f.pagesize) :
    Complete f (pages ++ [page]) (uploadPage f len page u).1 (uploadPage f len page u).2 := by
  have hle := h.pagesize_le
  have hsize := f.headSize_le
  have hmore := h.more
  have htarget := h.target
  rw [if_pos hlast] at htarget
  have hmul := add_one_mul pages.length f.pagesize
  have hhad : u.hadReadLen + f.pagesize = (pages.length + 1) * f.pagesize := by
    rw [h.had, hmul]
  have hback : (pages.length + 1) * f.pagesize - f.pagesize = pages.length * f.pagesize := by
    rw [hmul, Nat.add_sub_cancel]
  have hsrc : ∀ i < f.pagesize, memcpy u.mbuf u.off (f.nand.cell 0 page) 0 f.pagesize i =
      f.nand.cell 0 page i := by
    intro i hi
    rw [htarget.2, Buffer.memcpy_of_mem, Nat.sub_zero, zero_add]
  have hholds := Holds.snoc h.holds page hsrc hmore.le hlast
  -- the head is in front of the page
  have hvalid : ∀ src len', headValidLen (memcpy u.buf (pages.length * f.pagesize) src 0 len') =
      headValidLen u.buf :=
    fun src len' => headValidLen_congr fun i hi => Buffer.memcpy_of_lt (by omega)
  unfold uploadPage
  rw [read_ok hok, htarget.1]
  simp only [ne_eq, not_true_eq_false, if_false, h.magic, if_neg (Nat.not_lt.mpr h.length), hhad]
  have hcheck := uploadCheck_done (f := f) (u := { u with
    ret := 0
    hadReadLen := (pages.length + 1) * f.pagesize
    off := u.off + f.pagesize
    mbuf := memcpy u.mbuf u.off (f.nand.cell 0 page) 0 f.pagesize }) hlast
  simp only [hback, htarget.1] at hcheck
  rcases hcheck with ⟨hsum, mdata, off, hcheck⟩ | ⟨hsum, mdata, off, hcheck⟩
  all_goals
    rw [hcheck]
    refine ⟨rfl, ?_, ?_, ?_⟩ <;> simp only [hvalid]
  · omega
  · exact hholds
  · exact .inl ⟨hsum, trivial, trivial⟩
  · omega
  · exact hholds
  · exact .inr ⟨hsum, trivial⟩

end

theorem progress_of_check (hpos : 0 < pages.length)
    (hhad : u.hadReadLen = pages.length * f.pagesize) (hmdata : u.mdata = .buf)
    (hoff : u.off = pages.length * f.pagesize) (hmagic : headMagic u.buf = tocMainInfoMagic)
    (hlen : headValidLen u.buf ≤ len) (hmore : pages.length * f.pagesize < headValidLen u.buf)
    (hholds : f.Holds pages (pages.length * f.pagesize) u.buf) :
    (uploadCheck f u (headValidLen u.buf)).1 = .more ∧
      Progress f len pages (uploadCheck f u (headValidLen u.buf)).2 := by
  have hlt := headValidLen_lt u.buf
  -- the test for the last page, without the wrap-around
  have hrest : (headValidLen u.buf + (2 ^ 32 - u.hadReadLen)) % 2 ^ 32 =
      headValidLen u.buf - pages.length * f.pagesize := by
    rw [hhad, show headValidLen u.buf + (2 ^ 32 - pages.length * f.pagesize) =
      headValidLen u.buf - pages.length * f.pagesize + 2 ^ 32 by omega, Nat.add_mod_right,
      Nat.mod_eq_of_lt (by omega)]
  have hmul := add_one_mul pages.length f.pagesize
  rw [uploadCheck_more (by omega), hrest]
  split_ifs with hlast
  · have hle : headValidLen u.buf ≤ (pages.length + 1) * f.pagesize := by omega
    exact ⟨rfl, hhad, hpos, hmagic, hlen, hmore, hholds, (if_pos hle).mpr ⟨rfl, rfl⟩⟩
  · have hle : ¬ headValidLen u.buf ≤ (pages.length + 1) * f.pagesize := by omega
    exact ⟨rfl, hhad, hpos, hmagic, hlen, hmore, hholds, (if_neg hle).mpr ⟨hmdata, hoff⟩⟩

theorem Progress.next (h : Progress f len pages u) (hok : f.pageOk page = true)
    (hmore : (pages.length + 1) * f.pagesize < headValidLen u.buf) :
    (uploadPage f len page u).1 = .more ∧
      Progress f len (pages ++ [page]) (uploadPage f len page u).2 := by
  have hle := h.pagesize_le
  have hsize := f.headSize_le
  have hmul := add_one_mul pages.length f.pagesize
  have htarget := h.target
  rw [if_neg (by omega)] at htarget
  have hhead : ∀ i < headSize,
      memcpy u.buf u.off (f.nand.cell 0 page) 0 f.pagesize i = u.buf i :=
    fun i hi => Buffer.memcpy_of_lt (by omega)
  have hvalid := headValidLen_congr hhead
  have hmagic := (headMagic_congr hhead).trans h.magic
  have hlength := h.length
  have hholds : f.Holds (pages ++ [page]) ((pages ++ [page]).length * f.pagesize)
      (memcpy u.buf u.off (f.nand.cell 0 page) 0 f.pagesize) := by
    have hsnoc := Holds.snoc h.holds page (fun i _ => rfl) (by omega) le_rfl
    rw [hmul, Nat.add_sub_cancel_left] at hsnoc
    rw [length_append, length_singleton, hmul, htarget.2]
    exact hsnoc
  unfold uploadPage
  rw [read_ok hok, htarget.1]
  simp only [ne_eq, not_true_eq_false, if_false, hmagic]
  rw [if_neg (by omega)]
  refine progress_of_check (by simp) ?_ rfl ?_ hmagic (by simp only; omega) ?_ hholds
  · simp only [h.had, length_append, length_singleton, hmul]
  · simp only [htarget.2, length_append, length_singleton, hmul]
  · simp only [length_append, length_singleton]
    omega

/-- A page that starts with the head of a package of more than one page that is not too long. -/
def LongHead (f : UbootFlash) (len page : Nat) : Prop :=
  headMagic (f.nand.cell 0 page) = tocMainInfoMagic ∧
    f.pagesize < headValidLen (f.nand.cell 0 page) ∧ headValidLen (f.nand.cell 0 page) ≤ len

/-- The reader starts a new attempt. -/
structure Fresh (u : Upload) : Prop where
  had : u.hadReadLen = 0
  mdata : u.mdata = .buf
  off : u.off = 0

/-- An attempt that came to nothing at its first block. -/
structure Nothing (f : UbootFlash) (e : PageEnd) (u : Upload) : Prop where
  had : e.out = false → u.hadReadLen = 0
  short : ∀ n, e = .accepted n → n ≤ f.pagesize

theorem Fresh.fail (h : Fresh u) (len : Nat) (hfail : ¬ f.pageOk page = true) :
    (uploadPage f len page u).1 = .readFail ∧ (uploadPage f len page u).2.hadReadLen = 0 := by
  obtain ⟨hret, -⟩ := read_fail (u := u) hfail
  unfold uploadPage
  rw [if_pos hret]
  exact ⟨rfl, (read_hadReadLen u).trans h.had⟩

theorem head_first (b : Buffer) (page : Nat) : ∀ i < headSize,
    memcpy b 0 (f.nand.cell 0 page) 0 f.pagesize i = f.nand.cell 0 page i := by
  intro i hi
  have hsize := f.headSize_le
  rw [Buffer.memcpy_of_mem, Nat.sub_zero, zero_add]

theorem Fresh.long (h : Fresh u) (hok : f.pageOk page = true) (hhead : LongHead f len page) :
    (uploadPage f len page u).1 = .more ∧ Progress f len [page] (uploadPage f len page u).2 := by
  obtain ⟨hmagic, hlong, hlen⟩ := hhead
  have hfirst := head_first (f := f) u.buf page
  rw [← headMagic_congr hfirst] at hmagic
  rw [← headValidLen_congr hfirst] at hlong hlen
  have hholds : f.Holds [page] ([page].length * f.pagesize)
      (memcpy u.buf 0 (f.nand.cell 0 page) 0 f.pagesize) := by
    have hnil : f.Holds [] (([] : List Nat).length * f.pagesize) u.buf := by
      rw [length_nil, Nat.zero_mul]
      exact ⟨Nat.zero_le _, fun i hi => absurd hi (Nat.not_lt_zero i)⟩
    have hsnoc := Holds.snoc hnil page (n := f.pagesize) (fun i _ => rfl) (by simp) (by simp)
    rw [length_nil, Nat.zero_mul, Nat.sub_zero] at hsnoc
    rw [length_singleton, Nat.one_mul]
    exact hsnoc
  unfold uploadPage
  rw [read_ok hok, h.mdata, h.off, h.had]
  simp only [ne_eq, not_true_eq_false, if_false, hmagic, zero_add]
  rw [if_neg (by omega)]
  have hone : [page].length * f.pagesize = f.pagesize := by rw [length_singleton, Nat.one_mul]
  exact progress_of_check (by simp) hone.symm rfl hone.symm hmagic (by simp only; omega)
    (hone.trans_lt hlong) hholds

theorem Fresh.nothing (h : Fresh u) (hok : f.pageOk page = true) (hhead : ¬ LongHead f len page) :
    (uploadPage f len page u).1 ≠ .more ∧
      Nothing f (uploadPage f len page u).1 (uploadPage f len page u).2 := by
  have hfirst := head_first (f := f) u.buf page
  unfold uploadPage
  rw [read_ok hok, h.mdata, h.off, h.had]
  simp only [ne_eq, not_true_eq_false, if_false, zero_add]
  split_ifs with hmagic hlen
  · exact ⟨nofun, nofun, nofun⟩
  swap
  · exact ⟨nofun, fun _ => rfl, nofun⟩
  have hshort : headValidLen (memcpy u.buf 0 (f.nand.cell 0 page) 0 f.pagesize) ≤ f.pagesize := by
    by_contra hlong
    rw [headMagic_congr hfirst] at hmagic
    rw [headValidLen_congr hfirst] at hlen hlong
    exact hhead ⟨hmagic, by omega, by omega⟩
  rcases uploadCheck_done (f := f) (u := { u with
    ret := 0
    mdata := .buf
    hadReadLen := f.pagesize
    off := f.pagesize
    buf := memcpy u.buf 0 (f.nand.cell 0 page) 0 f.pagesize }) hshort with
    ⟨-, mdata, off, hcheck⟩ | ⟨-, mdata, off, hcheck⟩
  · rw [hcheck]
    refine ⟨nofun, fun _ => rfl, fun n hc => ?_⟩
    rw [← PageEnd.accepted.inj hc]
    exact hshort
  · rw [hcheck]
    exact ⟨nofun, fun _ => rfl, nofun⟩

theorem Progress.run (left : Nat) (h : Progress f len pages u) :
    ((uploadPages f len left page u).1.out = false ∧
        Progress f len (pages ++ (range' page left).takeWhile f.pageOk)
          (uploadPages f len left page u).2) ∨
      ∃ t ≤ ((range' page left).takeWhile f.pageOk).length,
        Complete f (pages ++ ((range' page left).takeWhile f.pageOk).take t)
          (uploadPages f len left page u).1 (uploadPages f len left page u).2 := by
  induction left generalizing page pages u with
  | zero =>
    left
    rw [range'_zero, takeWhile_nil, append_nil]
    exact ⟨rfl, h⟩
  | succ left ih =>
    rw [range'_succ, uploadPages]
    by_cases hok : f.pageOk page = true
    · rw [takeWhile_cons_of_pos hok]
      by_cases hmore : (pages.length + 1) * f.pagesize < headValidLen u.buf
      · obtain ⟨hnext, hprogress⟩ := h.next hok hmore
        simp only [if_pos hnext]
        rcases ih hprogress with hthrough | ⟨t, ht, hcomplete⟩
        · left
          rwa [append_assoc] at hthrough
        · right
          refine ⟨t + 1, Nat.succ_le_succ ht, ?_⟩
          rwa [append_assoc] at hcomplete
      · have hcomplete := h.last hok (Nat.le_of_not_lt hmore)
        have hend : (uploadPage f len page u).1 ≠ .more := by
          rcases hcomplete.checked with ⟨-, -, he⟩ | ⟨-, he⟩
          · rw [he]
            rintro ⟨⟩
          · rw [he]
            rintro ⟨⟩
        simp only [if_neg hend]
        exact .inr ⟨1, by simp, hcomplete⟩
    · obtain ⟨hfail, hprogress⟩ := h.fail hok
      rw [takeWhile_cons_of_neg hok, append_nil, hfail]
      simp only [reduceCtorEq, if_false]
      left
      rw [hfail]
      exact ⟨rfl, hprogress⟩

/-- These pages of a package have been read, or none yet. -/
def Reached (f : UbootFlash) (len : Nat) (pages : List Nat) (u : Upload) : Prop :=
  (pages = [] ∧ u.hadReadLen = 0) ∨ Progress f len pages u

theorem Complete.holds_stream {blk t : Nat} {e : PageEnd}
    (h : Complete f (pages ++ (f.usable blk).take t) e u) (hgood : ¬ f.blockBad blk = true)
    (rest : List Nat) : f.Holds (pages ++ f.stream (blk :: rest)) (headValidLen u.buf) u.buf := by
  have happend := (holds_append_iff ((f.usable blk).drop t ++ f.stream rest) h.holds.1).mpr h.holds
  rwa [append_assoc, ← append_assoc ((f.usable blk).take t), take_append_drop,
    ← stream_good hgood] at happend

theorem Reached.block (h : Reached f len pages u) (blk : Nat) :
    ((uploadBlock f len blk u).1.out = false ∧
        Reached f len (pages ++ f.usable blk) (uploadBlock f len blk u).2) ∨
      (∃ t ≤ (f.usable blk).length, Complete f (pages ++ (f.usable blk).take t)
        (uploadBlock f len blk u).1 (uploadBlock f len blk u).2) ∨
      (pages = [] ∧ ∃ page rest, f.usable blk = page :: rest ∧ ¬ LongHead f len page ∧
        Nothing f (uploadBlock f len blk u).1 (uploadBlock f len blk u).2) := by
  unfold uploadBlock
  rcases h with ⟨rfl, hhad⟩ | h
  · rw [if_pos hhad, nil_append]
    have hfresh : Fresh { u with mdata := .buf, off := 0 } := ⟨hhad, rfl, rfl⟩
    obtain ⟨left, hleft⟩ := Nat.exists_eq_add_one.mpr f.pagesPerBlk_pos
    unfold UbootFlash.usable
    rw [hleft, range'_succ, uploadPages]
    by_cases hok : f.pageOk (f.firstPage blk) = true
    · rw [takeWhile_cons_of_pos hok]
      by_cases hlong : LongHead f len (f.firstPage blk)
      · obtain ⟨hmore, hprogress⟩ := hfresh.long hok hlong
        simp only [if_pos hmore]
        rcases hprogress.run left with ⟨hout, hthrough⟩ | ⟨t, ht, hcomplete⟩
        · exact .inl ⟨hout, .inr hthrough⟩
        · exact .inr (.inl ⟨t + 1, Nat.succ_le_succ ht, hcomplete⟩)
      · obtain ⟨hend, hnothing⟩ := hfresh.nothing hok hlong
        simp only [if_neg hend]
        exact .inr (.inr ⟨trivial, _, _, rfl, hlong, hnothing⟩)
    · obtain ⟨hfail, hzero⟩ := hfresh.fail len hok
      rw [takeWhile_cons_of_neg hok, hfail]
      simp only [reduceCtorEq, if_false]
      left
      rw [hfail]
      exact ⟨rfl, .inl ⟨rfl, hzero⟩⟩
  · have hpos := h.pos
    have hhad : u.hadReadLen ≠ 0 := by
      rw [h.had]
      exact Nat.mul_ne_zero (by omega) (Nat.pos_iff_ne_zero.mp f.pagesize_pos)
    rw [if_neg hhad]
    rcases h.run f.pagesPerBlk with ⟨hout, hthrough⟩ | hcomplete
    · exact .inl ⟨hout, .inr hthrough⟩
    · exact .inr (.inl hcomplete)

variable {b buf : Buffer}

variable {r : Option PageEnd × Upload}

/-- The blocks that are left when `n` bytes have been read from some blocks on. -/
def UbootFlash.behind (f : UbootFlash) : Nat → List Nat → List Nat
  | _, [] => []
  | n, blk :: rest =>
    if f.blockBad blk then f.behind n rest
    else if n ≤ (f.usable blk).length * f.pagesize then rest
    else f.behind (n - (f.usable blk).length * f.pagesize) rest

/-- A package of more than one page, and of at most `len` bytes, can be read from these blocks
    on. -/
structure Package (f : UbootFlash) (len : Nat) (blks : List Nat) (b : Buffer) : Prop where
  magic : headMagic b = tocMainInfoMagic
  long : f.pagesize < headValidLen b
  length : headValidLen b ≤ len
  holds : f.Holds (f.stream blks) (headValidLen b) b

theorem validLen_eq (hm : f.Holds pages n m) (hb : f.Holds pages (headValidLen b) b)
    (hlong : f.pagesize < headValidLen b) (hn : f.pagesize ≤ n) : headValidLen m = headValidLen b :=
  headValidLen_congr fun i hi => Holds.agree (Holds.mono hm hn) (Holds.mono hb hlong.le) i
    (hi.trans_le f.headSize_le)

/-- An attempt at the package `b`, of which `n` bytes are still to come, ends with the checksum, and
    when that is wrong the reader goes on behind the package. -/
def Attempted (f : UbootFlash) (len : Nat) (b : Buffer) (n : Nat) (blks : List Nat)
    (r : Option PageEnd × Upload) : Prop :=
  ∃ u : Upload, u.hadReadLen = 0 ∧ Agree (headValidLen b) u.buf b ∧
    ((SumOk b (headValidLen b) ∧ u.ret = 0 ∧
        uploadBlocks f len blks r = (some (.accepted (headValidLen b)), u)) ∨
      (¬ SumOk b (headValidLen b) ∧ uploadBlocks f len blks r =
        uploadBlocks f len (f.behind n blks) (some (.wrongSum (headValidLen b)), u)))

theorem uploadBlocks_package (hmagic : headMagic b = tocMainInfoMagic)
    (hlong : f.pagesize < headValidLen b) (hlength : headValidLen b ≤ len) (blks : List Nat)
    (hreached : Reached f len pages r.2)
    (hholds : f.Holds (pages ++ f.stream blks) (headValidLen b) b)
    (hmore : pages.length * f.pagesize < headValidLen b) :
    Attempted f len b (headValidLen b - pages.length * f.pagesize) blks r := by
  unfold Attempted
  induction blks generalizing pages r with
  | nil =>
    have hlen := hholds.1
    rw [show f.stream [] = [] from rfl, append_nil] at hlen
    omega
  | cons blk rest ih =>
    rw [uploadBlocks, UbootFlash.behind]
    split <;> rename_i hbad
    · rw [stream_bad hbad] at hholds
      exact ih hreached hholds hmore
    rcases hreached.block blk with
      ⟨hout, hthrough⟩ | ⟨t, ht, hcomplete⟩ | ⟨rfl, page, us, hus, hhead, -⟩
    · simp only [hout, false_eq_true, if_false]
      rw [stream_good hbad, ← append_assoc] at hholds
      have hmore' : (pages ++ f.usable blk).length * f.pagesize < headValidLen b := by
        rcases hthrough with ⟨hnil, -⟩ | hprogress
        · rw [hnil, length_nil, Nat.zero_mul]
          omega
        · -- the head that the reader found is that of the package
          have hheld := (holds_append_iff (f.stream rest) le_rfl).mpr hprogress.holds
          rw [← validLen_eq hheld hholds hlong hprogress.pagesize_le]
          exact hprogress.more
      have hrun := ih (r := (some (uploadBlock f len blk r.2).1, (uploadBlock f len blk r.2).2))
        hthrough hholds hmore'
      rw [length_append, add_mul] at hmore' hrun
      rw [if_neg (by omega), Nat.sub_sub]
      exact hrun
    · have hheld := hcomplete.holds_stream hbad rest
      have hvalid := validLen_eq hheld hholds hlong hcomplete.long.le
      have henough := hcomplete.holds.1
      rw [hvalid] at hheld henough
      have hagree := Holds.agree hheld hholds
      have hsum := sumOk_congr (f.headSize_le.trans hlong.le) hagree
      have hchecked := hcomplete.checked
      rw [hvalid, hsum] at hchecked
      have hblock : headValidLen b - pages.length * f.pagesize ≤
          (f.usable blk).length * f.pagesize := by
        rw [length_append, length_take, Nat.min_eq_left ht, add_mul] at henough
        have := Nat.mul_le_mul_right f.pagesize ht
        omega
      rw [if_pos hblock]
      refine ⟨_, hcomplete.had, hagree, ?_⟩
      rcases hchecked with ⟨hok, hret, he⟩ | ⟨hno, he⟩
      · simp only [he, PageEnd.out, if_true]
        exact .inl ⟨hok, hret, trivial⟩
      · simp only [he, PageEnd.out, false_eq_true, if_false]
        exact .inr ⟨hno, trivial⟩
    · -- the first page is that of the package
      have hfirst : ∀ i < headSize, f.nand.cell 0 page i = b i := by
        intro i hi
        have hsize := f.headSize_le
        have hbyte := hholds.2 i (by omega)
        rw [Nat.div_eq_of_lt (by omega), Nat.mod_eq_of_lt (by omega),
          stream_good hbad, hus] at hbyte
        exact hbyte.symm
      refine absurd ⟨?_, ?_, ?_⟩ hhead
      · rw [headMagic_congr hfirst]
        exact hmagic
      · rw [headValidLen_congr hfirst]
        exact hlong
      · rw [headValidLen_congr hfirst]
        exact hlength

theorem Package.attempted (h : Package f len blks b) (hzero : r.2.hadReadLen = 0) :
    Attempted f len b (headValidLen b) blks r := by
  have hreached : Reached f len [] r.2 := .inl ⟨rfl, hzero⟩
  have hrun := uploadBlocks_package h.magic h.long h.length blks hreached h.holds
    (by rw [length_nil, zero_mul]; exact (Nat.zero_le _).trans_lt h.long)
  rwa [length_nil, zero_mul, Nat.sub_zero] at hrun

/-- The reader gets from some blocks to others with nothing in hand, over bad blocks, blocks whose
    first page cannot be read or has no magic word, and packages with a wrong checksum. -/
inductive Skips (f : UbootFlash) (len : Nat) : List Nat → List Nat → Prop where
  | here (blks) : Skips f len blks blks
  | bad {blk rest rest'} : f.blockBad blk = true → Skips f len rest rest' →
      Skips f len (blk :: rest) rest'
  | unread {blk rest rest'} : ¬ f.pageOk (f.firstPage blk) = true → Skips f len rest rest' →
      Skips f len (blk :: rest) rest'
  | noMagic {blk rest rest'} : headMagic (f.nand.cell 0 (f.firstPage blk)) ≠ tocMainInfoMagic →
      Skips f len rest rest' → Skips f len (blk :: rest) rest'
  | wrongSum {blks rest' b} : Package f len blks b → ¬ SumOk b (headValidLen b) →
      Skips f len (f.behind (headValidLen b) blks) rest' → Skips f len blks rest'

variable {blk : Nat}

/-- A block whose first page ends the attempt. -/
theorem uploadBlock_first (hzero : u.hadReadLen = 0)
    (hend : (uploadPage f len (f.firstPage blk) { u with mdata := .buf, off := 0 }).1 ≠ .more) :
    uploadBlock f len blk u =
      uploadPage f len (f.firstPage blk) { u with mdata := .buf, off := 0 } := by
  obtain ⟨left, hleft⟩ := Nat.exists_eq_add_one.mpr f.pagesPerBlk_pos
  unfold uploadBlock
  rw [if_pos hzero, hleft, uploadPages]
  simp only [if_neg hend]

theorem uploadBlock_unread (len : Nat) (hzero : u.hadReadLen = 0)
    (hfail : ¬ f.pageOk (f.firstPage blk) = true) :
    (uploadBlock f len blk u).1 = .readFail ∧ (uploadBlock f len blk u).2.hadReadLen = 0 ∧
      (uploadBlock f len blk u).2.ret ≠ 0 := by
  have hfresh : Fresh { u with mdata := .buf, off := 0 } := ⟨hzero, rfl, rfl⟩
  obtain ⟨hend, hhad⟩ := hfresh.fail len hfail
  obtain ⟨hret, -⟩ := read_fail (u := { u with mdata := .buf, off := 0 }) hfail
  rw [uploadBlock_first hzero (by rw [hend]; rintro ⟨⟩)]
  refine ⟨hend, hhad, ?_⟩
  unfold uploadPage
  rw [if_pos hret]
  exact hret

theorem uploadBlock_noMagic (len : Nat) (hzero : u.hadReadLen = 0)
    (hok : f.pageOk (f.firstPage blk) = true)
    (hmagic : headMagic (f.nand.cell 0 (f.firstPage blk)) ≠ tocMainInfoMagic) :
    (uploadBlock f len blk u).1 = .wrongMagic ∧ (uploadBlock f len blk u).2.hadReadLen = 0 := by
  have hrun : uploadPage f len (f.firstPage blk) { u with mdata := .buf, off := 0 } =
      (.wrongMagic, (uploadPage f len (f.firstPage blk) { u with mdata := .buf, off := 0 }).2) ∧
      (uploadPage f len (f.firstPage blk) { u with mdata := .buf, off := 0 }).2.hadReadLen = 0 := by
    rw [← headMagic_congr (head_first (f := f) u.buf _)] at hmagic
    unfold uploadPage
    rw [read_ok hok]
    simp only [ne_eq, not_true_eq_false, if_false, if_pos hmagic]
    exact ⟨trivial, trivial⟩
  rw [uploadBlock_first hzero (by rw [hrun.1]; rintro ⟨⟩)]
  exact ⟨congrArg Prod.fst hrun.1, hrun.2⟩

/-- A block that is bad, or ends the attempt with its first page, is skipped. -/
theorem uploadBlocks_skip (rest : List Nat) (hzero : r.2.hadReadLen = 0)
    (h : ¬ f.blockBad blk = true → (uploadBlock f len blk r.2).1.out = false ∧
      (uploadBlock f len blk r.2).2.hadReadLen = 0) :
    ∃ r' : Option PageEnd × Upload, r'.2.hadReadLen = 0 ∧
      uploadBlocks f len (blk :: rest) r = uploadBlocks f len rest r' := by
  rw [uploadBlocks]
  by_cases hbad : f.blockBad blk = true
  · exact ⟨r, hzero, if_pos hbad⟩
  · obtain ⟨hout, hhad⟩ := h hbad
    refine ⟨(some (uploadBlock f len blk r.2).1, (uploadBlock f len blk r.2).2), hhad, ?_⟩
    simp only [if_neg hbad, hout, false_eq_true, if_false]

theorem Skips.run {blks rest : List Nat} (h : Skips f len blks rest) (hzero : r.2.hadReadLen = 0) :
    ∃ r' : Option PageEnd × Upload, r'.2.hadReadLen = 0 ∧
      uploadBlocks f len blks r = uploadBlocks f len rest r' := by
  induction h generalizing r with
  | here => exact ⟨r, hzero, rfl⟩
  | bad hbad _ ih =>
    obtain ⟨r', hzero', hrun⟩ := uploadBlocks_skip _ hzero fun hgood => absurd hbad hgood
    rw [hrun]
    exact ih hzero'
  | unread hfail _ ih =>
    obtain ⟨hend, hhad, -⟩ := uploadBlock_unread len hzero hfail
    obtain ⟨r', hzero', hrun⟩ := uploadBlocks_skip _ hzero fun _ => ⟨by rw [hend]; rfl, hhad⟩
    rw [hrun]
    exact ih hzero'
  | @noMagic blk rest rest' hmagic _ ih =>
    obtain ⟨r', hzero', hrun⟩ := uploadBlocks_skip rest hzero fun _ => by
      by_cases hok : f.pageOk (f.firstPage blk) = true
      · obtain ⟨hend, hhad⟩ := uploadBlock_noMagic len hzero hok hmagic
        exact ⟨by rw [hend]; rfl, hhad⟩
      · obtain ⟨hend, hhad, -⟩ := uploadBlock_unread len hzero hok
        exact ⟨by rw [hend]; rfl, hhad⟩
    rw [hrun]
    exact ih hzero'
  | wrongSum hpackage hsum _ ih =>
    obtain ⟨u, hu, -, ⟨hok, -⟩ | ⟨-, hrun⟩⟩ := hpackage.attempted hzero
    · exact absurd hok hsum
    · rw [hrun]
      exact ih hu

/-- The reader returns 0 with the package in the buffer. -/
def Found (f : UbootFlash) (len : Nat) (buf image : Buffer) : Prop :=
  (uploadUboot f len buf).2.ret = 0 ∧ Agree (headValidLen image) (uploadUboot f len buf).2.buf image

/-- A package in order behind blocks that are skipped is found. -/
theorem Skips.found {rest : List Nat} (h : Skips f len f.area rest) (buf : Buffer)
    (hpackage : Package f len rest b) (hsum : SumOk b (headValidLen b)) : Found f len buf b := by
  obtain ⟨r, hzero, hrun⟩ := h.run (r := (none, Upload.start buf)) rfl
  obtain ⟨u, -, hagree, ⟨-, hret, hend⟩ | ⟨hno, -⟩⟩ := hpackage.attempted hzero
  · unfold Found uploadUboot
    rw [hrun, hend]
    exact ⟨hret, hagree⟩
  · exact absurd hsum hno

theorem verified_of_agree {image : Buffer} (hver : Verified image len)
    (hsize : headSize ≤ headValidLen image) (h : Agree (headValidLen image) b image) :
    Verified b len := by
  have hhead : ∀ i < headSize, b i = image i := fun i hi => h i (by omega)
  exact (verified_iff_sum hver.magic rfl hver.length hhead).mpr ((sumOk_congr hsize h).mpr hver.sum)

/-- The first page of the last good block cannot be read. -/
def LastUnread (f : UbootFlash) (blks : List Nat) : Prop :=
  ∃ blk rest, blks = blk :: rest ∧ ¬ f.blockBad blk = true ∧ ¬ f.pageOk (f.firstPage blk) = true ∧
    ∀ blk' ∈ rest, f.blockBad blk' = true

theorem uploadBlocks_bad {blks : List Nat} (h : ∀ blk ∈ blks, f.blockBad blk = true) :
    uploadBlocks f len blks r = r := by
  induction blks with
  | nil => rfl
  | cons blk rest ih =>
    rw [uploadBlocks, if_pos (h blk mem_cons_self)]
    exact ih fun blk' hmem => h blk' (mem_cons_of_mem _ hmem)

end

/-- A chip without bad blocks that was erased. -/
def erasedFlash : UbootFlash where
  cfg := goodChip
  nand := freshNand goodChip
  blockBad := fun _ => false
  sector_le := by decide
  area_le := by decide

end Brandy.RawNand
