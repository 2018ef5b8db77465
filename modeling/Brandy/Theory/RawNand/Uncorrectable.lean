import Brandy.Theory.RawNand.Pages

/-!
# Pages That Cannot Be Corrected

The readers of the MTD layer report every page of the device that they read and that reports an
error. There are two ways for a bad page to escape. A page that could not be corrected is struck out
of the page buffer and then noted down in it like any other, so the next read of the same bytes is
served from there. And of the two pages of a pair of planes, only the code for the second one is
returned.

## Main definitions

* `NeverGood`: A bad page is not returned as a good one.
* `Caught`: The buffer does not have the bad page.

## Theorems

* `readRange_neg_iff`: When a reader ends in an error.
* `neverGood_iff`: When no bad page is returned.
* `single_neverGood`: Without pairs of planes the buffer is all that matters.
-/

namespace Brandy.RawNand

/-- The page of a chip that holds the byte at an address. -/
def Config.physPage (cfg : Config) (a : Nat) : Nat :=
  let page := a / cfg.writesize % cfg.chipPages
  if cfg.simulateMultiplane then
    if a % cfg.writesize < cfg.pagesize then cfg.pageA page else cfg.pageB page
  else page

/-- The page of the chip that holds the byte at an address reports that it cannot be corrected. -/
def Uncorrectable (cfg : Config) (a : Nat) : Prop :=
  cfg.status (a / cfg.writesize / cfg.chipPages) (cfg.physPage a) = eccErr

/-- The read of a page of the device returns an error. -/
def Reported (cfg : Config) (page : Nat) : Prop :=
  cfg.pageRet (page / cfg.chipPages) (page % cfg.chipPages) = eccErr ∨
    cfg.pageRet (page / cfg.chipPages) (page % cfg.chipPages) < 0

variable {cfg : Config}

theorem result_neg_iff {r : Reading cfg} (h : 0 ≤ r.ret) : r.result < 0 ↔ r.eccFailed = true := by
  unfold Reading.result
  rw [if_neg (by omega)]
  cases r.eccFailed with
  | true => simp [ebadmsg]
  | false => simp

section

variable (r : Reading cfg) (mlen : Nat)

@[simp] theorem advance_ret : (r.advance mlen).ret = r.ret := by
  unfold Reading.advance
  simp only
  split <;> rfl

@[simp] theorem advance_eccFailed : (r.advance mlen).eccFailed = r.eccFailed := by
  unfold Reading.advance
  simp only
  split <;> rfl

@[simp] theorem advance_nand : (r.advance mlen).nand = r.nand := by
  unfold Reading.advance
  simp only
  split <;> rfl

@[simp] theorem advance_maxBitflips : (r.advance mlen).maxBitflips = r.maxBitflips := by
  unfold Reading.advance
  simp only
  split <;> rfl

end

variable {k : Request}

/-- The loop at a page that the buffer does not have ends with the error of the page, or fills the
    buffer and goes on, and the buffer does not have the next page. -/
theorem readLoop_miss {r : Reading cfg} {page col len n : Nat} (h : col < cfg.writesize)
    (hmiss : ¬ hit k r.nand.cache (page &&& cfg.simuChipPagesMask) col len)
    (hn : min (cfg.writesize - col) len = n) :
    (cfg.pageRet (page / cfg.chipPages) (page % cfg.chipPages) < 0 ∧
        (readLoop k r (page / cfg.chipPages) page col len h).ret =
          cfg.pageRet (page / cfg.chipPages) (page % cfg.chipPages)) ∨
      (0 ≤ cfg.pageRet (page / cfg.chipPages) (page % cfg.chipPages) ∧ ∃ r',
        Filled r r' (page / cfg.chipPages) (page % cfg.chipPages) col n ∧
        readLoop k r (page / cfg.chipPages) page col len h =
          (if len - n = 0 then r'.advance n
          else readLoop k (r'.advance n) ((page + 1) / cfg.chipPages) (page + 1) 0 (len - n)
            cfg.writesize_pos) ∧
        ¬ hit k (r'.advance n).nand.cache ((page + 1) &&& cfg.simuChipPagesMask) 0 (len - n)) := by
  subst hn
  have hstep := readStep_miss (page / cfg.chipPages)
    (min (cfg.writesize - col) len) (by omega) hmiss
  rw [and_mask] at hstep
  rw [readLoop]
  rcases hstep with ⟨hneg, hstop, hret⟩ | ⟨hnonneg, hgo, hfilled⟩
  · rw [hstop]
    exact .inl ⟨hneg, hret⟩
  rw [hgo, nextChip_eq]
  refine .inr ⟨hnonneg, _, hfilled, rfl, fun hc => ?_⟩
  have hno := hc.2.1
  rw [advance_nand, hfilled.simuPageno, and_mask] at hno
  exact succ_mod_ne cfg page (by exact_mod_cast hno)

theorem readLoop_neg_iff {r : Reading cfg} {page col len : Nat} (h : col < cfg.writesize)
    (hlen : 0 < len) (hret : 0 ≤ r.ret)
    (hmiss : ¬ hit k r.nand.cache (page &&& cfg.simuChipPagesMask) col len) :
    (readLoop k r (page / cfg.chipPages) page col len h).result < 0 ↔
      r.eccFailed = true ∨
        ∃ j, page ≤ j ∧ j ≤ page + (col + len - 1) / cfg.writesize ∧ Reported cfg j := by
  induction hn : len using Nat.strong_induction_on generalizing r page col len with
  | _ n ih =>
    subst hn
    have hpos := cfg.writesize_pos
    obtain ⟨m, hm⟩ : ∃ m, min (cfg.writesize - col) len = m := ⟨_, rfl⟩
    rcases readLoop_miss h hmiss hm with ⟨hneg, hstop⟩ | ⟨hnonneg, r', hstep, hloop, hnext⟩
    · -- the loop ends at this page
      refine iff_of_true ?_ (.inr ⟨page, le_rfl, Nat.le_add_right _ _, .inr hneg⟩)
      unfold Reading.result
      rw [hstop, if_pos hneg]
      exact hneg
    have hfailed := hstep.eccFailed
    have hhere : Reported cfg page ↔
        cfg.pageRet (page / cfg.chipPages) (page % cfg.chipPages) = eccErr :=
      or_iff_left (by omega)
    have hret' : 0 ≤ (r'.advance m).ret := by
      rw [advance_ret]
      exact hstep.ret
    rw [hloop]
    by_cases hlast : len - m = 0
    · -- the last page
      rw [if_pos hlast, result_neg_iff hret', advance_eccFailed, hfailed, Bool.or_eq_true,
        decide_eq_true_eq, ← hhere]
      have hdiv : (col + len - 1) / cfg.writesize = 0 := Nat.div_eq_of_lt (by omega)
      rw [hdiv]
      refine or_congr_right ⟨fun hr => ⟨page, le_rfl, le_rfl, hr⟩, ?_⟩
      rintro ⟨j, hle, hge, hr⟩
      rwa [show page = j by omega]
    · rw [if_neg hlast, ih _ (by omega) cfg.writesize_pos (by omega) hret' hnext rfl,
        advance_eccFailed, hfailed, Bool.or_eq_true, decide_eq_true_eq, ← hhere, or_assoc]
      have hdiv : (col + len - 1) / cfg.writesize =
          (0 + (len - m) - 1) / cfg.writesize + 1 := by
        rw [← Nat.add_div_right _ hpos]
        congr 1
        omega
      rw [hdiv]
      refine or_congr_right ⟨?_, ?_⟩
      · rintro (hr | ⟨j, hle, hge, hr⟩)
        · exact ⟨page, le_rfl, Nat.le_add_right _ _, hr⟩
        · exact ⟨j, by omega, by omega, hr⟩
      · rintro ⟨j, hle, hge, hr⟩
        by_cases hj : j = page
        · exact .inl (hj ▸ hr)
        · exact .inr ⟨j, by omega, by omega, hr⟩

variable {start len : Nat}

theorem readRange_hit {s : Nand cfg} {mdata sdata : Buffer}
    (h : hit k s.cache (start / cfg.writesize % cfg.chipPages) (start % cfg.writesize) len) :
    (readRange s k start len mdata sdata).result = s.cache.bitflips := by
  unfold readRange
  rw [readLoop_hit]
  · unfold Reading.result
    simp only [advance_ret, advance_eccFailed, advance_maxBitflips, Reading.copy, Reading.start,
      lt_irrefl, if_false, Bool.false_eq_true]
  · rwa [shift_page, and_mask, and_writesize]

/-- A reader ends in an error exactly if the buffer does not have what it wants and one of its pages
    returns one. -/
theorem readRange_neg_iff (s : Nand cfg) (k : Request) (hlen : 0 < len) {mdata sdata : Buffer} :
    (readRange s k start len mdata sdata).result < 0 ↔
      ¬ hit k s.cache (start / cfg.writesize % cfg.chipPages) (start % cfg.writesize) len ∧
        ∃ page, start / cfg.writesize ≤ page ∧ page ≤ (start + len - 1) / cfg.writesize ∧
          Reported cfg page := by
  have hpos := cfg.writesize_pos
  by_cases hhit : hit k s.cache (start / cfg.writesize % cfg.chipPages) (start % cfg.writesize) len
  · rw [readRange_hit hhit]
    exact iff_of_false (by omega) fun hc => hc.1 hhit
  have hmiss : ¬ hit k (Reading.start s k mdata sdata).nand.cache
      ((start >>> cfg.simuPagesizeShift) &&& cfg.simuChipPagesMask)
      (start &&& (cfg.writesize - 1)) len := by
    rwa [shift_page, and_mask, and_writesize]
  have hloop := readLoop_neg_iff
    (lt_of_le_of_lt Nat.and_le_right (Nat.sub_lt cfg.writesize_pos one_pos)) hlen
    (le_refl (0 : Int)) hmiss
  have hchip : start >>> cfg.geometry.chipShift =
      start >>> cfg.simuPagesizeShift / cfg.chipPages := by rw [shift_chip, shift_page]
  have hend : start / cfg.writesize + (start % cfg.writesize + len - 1) / cfg.writesize =
      (start + len - 1) / cfg.writesize := by
    rw [add_comm, ← Nat.add_mul_div_left _ _ hpos]
    congr 1
    have := Nat.div_add_mod start cfg.writesize
    omega
  unfold readRange
  simp only [hchip]
  rw [hloop, shift_page, and_writesize, hend]
  simp only [Reading.start, Bool.false_eq_true, false_or, hhit, not_false_eq_true, true_and]

/-- If a page of a chip that holds wanted bytes cannot be corrected, an error is returned. -/
def NeverGood (cfg : Config) (start len : Nat) (ret : Int) : Prop :=
  (∃ a, start ≤ a ∧ a < start + len ∧ Uncorrectable cfg a) → ret < 0

/-- No wanted byte is in a bad page, or the buffer does not have what is wanted and one of its pages
    returns an error. -/
def Caught (s : Nand cfg) (k : Request) (start len : Nat) : Prop :=
  (∀ a, start ≤ a → a < start + len → ¬ Uncorrectable cfg a) ∨
    (¬ hit k s.cache (start / cfg.writesize % cfg.chipPages) (start % cfg.writesize) len ∧
      ∃ page, start / cfg.writesize ≤ page ∧ page ≤ (start + len - 1) / cfg.writesize ∧
        Reported cfg page)

theorem readRange_neverGood_iff (s : Nand cfg) (k : Request) {start len : Nat}
    (mdata sdata : Buffer) :
    NeverGood cfg start len (readRange s k start len mdata sdata).result ↔
      Caught s k start len := by
  unfold NeverGood Caught
  by_cases hbad : ∃ a, start ≤ a ∧ a < start + len ∧ Uncorrectable cfg a
  · obtain ⟨a, hle, hlt, ha⟩ := hbad
    have hsome : ¬ ∀ a, start ≤ a → a < start + len → ¬ Uncorrectable cfg a :=
      fun hall => hall a hle hlt ha
    rw [← readRange_neg_iff s k (by omega)]
    exact ⟨fun h => .inr (h ⟨a, hle, hlt, ha⟩), fun h _ => h.resolve_left hsome⟩
  · exact ⟨fun _ => .inl fun a hle hlt ha => hbad ⟨a, hle, hlt, ha⟩, fun _ hex => absurd hex hbad⟩

/-- Whatever was read before, a reader returns no bad page as a good one exactly if no wanted byte
    is in one, or the buffer does not have what is wanted and a page of it returns an error. -/
theorem neverGood_iff (s : Nand cfg) (start len : Nat) :
    (∀ buf, NeverGood cfg start len (mtdRead s start len buf).result ↔
        Caught s Request.data start len) ∧
      ∀ ooboffs ooblen oobbuf datbuf sdata,
        NeverGood cfg start len (mtdReadOob s start len ooboffs ooblen oobbuf datbuf sdata).result ↔
          Caught s { oob := true, ooboffs := ooboffs, ooblen := ooblen, oobbuf := oobbuf }
            start len :=
  ⟨fun _ => readRange_neverGood_iff s _ _ _,
    fun _ _ _ _ _ => readRange_neverGood_iff s _ _ _⟩

theorem caught_of_single {s : Nand cfg} (hsingle : cfg.simulateMultiplane = false)
    (hmiss : ¬ hit k s.cache (start / cfg.writesize % cfg.chipPages) (start % cfg.writesize) len) :
    Caught s k start len := by
  by_cases hbad : ∃ a, start ≤ a ∧ a < start + len ∧ Uncorrectable cfg a
  · obtain ⟨a, hle, hlt, ha⟩ := hbad
    refine .inr ⟨hmiss, a / cfg.writesize, Nat.div_le_div_right hle,
      Nat.div_le_div_right (by omega), ?_⟩
    unfold Uncorrectable Config.physPage at ha
    simp only [hsingle, Bool.false_eq_true, if_false] at ha
    unfold Reported Config.pageRet
    simp only [hsingle, Bool.false_eq_true, if_false]
    split
    · exact .inl ha
    · exact .inr (by decide)
  · exact .inl fun a hle hlt ha => hbad ⟨a, hle, hlt, ha⟩

/-- Without pairs of planes, in every state: a read that the buffer does not answer returns no bad
    page as a good one. -/
theorem single_neverGood (s : Nand cfg) (hsingle : cfg.simulateMultiplane = false)
    (start len : Nat) :
    (¬ hit Request.data s.cache (start / cfg.writesize % cfg.chipPages)
      (start % cfg.writesize) len →
        ∀ buf, NeverGood cfg start len (mtdRead s start len buf).result) ∧
      ∀ ooboffs ooblen oobbuf,
        ¬ hit { oob := true, ooboffs := ooboffs, ooblen := ooblen, oobbuf := oobbuf } s.cache
            (start / cfg.writesize % cfg.chipPages) (start % cfg.writesize) len →
          ∀ datbuf sdata, NeverGood cfg start len
            (mtdReadOob s start len ooboffs ooblen oobbuf datbuf sdata).result :=
  ⟨fun hmiss _ => (readRange_neverGood_iff s _ _ _).mpr (caught_of_single hsingle hmiss),
    fun _ _ _ hmiss _ _ => (readRange_neverGood_iff s _ _ _).mpr (caught_of_single hsingle hmiss)⟩

/-- A device whose first page cannot be corrected. -/
def firstPageBad : Config where
  geometry :=
    { pagesizeShift := 11
      pagesPerBlkShift := 6
      blocks := 1024
      chips := 1
      blocks_pos := Nat.two_pow_pos 10
      chips_pos := one_pos
      chips_le := by decide
      pages_two := Nat.succ_pos 5
      shift_le := Nat.le_add_left 17 13
      rows_le := Nat.pow_le_pow_right Nat.two_pos (show 16 ≤ 24 by decide) }
  simulateMultiplane := false
  hasCacheprog := false
  hasMultiErase := false
  avalidSparesize := 32
  bitflipThreshold := 3
  ready := fun _ _ => true
  status := fun _ page => if page = 0 then eccErr else 0
  writeRet := fun _ _ => 0
  eraseOk := fun _ _ => true
  planes := by decide

/-- A device that was just set up, with nothing in its page buffer. -/
def freshNand (cfg : Config) : Nand cfg where
  cell := fun _ _ _ => 0xff
  spare := fun _ _ _ => 0xff
  cache :=
    { simuPageno := invalidCache
      simuOobno := invalidCache
      validCol := 0
      validLen := 0
      validOobCol := 0
      validOobLen := 0
      chipno := 0
      bitflips := 0
      simuPagebuf := fun _ => 0
      simuOobbuf := fun _ => 0
      valid_le := Nat.zero_le _ }

theorem first_read_bad : (mtdRead (freshNand firstPageBad) 0 100 fun _ => 0).result < 0 := by
  refine (single_neverGood (freshNand firstPageBad) rfl 0 100).1 (by decide +kernel) _ ?_
  exact ⟨0, le_rfl, by decide, show firstPageBad.status _ _ = eccErr by decide +kernel⟩

/-- The state after the first 100 bytes were read. -/
def afterFirstRead : Nand firstPageBad := (mtdRead (freshNand firstPageBad) 0 100 fun _ => 0).nand

/-- The first read reports the page, and the second one returns it as a good one. -/
theorem second_read_good :
    Uncorrectable firstPageBad 0 ∧
      (mtdRead (freshNand firstPageBad) 0 100 fun _ => 0).result < 0 ∧
      (mtdRead afterFirstRead 0 100 fun _ => 0).result = 0 := by
  have hcache : afterFirstRead.cache.simuPageno = 0 ∧ afterFirstRead.cache.validCol = 0 ∧
      afterFirstRead.cache.validLen = 100 ∧ afterFirstRead.cache.bitflips = 0 := by
    unfold afterFirstRead mtdRead readRange
    rw [readLoop]
    decide +kernel
  refine ⟨show firstPageBad.status _ _ = eccErr by decide +kernel, ?_, ?_⟩
  · refine (readRange_neg_iff _ _ (by decide)).mpr ⟨?_, 0, by decide +kernel, by decide +kernel, ?_⟩
    · decide +kernel
    · exact .inl (by decide +kernel)
  · rw [mtdRead, readRange_hit, hcache.2.2.2]
    · rfl
    · have hpage : 0 / firstPageBad.writesize % firstPageBad.chipPages = 0 := by
        rw [Nat.zero_div, Nat.zero_mod]
      unfold hit
      rw [hpage, hcache.1, hcache.2.1, hcache.2.2.1, Nat.zero_mod]
      exact ⟨fun hc => absurd hc (by decide), rfl, le_rfl, le_rfl, fun hc => absurd hc (by decide)⟩

end Brandy.RawNand
