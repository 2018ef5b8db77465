import Brandy.Core.SpinandPhysic
import Brandy.Library.Simulation

/-!
# The Page Cache of the SPI-NAND Driver

The driver with its page cache is compared with the same driver that never finds a match. Three
things make a difference: an erase leaves the cached page of its block in place, a program that
fails leaves the bytes that were never stored, and a read that hits asks nothing of the chip, so it
cannot report the ECC status of the page.

## Main definitions

* `Coherent`: The cache holds what the chip holds, in the area it is tagged with.
* `Steady`: The condition on an operation.
* `Related`: The relation between the two drivers.

## Theorems

* `step_related`: One operation.
* `replies_eq_neverMatch`: The cache does not show along a run of steady operations.
-/

namespace Brandy.SpinandPhysic

open Memory Word Simulation

section

variable {info : PhyInfo}

/-- The addresses of the data of a page. -/
def PhyInfo.dataRange (info : PhyInfo) : Set Int := Set.Ico 0 info.pageSize

/-- The addresses of the OOB bytes of a page. -/
def PhyInfo.oobRange (info : PhyInfo) : Set Int :=
  Set.Ico info.pageSize (info.pageSize + info.oobSize)

theorem layout_le {type : EccOobProtected} {spareSize offset datalen len : Nat}
    (h : type.layout = some (spareSize, offset, datalen)) (hlen : len ≤ 16) {t : Nat × Nat}
    (ht : t ∈ oobTurns len datalen) : offset + spareSize * t.1 + t.2 ≤ 64 := by
  rcases List.mem_map.mp ht with ⟨i, hi, rfl⟩
  have hlt := List.mem_range.mp hi
  cases type <;> simp only [EccOobProtected.layout, Option.some.injEq, Prod.mk.injEq,
    reduceCtorEq] at h
  all_goals
    rcases h with ⟨rfl, rfl, rfl⟩
    omega

variable {m m' : Mem}

theorem eccCopyFromOob_congr (h : Set.EqOn m m' info.oobRange) {len : Nat} (hlen : len ≤ 16) :
    awSpinandEccCopyFromOob info.eccProtectedType m info.pageSize len =
      awSpinandEccCopyFromOob info.eccProtectedType m' info.pageSize len := by
  unfold awSpinandEccCopyFromOob
  cases hlay : info.eccProtectedType.layout with
  | none => rfl
  | some l =>
    rcases l with ⟨spareSize, offset, datalen⟩
    simp only [copyFromOobDo, Except.ok.injEq]
    refine List.flatMap_congr fun t ht => read_congr _ fun x hlo hhi => h ?_
    have hle := layout_le hlay hlen ht
    have hoob := info.oobSize_ge
    refine ⟨by omega, ?_⟩
    omega

variable {req : Request info}

theorem copyFromCache_congr
    (hdata : req.databuf.isSome → req.datalen ≠ 0 → Set.EqOn m m' info.dataRange)
    (hoob : req.oobbuf.isSome → req.ooblen ≠ 0 → Set.EqOn m m' info.oobRange) :
    copyFromCache info m req = copyFromCache info m' req := by
  have hd : copyDataFromCache info m req = copyDataFromCache info m' req := by
    unfold copyDataFromCache
    cases hb : req.databuf with
    | none => rfl
    | some b =>
      simp only [Option.map_some]
      split_ifs with hlen
      · refine congrArg some (read_congr _ fun x hlo hhi => hdata (by rw [hb]; rfl) hlen ?_)
        exact ⟨by omega, by omega⟩
      · rfl
  unfold copyFromCache
  rw [hd]
  cases hb : req.oobbuf with
  | none => rfl
  | some b =>
    by_cases hlen : req.ooblen ≠ 0
    · have heq := hoob (by rw [hb]; rfl) hlen
      have hle : oobCopyLen info req.ooblen ≤ 16 ∧ oobCopyLen info req.ooblen ≤ info.oobSize := by
        unfold oobCopyLen
        omega
      have hread : read m info.pageSize (oobCopyLen info req.ooblen) =
          read m' info.pageSize (oobCopyLen info req.ooblen) :=
        read_congr _ fun x hlo hhi => heq ⟨hlo, by omega⟩
      simp only [hread, eccCopyFromOob_congr heq hle.1]
    · simp only [if_neg hlen]

/-- The cache holds what the chip holds, in the area it is tagged with. -/
structure Coherent (info : PhyInfo) (chip : Chip) : Prop where
  data : chip.cache.area = .validCacheData →
    Set.EqOn chip.cache.databuf
      (chip.flash (reqToPaddr info chip.cache.block chip.cache.page)) info.dataRange
  oob : chip.cache.area = .validCacheOob →
    Set.EqOn chip.cache.databuf
      (chip.flash (reqToPaddr info chip.cache.block chip.cache.page)) info.oobRange

variable (cache : Cache)

@[simp] theorem updateCacheInfo_databuf (req : Option (Request info)) :
    (updateCacheInfo info cache req).databuf = cache.databuf := by
  unfold updateCacheInfo
  cases req with
  | none => rfl
  | some req =>
    simp only
    split <;> rfl

theorem updateCacheInfo_some {cache : Cache} (req : Request info) :
    (updateCacheInfo info cache (some req)).area = .invalidCacheAllArea ∨
      (updateCacheInfo info cache (some req)).block = req.block ∧
      (updateCacheInfo info cache (some req)).page = req.page ∧
      ((updateCacheInfo info cache (some req)).area = .validCacheOob ∧ req.oobbuf.isSome ∨
        (updateCacheInfo info cache (some req)).area = .validCacheData ∧ req.databuf.isSome ∧
          req.oobbuf = none) := by
  rcases hd : req.databuf with _ | a <;> rcases ho : req.oobbuf with _ | b <;>
    simp [updateCacheInfo, hd, ho]

variable {chip : Chip}

theorem coherent_of_invalid (h : chip.cache.area = .invalidCacheAllArea) : Coherent info chip := by
  refine ⟨fun hd => ?_, fun ho => ?_⟩
  · rw [h] at hd
    cases hd
  · rw [h] at ho
    cases ho

theorem transfer_data (m page : Mem) (h : req.datalen ≠ 0) :
    Set.EqOn (overlay m page (transferRange info req).1 (transferRange info req).2) page
      info.dataRange := by
  intro x hx
  rcases hx with ⟨hlo, hhi⟩
  rw [transferRange, if_pos h]
  refine overlay_of_mem ⟨hlo, ?_⟩
  split <;> omega

theorem transfer_oob (m page : Mem) (h : req.ooblen ≠ 0) :
    Set.EqOn (overlay m page (transferRange info req).1 (transferRange info req).2) page
      info.oobRange := by
  intro x hx
  rcases hx with ⟨hlo, hhi⟩
  simp only [transferRange, if_pos h]
  split
  · exact overlay_of_mem ⟨by push_cast; omega, by push_cast; omega⟩
  · exact overlay_of_mem ⟨hlo, hhi⟩

/-- The reply is made of the page alone: what the buffer held before does not show. -/
theorem readFromCache_reply (page : Mem) (transfer : Int) :
    (readFromCache info cache page req transfer).1 =
      if (transferRange info req).2 ≠ 0 ∧ transfer ≠ 0 then ReadReply.fail info req transfer
      else copyFromCache info page req := by
  unfold readFromCache
  dsimp only
  split
  · rfl
  · exact copyFromCache_congr (fun _ h => transfer_data _ page h) (fun _ h => transfer_oob _ page h)

theorem read_hit (h : Coherent info chip) (hmatch : matchCache info chip.cache req = true) :
    copyFromCache info chip.cache.databuf req =
      copyFromCache info (chip.flash (reqToPaddr info req.block req.page)) req := by
  unfold matchCache at hmatch
  split_ifs at hmatch with _ htag hdata hoob
  rw [not_or, not_not, not_not] at htag
  rw [htag.1, htag.2]
  -- the area is the one of every buffer of the request
  refine copyFromCache_congr (fun hb _ => h.data ?_) (fun hb _ => h.oob ?_)
  · by_contra hne
    exact hdata ⟨hb, hne⟩
  · by_contra hne
    exact hoob ⟨hb, hne⟩

/-- The page is erased. -/
def Erased (info : PhyInfo) (page : Mem) : Prop :=
  Set.EqOn page (fun _ => 0xff) (Set.Ico 0 (info.pageSize + info.oobSize))

/-- The operations that the cache does not show in. A read that hits is of a page that the chip
    would deliver without a fault, and one that misses has a length for each of its buffers. A write
    is to an erased page, and the chip does not fail once it has the bytes. An erase is of another
    block than the cached one. -/
def Steady (info : PhyInfo) (ecc : Nat → EccRegs) (chip : Chip) : Op info → Prop
  | .read req codes =>
    if matchCache info chip.cache req then
      codes.load = 0 ∧ codes.wait = 0 ∧ codes.transfer = 0 ∧
        checkEcc info (ecc (reqToPaddr info req.block req.page)) codes.reg = eccGood
    else
      (req.oobbuf.isSome → req.ooblen ≠ 0) ∧
        (req.databuf.isSome → req.oobbuf = none → req.datalen ≠ 0)
  | .write req codes =>
    Erased info (chip.flash (reqToPaddr info req.block req.page)) ∧
      (codes.enable ≠ 0 ∨ codes.transfer ≠ 0 ∨
        codes.program = 0 ∧ codes.wait = 0 ∧ codes.progFailed = false)
  | .erase req codes =>
    chip.cache.area = .invalidCacheAllArea ∨ codes.enable ≠ 0 ∨ codes.erase ≠ 0 ∨
      reqToPaddr info chip.cache.block chip.cache.page / info.pageCntPerBlk ≠
        reqToPaddr info req.block req.page / info.pageCntPerBlk

/-- The driver with the cache and the one without: the same chip, and a coherent cache. -/
def Related (info : PhyInfo) (chip bare : Chip) : Prop :=
  bare.flash = chip.flash ∧ Coherent info chip

/-- Tagging the buffer with a request keeps the cache coherent when it holds the page in every area
    the tag can name. -/
theorem coherent_tag {cache : Cache} {flash : Nat → Mem}
    (hoob : req.oobbuf.isSome → Set.EqOn cache.databuf
      (flash (reqToPaddr info req.block req.page)) info.oobRange)
    (hdata : req.databuf.isSome → req.oobbuf = none → Set.EqOn cache.databuf
      (flash (reqToPaddr info req.block req.page)) info.dataRange) :
    Coherent info ⟨updateCacheInfo info cache (some req), flash⟩ := by
  rcases updateCacheInfo_some req with harea | ⟨hblock, hpage, harea⟩
  · exact coherent_of_invalid harea
  refine ⟨fun hd => ?_, fun ho => ?_⟩
  · simp only [hblock, hpage, updateCacheInfo_databuf]
    rcases harea with ⟨harea, -⟩ | ⟨-, hb, hnone⟩
    · rw [harea] at hd
      cases hd
    · exact hdata hb hnone
  · simp only [hblock, hpage, updateCacheInfo_databuf]
    rcases harea with ⟨-, hb⟩ | ⟨harea, -⟩
    · exact hoob hb
    · rw [harea] at ho
      cases ho

theorem coherent_read (chip : Chip) (hoob : req.oobbuf.isSome → req.ooblen ≠ 0)
    (hdata : req.databuf.isSome → req.oobbuf = none → req.datalen ≠ 0) (transfer : Int) :
    Coherent info { chip with cache := (readFromCache info chip.cache
      (chip.flash (reqToPaddr info req.block req.page)) req transfer).2 } := by
  unfold readFromCache
  dsimp only
  split
  · exact coherent_of_invalid rfl
  · exact coherent_tag (fun hb => transfer_oob _ _ (hoob hb))
      (fun hb hnone => transfer_data _ _ (hdata hb hnone))

/-- The same answer, with chips that are still related. -/
def Agree (info : PhyInfo) {α : Type} (r r' : α × Chip) : Prop := r.1 = r'.1 ∧ Related info r.2 r'.2

variable {bare : Chip}

/-- Both drivers refuse an operation in the same way. -/
theorem Agree.guard {α : Type} {P : Prop} [Decidable P] {a : α} {r r' : α × Chip}
    (h : Related info chip bare) (hgo : ¬ P → Agree info r r') :
    Agree info (if P then (a, chip) else r) (if P then (a, bare) else r') := by
  split_ifs with hP
  · exact ⟨rfl, h⟩
  · exact hgo hP

variable (ecc : Nat → EccRegs)

theorem read_step (h : Related info chip bare)
    {codes : ReadCodes} (hsteady : Steady info ecc chip (.read req codes)) :
    Agree info (readSinglePage info ecc (matchCache info) chip req codes)
      (readSinglePage info ecc (neverMatch info) bare req codes) := by
  have hbare : ¬ neverMatch info bare.cache req = true := Bool.false_ne_true
  rw [Steady] at hsteady
  unfold readSinglePage
  refine .guard h fun _ => .guard h fun _ => ?_
  rw [if_neg hbare, h.1]
  by_cases hmatch : matchCache info chip.cache req = true
  · -- a hit: the chip would have given the same bytes with a good status
    rw [if_pos hmatch] at hsteady ⊢
    rcases hsteady with ⟨hload, hwait, htrans, hecc⟩
    have hreply : (readFromCache info bare.cache
        (chip.flash (reqToPaddr info req.block req.page)) req codes.transfer).1 =
          copyFromCache info chip.cache.databuf req := by
      rw [readFromCache_reply, if_neg fun hc => hc.2 htrans, read_hit h.2 hmatch]
    rw [if_neg (not_not.mpr hload), if_neg (not_not.mpr hwait)]
    dsimp only
    rw [hreply, hecc]
    split_ifs with hret
    · exact ⟨rfl, rfl, h.2⟩
    · rw [eccGood, ← not_not.mp hret]
      exact ⟨rfl, rfl, h.2⟩
  rw [if_neg hmatch] at hsteady ⊢
  refine .guard h fun _ => .guard h fun _ => ?_
  dsimp only
  have hcoh := coherent_read chip hsteady.1 hsteady.2 codes.transfer
  rw [readFromCache_reply bare.cache, ← readFromCache_reply chip.cache]
  split <;> exact ⟨rfl, rfl, hcoh⟩

/-- The addresses of a page. -/
def PhyInfo.pageRange (info : PhyInfo) : Set Int := Set.Ico 0 (info.pageSize + info.oobSize)

theorem copyDataToCache_eqOn {m m' : Mem} (req : Request info) :
    Set.EqOn (copyDataToCache info m req) (copyDataToCache info m' req) info.dataRange := by
  have hfill : Set.EqOn (overlay m (fun _ => 0xff) 0 info.pageSize)
      (overlay m' (fun _ => 0xff) 0 info.pageSize) info.dataRange := by
    intro x hx
    have hmem : x ∈ Set.Ico (0 : Int) (0 + info.pageSize) := by
      rw [zero_add]
      exact hx
    rw [overlay_of_mem hmem, overlay_of_mem hmem]
  unfold copyDataToCache
  cases req.databuf with
  | none => exact hfill
  | some b =>
    dsimp only
    split
    · exact store_eqOn hfill
    · exact hfill

theorem copyOobToCache_eqOn (h : Set.EqOn m m' info.dataRange) (req : Request info) :
    (copyOobToCache info m req).1 = (copyOobToCache info m' req).1 ∧
      Set.EqOn (copyOobToCache info m req).2 (copyOobToCache info m' req).2 info.pageRange := by
  have hfill : Set.EqOn (overlay m (fun _ => 0xff) info.pageSize info.oobSize)
      (overlay m' (fun _ => 0xff) info.pageSize info.oobSize) info.pageRange := by
    intro x hx
    by_cases hmem : x ∈ Set.Ico (info.pageSize : Int) (info.pageSize + info.oobSize)
    · rw [overlay_of_mem hmem, overlay_of_mem hmem]
    rw [overlay_of_notMem hmem, overlay_of_notMem hmem]
    rw [Set.mem_Ico, not_and, not_lt] at hmem
    refine h ⟨hx.1, ?_⟩
    by_contra hge
    exact absurd hx.2 (not_lt.mpr (hmem (not_lt.mp hge)))
  unfold copyOobToCache
  cases req.oobbuf with
  | none => exact ⟨rfl, hfill⟩
  | some b =>
    dsimp only
    split_ifs
    · exact ⟨rfl, store_eqOn hfill⟩
    · rw [awSpinandEccCopyToOob, awSpinandEccCopyToOob]
      cases info.eccProtectedType.layout with
      | none => exact ⟨rfl, hfill⟩
      | some l =>
        refine ⟨rfl, List.foldl_rel (r := (Set.EqOn · · info.pageRange)) hfill ?_⟩
        exact fun _ _ _ _ h => store_eqOn h
    · exact ⟨rfl, hfill⟩

theorem writeToCache_eq {cache : Cache} {req : Request info} {transfer : Int}
    {r : Int × Mem} (hr : copyOobToCache info (copyDataToCache info cache.databuf req) req = r) :
    writeToCache info cache req transfer =
      if r.1 ≠ 0 then (r.1, updateCacheInfo info { cache with databuf := r.2 } none)
      else if transfer ≠ 0 then
        (transfer, updateCacheInfo info
          (updateCacheInfo info { cache with databuf := r.2 } (some req)) none)
      else (0, updateCacheInfo info
          (updateCacheInfo info { cache with databuf := r.2 } (some req)) (some req)) := by
  unfold writeToCache copyToCache
  rw [hr]
  by_cases hret : r.1 ≠ 0
  · simp only [if_pos hret]
  · simp only [if_neg hret, ne_eq, not_true_eq_false, if_false]

/-- What `aw_spinand_cache_write_to_cache` leaves: the bytes of the request, tagged with it when
    they went out and with nothing otherwise. -/
theorem writeToCache_spec (req : Request info) (transfer : Int) :
    (writeToCache info cache req transfer).2.databuf =
        (copyOobToCache info (copyDataToCache info cache.databuf req) req).2 ∧
      ((writeToCache info cache req transfer).1 ≠ 0 ∧
          (writeToCache info cache req transfer).2.area = .invalidCacheAllArea ∨
        transfer = 0 ∧ (writeToCache info cache req transfer).1 = 0 ∧
          ∃ c, (writeToCache info cache req transfer).2 = updateCacheInfo info c (some req)) := by
  rw [writeToCache_eq rfl]
  split_ifs with hret htrans
  · exact ⟨rfl, .inl ⟨hret, rfl⟩⟩
  · exact ⟨by simp only [updateCacheInfo_databuf], .inl ⟨htrans, rfl⟩⟩
  · exact ⟨by simp only [updateCacheInfo_databuf], .inr ⟨not_not.mp htrans, rfl, _, rfl⟩⟩

theorem writeToCache_eqOn (cache cache' : Cache) (req : Request info) (transfer : Int) :
    (writeToCache info cache req transfer).1 = (writeToCache info cache' req transfer).1 ∧
      Set.EqOn (writeToCache info cache req transfer).2.databuf
        (writeToCache info cache' req transfer).2.databuf info.pageRange := by
  rcases copyOobToCache_eqOn (copyDataToCache_eqOn req) req with
    ⟨hret, hbuf⟩
  rw [(writeToCache_spec cache req transfer).1, (writeToCache_spec cache' req transfer).1]
  refine ⟨?_, hbuf⟩
  rw [writeToCache_eq rfl, writeToCache_eq rfl, ← hret]
  split_ifs <;> rfl

theorem programPage_congr (page : Mem) (h : Set.EqOn m m' info.pageRange) :
    programPage info page m = programPage info page m' := by
  funext x
  unfold programPage overlay
  split_ifs with hx
  · exact congrArg (page x &&& ·) (h ⟨hx.1, by omega⟩)
  · rfl

theorem programPage_erased {page : Mem} (h : Erased info page) (m : Mem) :
    Set.EqOn m (programPage info page m) info.pageRange := by
  intro x hx
  have hmem : x ∈ Set.Ico (0 : Int) (0 + ((info.pageSize + info.oobSize : Nat) : Int)) := by
    rw [zero_add]
    exact hx
  have hff : (0xff : UInt8) &&& m x = m x := by
    apply UInt8.eq_of_toBitVec_eq
    exact BitVec.allOnes_and
  unfold programPage
  rw [overlay_of_mem hmem, h hx, hff]

theorem write_step (h : Related info chip bare)
    {codes : WriteCodes} (hsteady : Steady info ecc chip (.write req codes)) :
    Agree info (writeSinglePage info chip req codes) (writeSinglePage info bare req codes) := by
  rw [Steady] at hsteady
  rcases hsteady with ⟨herased, hcodes⟩
  rcases writeToCache_eqOn chip.cache bare.cache req codes.transfer with ⟨hret, hbuf⟩
  have hspec := (writeToCache_spec chip.cache req codes.transfer).2
  unfold writeSinglePage
  refine .guard h fun _ => .guard h fun _ => .guard h fun henable => ?_
  simp only [← hret]
  rcases hspec with ⟨hne, harea⟩ | ⟨htrans, hzero, c, htag⟩
  · -- the bytes did not go out: the tag is gone
    simp only [if_pos hne]
    exact ⟨rfl, h.1, coherent_of_invalid harea⟩
  have hok : codes.program = 0 ∧ codes.wait = 0 ∧ codes.progFailed = false := by
    rcases hcodes with he | ht | hok
    · exact absurd he henable
    · exact absurd htrans ht
    · exact hok
  rcases hok with ⟨hprog, hwait, hfailed⟩
  simp only [hzero, hprog, hwait, hfailed, ne_eq, not_true_eq_false, if_false, or_self, and_false,
    Bool.false_eq_true, h.1]
  rw [programPage_congr (chip.flash (reqToPaddr info req.block req.page)) hbuf.symm]
  refine ⟨rfl, rfl, ?_⟩
  -- the chip now holds what was sent
  have hstored := programPage_erased herased
    (writeToCache info chip.cache req codes.transfer).2.databuf
  have hc : c.databuf = (writeToCache info chip.cache req codes.transfer).2.databuf := by
    rw [htag, updateCacheInfo_databuf]
  rw [← hc] at hstored ⊢
  rw [htag]
  refine coherent_tag (fun _ x hx => ?_) (fun _ _ x hx => ?_)
  · rw [Function.update_self]
    exact hstored ⟨le_trans (by positivity) hx.1, hx.2⟩
  · rw [Function.update_self]
    exact hstored ⟨hx.1, lt_of_lt_of_le hx.2 (by omega)⟩

theorem erase_step (h : Related info chip bare)
    {codes : EraseCodes} (hsteady : Steady info ecc chip (.erase req codes)) :
    Agree info (eraseSingleBlock info chip req codes) (eraseSingleBlock info bare req codes) := by
  rw [Steady] at hsteady
  unfold eraseSingleBlock
  refine .guard h fun henable => .guard h fun herase => ⟨rfl, by rw [h.1], ?_⟩
  rcases hsteady with harea | he | he | hother
  · exact coherent_of_invalid harea
  · exact absurd he henable
  · exact absurd he herase
  · -- the cached page is in another block
    refine ⟨fun hd => ?_, fun ho => ?_⟩
    · simp only [if_neg hother]
      exact h.2.data hd
    · simp only [if_neg hother]
      exact h.2.oob ho

theorem step_related (chip bare : Chip) (op : Op info)
    (h : Related info chip bare) (hsteady : Steady info ecc chip op) :
    Agree info (step info ecc (matchCache info) chip op)
      (step info ecc (neverMatch info) bare op) := by
  cases op with
  | read req codes =>
    rcases read_step ecc h hsteady with ⟨hreply, hnext⟩
    exact ⟨congrArg Reply.read hreply, hnext⟩
  | write req codes =>
    rcases write_step ecc h hsteady with ⟨hreply, hnext⟩
    exact ⟨congrArg Reply.code hreply, hnext⟩
  | erase req codes =>
    rcases erase_step ecc h hsteady with ⟨hreply, hnext⟩
    exact ⟨congrArg Reply.code hreply, hnext⟩

/-- Along a run of steady operations the driver gives the same replies as one that never finds a
    match. -/
theorem replies_eq_neverMatch (ecc : Nat → EccRegs) (flash : Nat → Mem) (ops : List (Op info))
    (h : Along (step info ecc (matchCache info)) (Steady info ecc) (Chip.start flash) ops) :
    replies (step info ecc (matchCache info)) (Chip.start flash) ops =
      replies (step info ecc (neverMatch info)) (Chip.start flash) ops :=
  replies_eq_of_simulates (step_related ecc) ops _ _ ⟨rfl, coherent_of_invalid rfl⟩ h

end

/-- A chip with 1024 blocks of 64 pages of 2 KiB. -/
def sampleInfo : PhyInfo where
  pageSize := 2048
  oobSize := 64
  pageCntPerBlk := 64
  blkCntPerDie := 1024
  eccType := .bit2Limit1Err2
  eccProtectedType := .size16Off4Len12
  hasExtEccStatus := false
  hasExtEccSE01 := false
  eccStatusShift := 4
  oobSize_ge := by decide

/-- A request for the first four bytes of a page. -/
def sampleRequest (block : Nat) (byte : UInt8) : Request sampleInfo where
  block := block
  page := 0
  pageoff := 0
  ooblen := 0
  datalen := 4
  databuf := some (List.replicate 4 byte)
  oobbuf := none
  raw := false
  inPage := by decide
  length_databuf := by
    intro b hb
    cases hb
    rfl
  length_oobbuf := by
    intro b hb
    cases hb

/-- All pages erased. -/
def freshFlash : Nat → Mem := fun _ _ => 0xff

/-- No page has a bit error. -/
def goodEcc : Nat → EccRegs := fun _ => ⟨0, 0, 0⟩

/-- A write that the chip completes. -/
def sampleWrite (block : Nat) (byte : UInt8) : Op sampleInfo :=
  .write (sampleRequest block byte) ⟨0, 0, 0, 0, false, fun _ => 0⟩

/-- An erase that the chip completes. -/
def sampleErase (block : Nat) : Op sampleInfo :=
  .erase (sampleRequest block 0) ⟨0, 0, 0, false, fun _ _ => 0⟩

/-- A read that the chip would answer without a fault. -/
def sampleRead (block : Nat) : Op sampleInfo := .read (sampleRequest block 0) ⟨0, 0, 0, 0⟩

/-- A page is written, its block is erased, and the page is read: the driver still delivers the
    bytes that were written. -/
theorem read_after_erase_stale :
    replies (step sampleInfo goodEcc (matchCache sampleInfo)) (Chip.start freshFlash)
        [sampleWrite 0 0xaa, sampleErase 0, sampleRead 0] =
      [.code 0, .code 0, .read ⟨0, some [0xaa, 0xaa, 0xaa, 0xaa], none⟩] ∧
    replies (step sampleInfo goodEcc (neverMatch sampleInfo)) (Chip.start freshFlash)
        [sampleWrite 0 0xaa, sampleErase 0, sampleRead 0] =
      [.code 0, .code 0, .read ⟨0, some [0xff, 0xff, 0xff, 0xff], none⟩] := by
  constructor <;> decide +kernel

/-- A page is written and read, and another block is erased. -/
theorem replies_write_read_erase :
    replies (step sampleInfo goodEcc (matchCache sampleInfo)) (Chip.start freshFlash)
        [sampleWrite 0 0xaa, sampleRead 0, sampleErase 1] =
      replies (step sampleInfo goodEcc (neverMatch sampleInfo)) (Chip.start freshFlash)
        [sampleWrite 0 0xaa, sampleRead 0, sampleErase 1] := by
  refine replies_eq_neverMatch goodEcc freshFlash _ ⟨?_, ?_, ?_, trivial⟩
  · exact ⟨fun _ _ => rfl, .inr (.inr ⟨rfl, rfl, rfl⟩)⟩
  · rw [sampleRead, Steady, if_pos (by decide +kernel)]
    exact ⟨rfl, rfl, rfl, by decide +kernel⟩
  · exact .inr (.inr (.inr (by decide +kernel)))

end Brandy.SpinandPhysic
