import Brandy.Core.Ufs

/-!
# Sectors and Blocks

A piece that does not start and end at the edge of a block is read, and written back, with all
blocks from the one of its first sector to the one *behind* its last sector, unless the last sector
is the first one of its block: `align_end` is rounded up although it is the number of the last
block. The block too many is written as it was read. But the last block of the device has no block
behind it, so a piece that ends inside of it, and not at its first sector, is refused.

## Main definitions

* `Fits`: A piece that is not refused.
* `Served`, `Emulates`: A request that is carried out, and sectors that behave like sectors.

## Theorems

* `bufferPhyread_cases`, `bufferPhywrite_cases`: One piece.
* `inPieces_ok`, `inPieces_invariant`: The pieces of a request.
* `emulates_iff`: The requests that are carried out.
-/

namespace Brandy.Ufs

open Buffer Option

/-- The device reads and writes its first `size` blocks, and no others. -/
def Device.Sized (d : Device) (size : Nat) : Prop :=
  ∀ b, (d.readable b = true ↔ b < size) ∧ (d.writable b = true ↔ b < size)

/-- The device with bytes of a buffer in a range of sectors. -/
def Device.put (d : Device) (start : Nat) (buffer : Buffer) (off nblock : Nat) : Device :=
  { d with byte := memcpy d.byte (512 * start) buffer off (512 * nblock) }

theorem forall_lt_iff {start cnt size : Nat} (hcnt : 0 < cnt) :
    (∀ i < cnt, start + i < size) ↔ start + cnt ≤ size := by
  constructor
  · intro h
    have hlast := h (cnt - 1) (by omega)
    omega
  · intro h i hi
    omega

theorem unaligned_iff {start n : Nat} :
    Unaligned start n ↔ ¬ (start % 8 = 0 ∧ n % 8 = 0) := by
  unfold Unaligned endSector blockAlignSector
  omega

section

variable {start n : Nat} (hstart : start < 2 ^ 32) (hn : 1 ≤ n) (hmax : n ≤ 2032)
include hstart hn hmax

theorem alignSize_of_lt (hlt : start + n + 6 < 2 ^ 32) :
    alignSize start n = (start + n + 6) / 8 - start / 8 + 1 ∧
      alignSize start n * blockAlignSector * 512 ≤ maxAlignBufSizeByte ∧
      start % 8 + n ≤ 8 * alignSize start n := by
  unfold alignSize alignEnd endSector alignStart blockAlignSector maxAlignBufSizeByte
  omega

/-- The range of blocks when the end wraps around. It does not fit the buffer. -/
theorem alignSize_of_le (hle : 2 ^ 32 ≤ start + n + 6) :
    maxAlignBufSizeByte < alignSize start n * blockAlignSector * 512 := by
  unfold alignSize alignEnd endSector alignStart blockAlignSector maxAlignBufSizeByte
  omega

theorem alignSize_ne_zero : 0 ≠ alignSize start n := by
  unfold alignSize alignEnd endSector alignStart blockAlignSector
  omega

end

/-- The number of blocks that a piece is read from. -/
def blockCnt (start n : Nat) : Nat := if Unaligned start n then alignSize start n else n / 8

/-- All blocks of a piece are in order, and their numbers do not wrap around. -/
def Reaches (ok : Nat → Bool) (start n : Nat) : Prop :=
  (Unaligned start n → start + n + 6 < 2 ^ 32) ∧ ∀ i < blockCnt start n, ok (start / 8 + i) = true

instance (ok : Nat → Bool) (start n : Nat) : Decidable (Reaches ok start n) :=
  inferInstanceAs (Decidable (_ ∧ _))

section

variable {d : Device} {start n : Nat} (hstart : start < 2 ^ 32) (hn : 1 ≤ n) (hmax : n ≤ 2032)
include hstart hn hmax

theorem readAlignBuf_cases (hun : Unaligned start n) :
    (Reaches d.readable start n ∧ readAlignBuf d start n = some (alignSize start n,
        memcpy (fun _ => 0) 0 d.byte (4096 * alignStart start) (4096 * alignSize start n))) ∨
      (¬ Reaches d.readable start n ∧
        ((readAlignBuf d start n = none ∧ ¬ start + n + 6 < 2 ^ 32) ∨
          ∃ m, readAlignBuf d start n = some (0, m))) := by
  unfold Reaches blockCnt
  rw [if_pos hun]
  unfold readAlignBuf
  by_cases hlt : start + n + 6 < 2 ^ 32
  · obtain ⟨-, hfit, -⟩ := alignSize_of_lt hstart hn hmax hlt
    rw [if_neg (by omega), if_neg (by omega)]
    by_cases hok : ∀ i < alignSize start n, d.readable (alignStart start + i) = true
    · exact .inl ⟨⟨fun _ => hlt, hok⟩, by rw [globalRead, if_pos hok]⟩
    · exact .inr ⟨fun h => hok h.2, .inr ⟨_, by rw [globalRead, if_neg hok]⟩⟩
  · have hbig := alignSize_of_le hstart hn hmax (by omega)
    refine .inr ⟨fun h => hlt (h.1 hun), ?_⟩
    split
    · exact .inr ⟨_, rfl⟩
    · exact .inl ⟨rfl, hlt⟩

theorem bufferPhyread_cases (off : Nat) (buffer : Buffer) :
    (Reaches d.readable start n ∧ bufferPhyread d start n off buffer =
        some (n, memcpy buffer off d.byte (512 * start) (512 * n))) ∨
      (¬ Reaches d.readable start n ∧
        ((bufferPhyread d start n off buffer = none ∧ Unaligned start n ∧
            ¬ start + n + 6 < 2 ^ 32) ∨
          bufferPhyread d start n off buffer = some (0, buffer))) := by
  unfold bufferPhyread
  by_cases hun : Unaligned start n
  · rw [if_pos hun]
    rcases readAlignBuf_cases (d := d) hstart hn hmax hun with
      ⟨hok, hread⟩ | ⟨hno, ⟨hread, hwrap⟩ | ⟨m, hread⟩⟩
    · obtain ⟨-, -, hwindow⟩ := alignSize_of_lt hstart hn hmax (hok.1 hun)
      refine .inl ⟨hok, ?_⟩
      rw [hread, map_some]
      simp only [if_true]
      rw [memcpy_of_window _ _ _ _ (by unfold blockAlignSector; omega)]
      simp only [alignStart, blockAlignSector]
      rw [show 4096 * (start / 8) + start % 8 * 512 = 512 * start by omega, mul_comm n]
    · refine .inr ⟨hno, .inl ⟨?_, hun, hwrap⟩⟩
      rw [hread, map_none]
    · refine .inr ⟨hno, .inr ?_⟩
      rw [hread, map_some]
      exact congrArg some (if_neg (alignSize_ne_zero hstart hn hmax))
  · rw [if_neg hun]
    unfold Reaches blockCnt
    rw [if_neg hun]
    rw [unaligned_iff, not_not] at hun
    simp only [blockAlignSector]
    by_cases hok : ∀ i < n / 8, d.readable (start / 8 + i) = true
    · refine .inl ⟨⟨fun h => absurd hun (unaligned_iff.mp h), hok⟩, ?_⟩
      rw [globalRead, if_pos hok]
      rw [show n / 8 * 8 = n by omega, show 4096 * (start / 8) = 512 * start by omega,
        show 4096 * (n / 8) = 512 * n by omega]
    · refine .inr ⟨fun h => hok h.2, .inr ?_⟩
      rw [globalRead, if_neg hok, zero_mul]

theorem bufferPhywrite_cases (off : Nat) (buffer : Buffer) :
    (Reaches d.writable start n ∧ (Unaligned start n → Reaches d.readable start n) ∧
        bufferPhywrite buffer start n off d = some (n, d.put start buffer off n)) ∨
      (¬ (Reaches d.writable start n ∧ (Unaligned start n → Reaches d.readable start n)) ∧
        (bufferPhywrite buffer start n off d = none ∨
          bufferPhywrite buffer start n off d = some (0, d))) := by
  unfold bufferPhywrite
  by_cases hun : Unaligned start n
  · rw [if_pos hun]
    rcases readAlignBuf_cases (d := d) hstart hn hmax hun with
      ⟨hok, hread⟩ | ⟨hno, ⟨hread, -⟩ | ⟨m, hread⟩⟩
    · have hlt := hok.1 hun
      obtain ⟨-, -, hwindow⟩ := alignSize_of_lt hstart hn hmax hlt
      rw [hread, map_some]
      have hcnt : blockCnt start n = alignSize start n := if_pos hun
      by_cases hwrite : ∀ i < alignSize start n, d.writable (alignStart start + i) = true
      · refine .inl ⟨⟨fun _ => hlt, by rwa [hcnt]⟩, fun _ => hok, ?_⟩
        refine congrArg some ((if_pos rfl).trans ?_)
        rw [writeAlignBuf, globalWrite, if_pos hwrite]
        refine (if_pos rfl).trans ?_
        -- the block too many is written as it was read
        rw [memcpy_window _ _ _ (by unfold blockAlignSector; omega), Device.put, alignStart,
          blockAlignSector, show 4096 * (start / 8) + start % 8 * 512 = 512 * start by omega,
          mul_comm n]
      · refine .inr ⟨fun h => hwrite (hcnt ▸ h.1.2), .inr (congrArg some ((if_pos rfl).trans ?_))⟩
        rw [writeAlignBuf, globalWrite, if_neg hwrite]
        exact if_neg (alignSize_ne_zero hstart hn hmax)
    · refine .inr ⟨fun h => hno (h.2 hun), .inl ?_⟩
      rw [hread, map_none]
    · refine .inr ⟨fun h => hno (h.2 hun), .inr ?_⟩
      rw [hread, map_some]
      exact congrArg some (if_neg (alignSize_ne_zero hstart hn hmax))
  · have hcnt : blockCnt start n = n / 8 := if_neg hun
    rw [if_neg hun]
    simp only [blockAlignSector]
    by_cases hok : ∀ i < n / 8, d.writable (start / 8 + i) = true
    · refine .inl ⟨⟨fun h => absurd h hun, by rwa [hcnt]⟩, fun h => absurd h hun, ?_⟩
      rw [unaligned_iff, not_not] at hun
      rw [globalWrite, if_pos hok]
      simp only [Device.put]
      rw [show n / 8 * 8 = n by omega, show 4096 * (start / 8) = 512 * start by omega,
        show 4096 * (n / 8) = 512 * n by omega]
    · refine .inr ⟨fun h => hok (hcnt ▸ h.1.2), .inr ?_⟩
      rw [globalWrite, if_neg hok, zero_mul]

end

/-- A piece that a device does not refuse: whole blocks of it, or sectors in front of the last seven
    with numbers that do not wrap around. -/
def Fits (size start n : Nat) : Prop :=
  (start % 8 = 0 ∧ n % 8 = 0 ∧ start + n ≤ 8 * size) ∨
    (start + n + 7 ≤ 8 * size ∧ start + n + 6 < 2 ^ 32)

instance (size start n : Nat) : Decidable (Fits size start n) := inferInstanceAs (Decidable (_ ∨ _))

section

variable {d : Device} {size : Nat} (hd : d.Sized size) {start n : Nat} (hstart : start < 2 ^ 32)
  (hn : 1 ≤ n) (hmax : n ≤ 2032)
include hstart hn hmax

theorem reaches_iff {ok : Nat → Bool} (hok : ∀ b, ok b = true ↔ b < size) :
    Reaches ok start n ↔ Fits size start n := by
  unfold Reaches blockCnt Fits
  simp only [hok]
  by_cases hun : Unaligned start n
  · rw [if_pos hun]
    have hnot := unaligned_iff.mp hun
    constructor
    · intro ⟨hwrap, hall⟩
      have hlt := hwrap hun
      have hsize := (alignSize_of_lt hstart hn hmax hlt).1
      have hlast := (forall_lt_iff (by omega)).mp hall
      omega
    · intro h
      have hlt : start + n + 6 < 2 ^ 32 := by omega
      have hsize := (alignSize_of_lt hstart hn hmax hlt).1
      exact ⟨fun _ => hlt, (forall_lt_iff (by omega)).mpr (by omega)⟩
  · rw [if_neg hun]
    have hwhole := not_not.mp (mt unaligned_iff.mpr hun)
    constructor
    · intro h
      have hlast := (forall_lt_iff (by omega)).mp h.2
      omega
    · intro h
      exact ⟨fun h => absurd h hun, (forall_lt_iff (by omega)).mpr (by omega)⟩

include hd

theorem bufferPhywrite_sized (off : Nat) (buffer : Buffer) :
    (Fits size start n ∧
        bufferPhywrite buffer start n off d = some (n, d.put start buffer off n)) ∨
      (¬ Fits size start n ∧ (bufferPhywrite buffer start n off d = none ∨
        bufferPhywrite buffer start n off d = some (0, d))) := by
  have hread := reaches_iff hstart hn hmax (fun b => (hd b).1)
  have hwrite := reaches_iff hstart hn hmax (fun b => (hd b).2)
  have h := bufferPhywrite_cases (d := d) hstart hn hmax off buffer
  rw [hread, hwrite] at h
  rcases h with ⟨hfits, -, hput⟩ | ⟨hno, hret⟩
  · exact .inl ⟨hfits, hput⟩
  · exact .inr ⟨fun hfits => hno ⟨hfits, fun _ => hfits⟩, hret⟩

end

theorem maxBufLenSector_eq : maxBufLenSector = 2032 := by decide

theorem maxBufLenByte_eq : maxBufLenByte = 1040384 := by decide

theorem fullCnt_eq {nblock : Nat} (hn : nblock < 2 ^ 23) : fullCnt nblock = nblock / 2032 := by
  have hmod : nblock * 512 % 2 ^ 32 = nblock * 512 := by omega
  calc fullCnt nblock = nblock * 512 % 2 ^ 32 / (maxBufLenSector * 512) := rfl
    _ = nblock * 512 / (2032 * 512) := by rw [hmod, maxBufLenSector_eq]
    _ = nblock / 2032 := Nat.mul_div_mul_right _ _ (by decide)

/-- The number of sectors of piece `i` of a request. -/
def pieceLen (nblock i : Nat) : Nat := min 2032 (nblock - i * 2032)

/-- The number of pieces. -/
def pieceCnt (nblock : Nat) : Nat := (nblock + 2031) / 2032

theorem pieceLen_full {nblock i : Nat} (hi : i < nblock / 2032) : pieceLen nblock i = 2032 := by
  unfold pieceLen
  omega

theorem pieceLen_rest (nblock : Nat) : pieceLen nblock (nblock / 2032) = nblock % 2032 := by
  unfold pieceLen
  omega

/-- The number of sectors in front of piece `i`. -/
def sectorsDone (n i : Nat) : Nat := min n (i * 2032)

theorem sectorsDone_succ (n i : Nat) : sectorsDone n (i + 1) = sectorsDone n i + pieceLen n i := by
  unfold sectorsDone pieceLen
  omega

theorem sectorsDone_pieceCnt (n : Nat) : sectorsDone n (pieceCnt n) = n := by
  unfold sectorsDone pieceCnt
  omega

theorem sectorsDone_of_lt {n i : Nat} (hi : i < pieceCnt n) : sectorsDone n i = i * 2032 := by
  unfold pieceCnt at hi
  unfold sectorsDone
  omega

theorem pieceLen_bounds {n i : Nat} (hi : i < pieceCnt n) :
    1 ≤ pieceLen n i ∧ pieceLen n i ≤ 2032 := by
  unfold pieceCnt at hi
  unfold pieceLen
  omega

section

variable {α : Type} (piece : Nat → Nat → Nat → α → Option (Nat × α))

/-- Piece `i` of a request. -/
def onePiece (start nblock i : Nat) (a : α) : Option (Nat × α) :=
  piece ((start + i * 2032) % 2 ^ 32) (pieceLen nblock i) (512 * (i * 2032)) a

variable (start : Nat) {nblock : Nat} (hlt : nblock < 2 ^ 23)
include hlt

theorem fullPieces_succ {left i : Nat} (hi : i < nblock / 2032) (a : α) :
    fullPieces piece start (left + 1) i a =
      match onePiece piece start nblock i a with
      | none => none
      | some (ret, a) =>
        if ret ≠ 2032 then some (.error (ret, a)) else fullPieces piece start left (i + 1) a := by
  have hoff : i * maxBufLenByte % 2 ^ 32 = 512 * (i * 2032) := by
    rw [maxBufLenByte_eq]
    omega
  rewrite [fullPieces, onePiece, pieceLen_full hi, hoff, maxBufLenSector_eq]
  rfl

theorem inPieces_eq (a : α) :
    inPieces piece start nblock a =
      match fullPieces piece start (nblock / 2032) 0 a with
      | none => none
      | some (.error r) => some r
      | some (.ok a) =>
        if nblock % 2032 ≠ 0 then
          match onePiece piece start nblock (nblock / 2032) a with
          | none => none
          | some (ret, a) => if ret ≠ nblock % 2032 then some (ret, a) else some (nblock, a)
        else some (nblock, a) := by
  have hoff : nblock / 2032 * maxBufLenByte % 2 ^ 32 = 512 * (nblock / 2032 * 2032) := by
    rw [maxBufLenByte_eq]
    omega
  simp only [onePiece, pieceLen_rest]
  rewrite [inPieces, fullCnt_eq hlt, hoff, maxBufLenSector_eq]
  rfl

theorem inPieces_ok (stateAt : Nat → α)
    (h : ∀ i < pieceCnt nblock,
      onePiece piece start nblock i (stateAt i) = some (pieceLen nblock i, stateAt (i + 1))) :
    inPieces piece start nblock (stateAt 0) = some (nblock, stateAt (pieceCnt nblock)) := by
  unfold pieceCnt at h ⊢
  have hfull : ∀ left i, i + left = nblock / 2032 →
      fullPieces piece start left i (stateAt i) = some (.ok (stateAt (nblock / 2032))) := by
    intro left
    induction left with
    | zero =>
      intro i hi
      rw [← hi]
      rfl
    | succ left ih =>
      intro i hi
      rw [fullPieces_succ piece start hlt (by omega), h i (by omega), pieceLen_full (by omega)]
      exact (if_neg (not_not.mpr rfl)).trans (ih (i + 1) (by omega))
  simp only [inPieces_eq piece start hlt, hfull _ 0 (zero_add _)]
  split
  · rw [h _ (by omega), pieceLen_rest, show (nblock + 2031) / 2032 = nblock / 2032 + 1 by omega]
    exact if_neg (not_not.mpr rfl)
  · rw [show (nblock + 2031) / 2032 = nblock / 2032 by omega]

theorem inPieces_invariant (P : Nat → α → Prop)
    (hstep : ∀ i < pieceCnt nblock, ∀ a r, P i a → onePiece piece start nblock i a = some r →
      (r.1 = pieceLen nblock i ∧ P (i + 1) r.2) ∨ r.1 = 0)
    {a a' : α} (ha : P 0 a) (hpos : 1 ≤ nblock)
    (h : inPieces piece start nblock a = some (nblock, a')) : P (pieceCnt nblock) a' := by
  unfold pieceCnt at hstep ⊢
  have hfull : ∀ left i a r, i + left = nblock / 2032 → P i a →
      fullPieces piece start left i a = some r →
      (∃ b, r = .ok b ∧ P (nblock / 2032) b) ∨ ∃ b, r = .error (0, b) := by
    intro left
    induction left with
    | zero =>
      intro i a r hi ha hr
      cases hr
      rw [← hi]
      exact .inl ⟨a, rfl, ha⟩
    | succ left ih =>
      intro i a r hi ha hr
      rw [fullPieces_succ piece start hlt (by omega)] at hr
      rcases hone : onePiece piece start nblock i a with - | ⟨ret, b⟩
      all_goals simp only [hone, reduceCtorEq] at hr
      rcases hstep i (by omega) a _ ha hone with ⟨hret, hP⟩ | hret
      · rw [pieceLen_full (by omega)] at hret
        rw [if_neg (not_not.mpr hret)] at hr
        exact ih (i + 1) b r (by omega) hP hr
      · rw [if_pos (by omega), some.injEq] at hr
        exact .inr ⟨b, by rw [← hr, ← hret]⟩
  rw [inPieces_eq piece start hlt] at h
  rcases hall : fullPieces piece start (nblock / 2032) 0 a with - | r
  all_goals simp only [hall, reduceCtorEq] at h
  rcases hfull _ 0 a r (zero_add _) ha hall with ⟨b, rfl, hb⟩ | ⟨b, rfl⟩
  · simp only at h
    split at h
    · rw [show (nblock + 2031) / 2032 = nblock / 2032 + 1 by omega]
      rcases hone : onePiece piece start nblock (nblock / 2032) b with - | ⟨ret, c⟩
      all_goals simp only [hone, reduceCtorEq] at h
      rcases hstep _ (by omega) b _ hb hone with ⟨hret, hP⟩ | hret
      · rw [if_neg (not_not.mpr (hret.trans (pieceLen_rest _)))] at h
        cases h
        exact hP
      · rw [if_pos (by omega)] at h
        cases h
        omega
    · rw [show (nblock + 2031) / 2032 = nblock / 2032 by omega]
      cases h
      exact hb
  · cases h
    omega

/-- A piece that copies bytes goes on where the one before has ended. -/
theorem inPieces_copied (state : Buffer → α) (m : Buffer) (dst : Nat) (b : Buffer) (src : Nat)
    (h : ∀ i < pieceCnt nblock, ∀ m, onePiece piece start nblock i (state m) =
      some (pieceLen nblock i, state (memcpy m (dst + 512 * (i * 2032)) b
        (src + 512 * (i * 2032)) (512 * pieceLen nblock i)))) :
    inPieces piece start nblock (state m) =
      some (nblock, state (memcpy m dst b src (512 * nblock))) := by
  have hpieces := inPieces_ok piece start hlt
    (fun i => state (memcpy m dst b src (512 * sectorsDone nblock i))) fun i hi => by
      rw [h i hi, sectorsDone_succ, sectorsDone_of_lt hi, mul_add, memcpy_append]
  rwa [sectorsDone_pieceCnt, sectorsDone, zero_mul, Nat.min_zero, mul_zero, memcpy_zero]
    at hpieces

end

/-- The sectors of a range are read and written as such on every device of a size. -/
structure Emulates (size s n : Nat) : Prop where
  write : ∀ d : Device, d.Sized size → ∀ buf, phywrite d s n buf = some (n, d.put s buf 0 n)
  read : ∀ d : Device, d.Sized size → ∀ out,
    phyread d s n out = some (n, memcpy out 0 d.byte (512 * s) (512 * n))

/-- A request that is carried out: whole blocks in pieces whose starts do not wrap around, or
    sectors in front of the last seven of the device and of the last seven numbers. -/
def Served (size s n : Nat) : Prop :=
  (s % 8 = 0 ∧ n % 8 = 0 ∧ s + (n - 1) / 2032 * 2032 < 2 ^ 32) ∨
    (s + n + 7 ≤ 8 * size ∧ s + n + 6 < 2 ^ 32)

instance (size s n : Nat) : Decidable (Served size s n) := inferInstanceAs (Decidable (_ ∨ _))

section

variable {size s n : Nat} (hlt : n < 2 ^ 23) (hsize : s + n ≤ 8 * size)
include hsize

theorem Served.piece (h : Served size s n) {i : Nat} (hi : i < pieceCnt n) :
    s + i * 2032 < 2 ^ 32 ∧ Fits size (s + i * 2032) (pieceLen n i) := by
  unfold pieceCnt at hi
  unfold Served at h
  unfold Fits pieceLen
  omega

include hlt

theorem phywrite_served (h : Served size s n) {d : Device} (hd : d.Sized size) (buf : Buffer) :
    phywrite d s n buf = some (n, d.put s buf 0 n) := by
  refine inPieces_copied _ s hlt (fun byte => { d with byte := byte }) _ _ _ _ fun i hi byte => ?_
  obtain ⟨hstart, hfits⟩ := h.piece hsize hi
  obtain ⟨hpos, hmax⟩ := pieceLen_bounds hi
  have hsized : ({ d with byte := byte } : Device).Sized size := hd
  rw [onePiece, Nat.mod_eq_of_lt hstart, ← mul_add, zero_add]
  exact ((bufferPhywrite_sized hsized hstart hpos hmax _ buf).resolve_right fun hno =>
    hno.1 hfits).2

theorem phyread_served (h : Served size s n) {d : Device} (hd : d.Sized size) (out : Buffer) :
    phyread d s n out = some (n, memcpy out 0 d.byte (512 * s) (512 * n)) := by
  refine inPieces_copied _ s hlt id _ _ _ _ fun i hi m => ?_
  obtain ⟨hstart, hfits⟩ := h.piece hsize hi
  obtain ⟨hpos, hmax⟩ := pieceLen_bounds hi
  rw [onePiece, Nat.mod_eq_of_lt hstart, ← mul_add, zero_add]
  rw [← reaches_iff hstart hpos hmax fun b => (hd b).1] at hfits
  exact ((bufferPhyread_cases hstart hpos hmax _ m).resolve_right fun hno => hno.1 hfits).2

end

/-- A blank device. -/
def blank (size : Nat) : Device where
  byte := fun _ => 0
  readable := fun b => decide (b < size)
  writable := fun b => decide (b < size)

theorem blank_sized {size : Nat} : (blank size).Sized size :=
  fun _ => ⟨decide_eq_true_iff, decide_eq_true_iff⟩

section

variable {size s n : Nat} (hn : 1 ≤ n) (hlt : n < 2 ^ 23)
include hn hlt

/-- What every piece keeps holds after a write that has been carried out, and the device has refused
    no piece. -/
theorem phywrite_invariant {d d' : Device} (hd : d.Sized size) {buf : Buffer}
    (P : Nat → Buffer → Prop) (hP : P 0 d.byte)
    (hstep : ∀ i < pieceCnt n, ∀ byte, P i byte →
      P (i + 1) (memcpy byte (512 * ((s + i * 2032) % 2 ^ 32)) buf (512 * (i * 2032))
        (512 * pieceLen n i)))
    (h : phywrite d s n buf = some (n, d')) :
    P (pieceCnt n) d'.byte ∧
      ∀ i < pieceCnt n, Fits size ((s + i * 2032) % 2 ^ 32) (pieceLen n i) := by
  have hinv := inPieces_invariant (bufferPhywrite buf) s hlt
    (fun i d' => d'.Sized size ∧ P i d'.byte ∧
      ∀ j < i, Fits size ((s + j * 2032) % 2 ^ 32) (pieceLen n j))
    (fun i hi a r ha hone => by
      obtain ⟨hsized, hPi, hfits⟩ := ha
      obtain ⟨hpos, hmax⟩ := pieceLen_bounds hi
      rw [onePiece] at hone
      rcases bufferPhywrite_sized hsized (Nat.mod_lt _ (by decide)) hpos hmax (512 * (i * 2032)) buf
        with ⟨hfit, hput⟩ | ⟨-, hnone | hzero⟩
      · rw [hput] at hone
        obtain rfl := some.inj hone
        refine .inl ⟨rfl, hsized, hstep i hi _ hPi, fun j hj => ?_⟩
        rcases Nat.lt_succ_iff_lt_or_eq.mp hj with hj | rfl
        · exact hfits j hj
        · exact hfit
      · rw [hnone] at hone
        cases hone
      · rw [hzero] at hone
        obtain rfl := some.inj hone
        exact .inr rfl)
    ⟨hd, hP, fun j hj => by omega⟩ hn h
  exact hinv.2

/-- A request of whole blocks whose pieces start behind the last number: the first of these goes to
    the front of the device. -/
theorem phywrite_wrapped (hs : s < 2 ^ 32)
    (hwrap : 2 ^ 32 ≤ s + (n - 1) / 2032 * 2032) {d' : Device}
    (h : phywrite (blank size) s n (fun _ => 1) = some (n, d')) :
    ∃ x < 512 * s, d'.byte x ≠ 0 := by
  -- the first piece behind the last number
  obtain ⟨j, hj, hle, hfirst⟩ : ∃ j < pieceCnt n, 2 ^ 32 ≤ s + j * 2032 ∧
      s + j * 2032 < 2 ^ 32 + 2032 := by
    have hcnt : pieceCnt n = (n - 1) / 2032 + 1 := by
      unfold pieceCnt
      omega
    obtain ⟨t, ht⟩ := Nat.exists_eq_add_of_le hs.le
    rw [ht] at hwrap ⊢
    exact ⟨(t + 2031) / 2032, by omega, Nat.add_le_add_left (by omega) s, by omega⟩
  have hinv := (phywrite_invariant hn hlt blank_sized
    (fun i byte => j < i → byte (512 * (s + j * 2032 - 2 ^ 32)) = 1) (fun hj => by omega)
    (fun i hi byte hP hlt' => by
      obtain ⟨hpos, -⟩ := pieceLen_bounds hi
      have hmod : (s + i * 2032) % 2 ^ 32 = s + i * 2032 - 2 ^ 32 := by
        unfold pieceCnt at hi
        omega
      rw [hmod]
      by_cases heq : i = j
      · subst heq
        rw [memcpy_of_mem]
      · rw [memcpy_of_lt (by omega)]
        exact hP (by omega))
    h).1 hj
  refine ⟨512 * (s + j * 2032 - 2 ^ 32), by unfold pieceCnt at hj; omega, ?_⟩
  rw [hinv]
  decide

end

/-- The requests that are carried out, among all that lie inside of the device. -/
theorem emulates_iff {size s n : Nat} (hs : s < 2 ^ 32) (hn : 1 ≤ n) (hlt : n < 2 ^ 23)
    (hsize : s + n ≤ 8 * size) : Emulates size s n ↔ Served size s n := by
  refine ⟨fun h => ?_, fun h => ⟨fun d hd => phywrite_served hlt hsize h hd,
    fun d hd => phyread_served hlt hsize h hd⟩⟩
  by_contra hno
  have hwrite := h.write (blank size) blank_sized fun _ => 1
  have hfits := (phywrite_invariant hn hlt blank_sized (fun _ _ => True) trivial
    (fun _ _ _ _ => trivial) hwrite).2
  by_cases hwrap : 2 ^ 32 ≤ s + (n - 1) / 2032 * 2032
  · obtain ⟨x, hx, hne⟩ := phywrite_wrapped hn hlt hs hwrap hwrite
    have hkept : memcpy (blank size).byte (512 * s) (fun _ => 1) 0 (512 * n) x = 0 :=
      memcpy_of_lt hx
    exact hne hkept
  -- the last piece does not fit
  have hlast := hfits ((n - 1) / 2032) (by unfold pieceCnt; omega)
  rw [Nat.mod_eq_of_lt (by omega)] at hlast
  unfold Served at hno
  unfold Fits pieceLen at hlast
  omega

/-- 3000 sectors from the middle of a block on, on a device of 1000 blocks. -/
theorem emulates_middle : Served 1000 13 3000 ∧ Emulates 1000 13 3000 :=
  ⟨by decide, (emulates_iff (by decide) (by decide) (by decide) (by decide)).mpr (by decide)⟩

/-- The last sector of a device of 16 blocks can be neither written nor read. -/
theorem last_sector_refused :
    127 + 1 ≤ 8 * 16 ∧ (blank 16).Sized 16 ∧
      (phywrite (blank 16) 127 1 fun _ => 1).map Prod.fst = some 0 ∧
      (phyread (blank 16) 127 1 fun _ => 1).map Prod.fst = some 0 :=
  ⟨by decide, blank_sized, by decide +kernel, by decide +kernel⟩

end Brandy.Ufs
