import Brandy.Core.Sparse

/-!
# The Sectors a Sparse Image Asks For

The decoder writes where the chunk headers of the image tell it to. No image is ruled out: a header
may be of an unknown type, give a length that does not fit, or announce more data than there is.
When all writes succeed the decoder writes exactly the sectors that are asked for. When one fails it
has written the ranges in front of it.

## Main definitions

* `requests`: The ranges of sectors that the headers ask for.
* `Did`: The ranges of a list were written, up to the first write that failed.

## Theorems

* `unsparseLoop_did`: The loop, by induction over the chunks, with two turns for a chunk that has
  data.
* `unsparseDirectWrite_did`: A call.
-/

namespace Brandy.Sparse

open Memory Word List

/-- A range of sectors. -/
structure Request where
  start : Nat
  sectors : Nat
  deriving DecidableEq

/-- The sector is in the range. -/
def Request.Covers (r : Request) (x : Nat) : Prop := r.start ≤ x ∧ x < r.start + r.sectors

/-- The writes of a fill chunk. -/
def fillRequests : Nat → Nat → List Request
  | 0, _ => []
  | count + 1, start => ⟨start, 8⟩ :: fillRequests count (u32 (start + 8))

/-- The cursor behind a fill chunk. -/
def fillCursor : Nat → Nat → Nat
  | 0, start => start
  | count + 1, start => fillCursor count (u32 (start + 8))

/-- How many bytes of a data chunk are missing, as the decoder computes it. -/
def missing (rest : Int) (chunkLength : Nat) : Int :=
  if rest ≤ chunkLength then s32 (chunkLength - rest) else 0

/-- What a data chunk with `rest` bytes behind its header asks for, and, with a next chunk, the
    bytes to skip and the cursor. -/
def dataRequests (rest : Int) (chunkLength cursor : Nat) : List Request × Option (Nat × Nat) :=
  if rest ≤ 0 then ([], none)
  else if missing rest chunkLength = 0 then
    ([⟨cursor, chunkLength / 512⟩],
      if chunkLength % 512 = 0 then
        some (chunkLength, u32 (cursor + (chunkLength / 512 : Nat)))
      else none)
  else if rest < 8 * 1024 then ([], none)
  else ([⟨cursor, u32 (tmpDownSize rest (missing rest chunkLength) / 512)⟩], none)

/-- The same for a fill chunk. -/
def fillChunkRequests (rest : Int) (chunkLength cursor : Nat) : List Request × Option (Nat × Nat) :=
  if rest < 4 ∨ chunkLength % 512 ≠ 0 then ([], none)
  else (fillRequests (chunkLength / 4096) cursor, some (4, fillCursor (chunkLength / 4096) cursor))

/-- What one chunk asks for. -/
def chunkRequests (rest : Int) (chunkType totalSz chunkLength cursor : Nat) :
    List Request × Option (Nat × Nat) :=
  if chunkLength = 0 then ([], some (0, cursor))
  else if chunkType = chunkTypeRaw then
    if totalSz ≠ u32 (chunkLength + chunkHeaderSize) then ([], none)
    else dataRequests rest chunkLength cursor
  else if chunkType = chunkTypeFill then
    if totalSz ≠ chunkHeaderSize + 4 then ([], none) else fillChunkRequests rest chunkLength cursor
  else if chunkType = chunkTypeDontCare then
    if totalSz ≠ chunkHeaderSize then ([], none)
    else ([], some (0, u32 (cursor + (chunkLength / 512 : Nat))))
  else ([], none)

/-- What the chunks from `buf` on ask for, when `rest` bytes are left. -/
def requests (m : Mem) (blkSz : Nat) : Nat → Int → Int → Nat → List Request
  | 0, _, _, _ => []
  | fuel + 1, buf, rest, cursor =>
    if rest < chunkHeaderSize then []
    else
      let c := chunkRequests (rest - chunkHeaderSize) (wordAt m buf 2) (wordAt m (buf + 8) 4)
        (u32 (wordAt m (buf + 4) 4 * blkSz)) cursor
      c.1 ++ match c.2 with
        | none => []
        | some next =>
          requests m blkSz fuel (buf + chunkHeaderSize + next.1)
            (rest - chunkHeaderSize - next.1) next.2

/-- What an image of `length` bytes at `buf` asks for, when it is for the sectors from `start`
    on. -/
def imageRequests (m : Mem) (buf : Int) (length start : Nat) : List Request :=
  if 0 < s32 length then
    requests m (wordAt m (buf + 12) 4) (s32 length).toNat (buf + sparseHeaderSize)
      (s32 length - sparseHeaderSize) start
  else []

/-- Exactly the sectors of the ranges were written. -/
def Touches (f f' : SpriteFlash) (reqs : List Request) : Prop :=
  ∀ x, f'.touched x = true ↔ f.touched x = true ∨ ∃ r ∈ reqs, r.Covers x

/-- The ranges of a list were written, up to the first write that failed. -/
def Did (ok : Nat → Bool) (f f' : SpriteFlash) (reqs : List Request) : Prop :=
  ∃ done, done <+: reqs ∧ Touches f f' done ∧ ((∀ i, ok i = true) → done = reqs)

section

variable {ok : Nat → Bool} {f f' f'' : SpriteFlash} {reqs reqs' : List Request}

theorem Touches.nil (f : SpriteFlash) : Touches f f [] := by
  intro x
  simp only [not_mem_nil, false_and, exists_false, or_false]

theorem Touches.append (h : Touches f f' reqs) (h' : Touches f' f'' reqs') :
    Touches f f'' (reqs ++ reqs') := by
  intro x
  rw [h' x, h x, or_assoc]
  refine or_congr_right ⟨?_, ?_⟩
  · rintro (⟨r, hr, hx⟩ | ⟨r, hr, hx⟩)
    · exact ⟨r, mem_append_left _ hr, hx⟩
    · exact ⟨r, mem_append_right _ hr, hx⟩
  · rintro ⟨r, hr, hx⟩
    rcases mem_append.mp hr with hr | hr
    · exact .inl ⟨r, hr, hx⟩
    · exact .inr ⟨r, hr, hx⟩

theorem touches_put (f : SpriteFlash) (start n : Nat) (src : Nat → UInt8) :
    Touches f (f.put start n src) [⟨start, n⟩] := by
  intro x
  simp only [SpriteFlash.put, mem_singleton, exists_eq_left, Request.Covers]
  by_cases h : start ≤ x ∧ x < start + n
  · rw [if_pos h]
    exact iff_of_true rfl (.inr h)
  · rw [if_neg h]
    exact ⟨.inl, fun h' => h'.resolve_right h⟩

theorem Did.nil (f : SpriteFlash) : Did ok f f [] :=
  ⟨[], prefix_rfl, Touches.nil f, fun _ => rfl⟩

theorem Did.of_touches (h : Touches f f' reqs) : Did ok f f' reqs :=
  ⟨reqs, prefix_rfl, h, fun _ => rfl⟩

theorem Did.append (h : Touches f f' reqs) (h' : Did ok f' f'' reqs') :
    Did ok f f'' (reqs ++ reqs') := by
  rcases h' with ⟨done, hdone, htouch, hall⟩
  refine ⟨reqs ++ done, (prefix_append_right_inj reqs).mpr hdone, h.append htouch, fun hok => ?_⟩
  rw [hall hok]

theorem Did.stop {i : Nat} (hfail : ¬ ok i = true) {done : List Request} (hdone : done <+: reqs)
    (h : Touches f f' done) : Did ok f f' reqs :=
  ⟨done, hdone, h, fun hok => absurd (hok i) hfail⟩

end

section

variable {ok : Nat → Bool} {pbuf : Int}

theorem unsparseLoop_end {l : Loop} (h : ¬ 0 < l.thisRestSize) {fuel : Nat} :
    (unsparseLoop ok pbuf (fuel + 1) l).2 = l.world := by
  rw [unsparseLoop, if_neg h]

section

variable {l : Loop} (h : 0 < l.thisRestSize) {fuel : Nat}
include h

theorem unsparseLoop_go {l' : Loop} (hturn : unsparseTurn ok pbuf l = .go l') :
    unsparseLoop ok pbuf (fuel + 1) l = unsparseLoop ok pbuf fuel l' := by
  rw [unsparseLoop, if_pos h, hturn]

theorem unsparseLoop_fail {w : World} (hturn : unsparseTurn ok pbuf l = .fail w) :
    (unsparseLoop ok pbuf (fuel + 1) l).2 = w := by
  rw [unsparseLoop, if_pos h, hturn]

theorem unsparseLoop_park {l' : Loop} (hturn : unsparseTurn ok pbuf l = .go (park pbuf l')) :
    (unsparseLoop ok pbuf (fuel + 2) l).2.flash = l'.world.flash := by
  rw [unsparseLoop_go h hturn, unsparseLoop_end (by simp [park])]
  rfl

end

/-- The loop stands at a chunk header. -/
structure AtHeader (m : Mem) (blkSz : Nat) (f : SpriteFlash) (buf rest : Int) (cursor : Nat)
    (l : Loop) : Prop where
  state : l.world.statics.sparseFormatType = .chunkHead
  mem : l.world.mem = m
  blkSz : l.world.statics.blkSz = blkSz
  flash : l.world.flash = f
  buf : l.tmpBuf = buf
  rest : l.thisRestSize = rest
  cursor : l.world.statics.flashStart = cursor

variable (ok pbuf) in
/-- The loop, from a chunk header on, writes what the chunks ask for: the induction, for at most `k`
    more bytes. -/
def Walks (m : Mem) (blkSz k fuel : Nat) : Prop :=
  ∀ (f : SpriteFlash) (buf rest : Int) (cursor : Nat) (l : Loop),
    AtHeader m blkSz f buf rest cursor l → rest ≤ k →
    Did ok f (unsparseLoop ok pbuf fuel l).2.flash (requests m blkSz k buf rest cursor)

/-- What is asked for from a place on, if there is one. -/
def restRequests (m : Mem) (blkSz k : Nat) (buf rest : Int) : Option (Nat × Nat) → List Request
  | none => []
  | some next => requests m blkSz k (buf + next.1) (rest - next.1) next.2

variable {m : Mem} {blkSz k fuel : Nat}

theorem did_write (w : World) (start n : Nat) (src : Nat → UInt8) :
    Did ok w.flash (sunxiSpriteWrite ok w start n src).2.flash [⟨start, n⟩] := by
  by_cases hok : ok w.writes = true
  · rw [sunxiSpriteWrite, if_pos hok]
    exact Did.of_touches (touches_put _ _ _ _)
  · rw [sunxiSpriteWrite, if_neg hok]
    exact Did.stop hok nil_prefix (Touches.nil _)

variable (ok pbuf m blkSz k fuel) in
/-- The loop behind the header of a chunk writes what the chunk and those behind it ask for. -/
def DidChunk (l : Loop) (c : List Request × Option (Nat × Nat)) : Prop :=
  Did ok l.world.flash (unsparseLoop ok pbuf fuel l).2.flash
    (c.1 ++ restRequests m blkSz k l.tmpBuf l.thisRestSize c.2)

theorem dataLoop_did (hwalk : Walks ok pbuf m blkSz k (fuel + 1)) (l : Loop)
    (hs : l.world.statics.sparseFormatType = .chunkData) (hmem : l.world.mem = m)
    (hblk : l.world.statics.blkSz = blkSz) (hrest : l.thisRestSize ≤ k)
    (hlen : l.world.statics.chunkLength ≠ 0) :
    DidChunk ok pbuf m blkSz k (fuel + 2) l
      (dataRequests l.thisRestSize l.world.statics.chunkLength l.world.statics.flashStart) := by
  have hturn : unsparseTurn ok pbuf l = chunkDataTurn ok pbuf l := by simp only [unsparseTurn, hs]
  unfold chunkDataTurn at hturn
  dsimp only at hturn
  rw [← missing] at hturn
  unfold DidChunk dataRequests
  by_cases hpos : l.thisRestSize ≤ 0
  · rw [if_pos hpos, unsparseLoop_end (by omega)]
    exact Did.nil _
  rw [if_neg hpos]
  have hpos' : 0 < l.thisRestSize := by omega
  by_cases hmiss : missing l.thisRestSize l.world.statics.chunkLength = 0
  · rw [if_pos hmiss] at hturn ⊢
    by_cases hal : l.world.statics.chunkLength % 512 = 0
    · rw [if_pos hal]
      by_cases hok : ok l.world.writes = true
      · -- the chunk is all there, and the next header is behind it
        rw [sunxiSpriteWrite, if_pos hok] at hturn
        dsimp only at hturn
        rw [if_neg (by omega), if_neg (not_not.mpr hal)] at hturn
        rw [unsparseLoop_go hpos' hturn]
        refine Did.append (touches_put _ _ _ fun i => l.world.mem (l.tmpBuf + i))
          (hwalk _ _ _ _ _ ⟨rfl, hmem, hblk, rfl, rfl, rfl, rfl⟩ ?_)
        omega
      · rw [sunxiSpriteWrite, if_neg hok, if_pos rfl] at hturn
        rw [unsparseLoop_fail hpos' hturn]
        exact Did.stop hok nil_prefix (Touches.nil _)
    · rw [if_pos hal, ite_self] at hturn
      rw [if_neg hal, unsparseLoop_fail hpos' hturn]
      exact did_write _ _ _ _
  · rw [if_neg hmiss] at hturn ⊢
    by_cases hfew : l.thisRestSize < 8 * 1024
    · rw [if_pos hfew] at hturn ⊢
      rw [unsparseLoop_park hpos' hturn]
      exact Did.nil _
    rw [if_neg hfew] at hturn ⊢
    -- whatever comes after the write, the flash stays as it left it
    split at hturn
    · rw [unsparseLoop_fail hpos' hturn]
      exact did_write _ _ _ _
    split at hturn
    · rw [unsparseLoop_fail hpos' hturn]
      exact did_write _ _ _ _
    · rw [unsparseLoop_park hpos' hturn]
      exact did_write _ _ _ _

variable (ok) in
/-- The writes of a fill chunk: all of them, or those in front of one that failed. -/
theorem fillWrites_did (fileVal count : Nat) (w : World) :
    (fillWrites ok fileVal count w).2.mem = w.mem ∧
    (fillWrites ok fileVal count w).2.statics.blkSz = w.statics.blkSz ∧
    (if (fillWrites ok fileVal count w).1 = true then
      Touches w.flash (fillWrites ok fileVal count w).2.flash
          (fillRequests count w.statics.flashStart) ∧
        (fillWrites ok fileVal count w).2.statics.flashStart =
          fillCursor count w.statics.flashStart
    else ∃ i, ¬ ok i = true ∧ ∃ done, done <+: fillRequests count w.statics.flashStart ∧
      Touches w.flash (fillWrites ok fileVal count w).2.flash done) := by
  induction count generalizing w with
  | zero => exact ⟨rfl, rfl, Touches.nil _, rfl⟩
  | succ count ih =>
    by_cases hok : ok w.writes = true
    · have hput := touches_put w.flash w.statics.flashStart 8 (fillbuf fileVal)
      let w' := World.withStatics { w with
        flash := w.flash.put w.statics.flashStart 8 (fillbuf fileVal)
        writes := w.writes + 1 } fun s => { s with flashStart := u32 (s.flashStart + 8) }
      have hrun : fillWrites ok fileVal (count + 1) w = fillWrites ok fileVal count w' := by
        rw [fillWrites, sunxiSpriteWrite, if_pos hok]
        rfl
      rw [hrun]
      rcases ih w' with ⟨hmem, hblk, hrest⟩
      refine ⟨hmem, hblk, ?_⟩
      split_ifs at hrest ⊢
      · exact ⟨hput.append hrest.1, hrest.2⟩
      · rcases hrest with ⟨i, hi, done, hdone, htouch⟩
        exact ⟨i, hi, ⟨w.statics.flashStart, 8⟩ :: done,
          (prefix_append_right_inj [_]).mpr hdone, hput.append htouch⟩
    · have hrun : fillWrites ok fileVal (count + 1) w =
          (false, { w with writes := w.writes + 1 }) := by
        rw [fillWrites, sunxiSpriteWrite, if_neg hok]
        rfl
      rw [hrun]
      exact ⟨rfl, rfl, w.writes, hok, [], nil_prefix, Touches.nil _⟩

theorem fillLoop_did (hwalk : Walks ok pbuf m blkSz k (fuel + 1)) (l : Loop)
    (hs : l.world.statics.sparseFormatType = .chunkFillData) (hmem : l.world.mem = m)
    (hblk : l.world.statics.blkSz = blkSz) (hrest : l.thisRestSize ≤ k) :
    DidChunk ok pbuf m blkSz k (fuel + 2) l
      (fillChunkRequests l.thisRestSize l.world.statics.chunkLength
        l.world.statics.flashStart) := by
  have hturn : unsparseTurn ok pbuf l = chunkFillDataTurn ok pbuf l := by
    simp only [unsparseTurn, hs]
  unfold chunkFillDataTurn at hturn
  unfold DidChunk fillChunkRequests
  by_cases hpos : 0 < l.thisRestSize
  · split_ifs at hturn with hword hal
    · rw [if_pos (.inr hal), unsparseLoop_fail hpos hturn]
      exact Did.nil _
    · rw [if_neg (by omega)]
      have hfill := fillWrites_did ok (wordAt l.world.mem l.tmpBuf 4)
        (l.world.statics.chunkLength / 4096) l.world
      dsimp only at hturn
      generalize fillWrites ok (wordAt l.world.mem l.tmpBuf 4)
        (l.world.statics.chunkLength / 4096) l.world = r at hturn hfill
      rcases hfill with ⟨hrmem, hrblk, hfill⟩
      by_cases hdone : r.1 = true
      · rw [if_pos hdone] at hturn hfill
        rw [unsparseLoop_go hpos hturn]
        refine Did.append hfill.1 (hwalk _ _ _ _ _
          ⟨rfl, hrmem.trans hmem, hrblk.trans hblk, rfl, rfl, rfl, hfill.2⟩ ?_)
        omega
      · rw [if_neg hdone] at hturn hfill
        rcases hfill with ⟨i, hi, done, hfront, htouch⟩
        rw [unsparseLoop_fail hpos hturn]
        exact Did.stop hi (hfront.trans (prefix_append _ _)) htouch
    · rw [if_pos (.inl (by omega)), unsparseLoop_park hpos hturn]
      exact Did.nil _
  · rw [if_pos (.inl (by omega)), unsparseLoop_end hpos]
    exact Did.nil _

theorem chunkLoop_did (hwalk : ∀ fuel', fuel + 1 ≤ fuel' → Walks ok pbuf m blkSz k fuel') (l : Loop)
    (hmem : l.world.mem = m) (hblk : l.world.statics.blkSz = blkSz) (hpos : 0 < l.thisRestSize)
    (hrest : l.thisRestSize - chunkHeaderSize ≤ k) (chunkType totalSz chunkLength : Nat)
    (hturn : unsparseTurn ok pbuf l = chunkSwitch l chunkType totalSz chunkLength)
    {c : List Request × Option (Nat × Nat)}
    (hc : chunkRequests (l.thisRestSize - chunkHeaderSize) chunkType totalSz chunkLength
      l.world.statics.flashStart = c) :
    Did ok l.world.flash (unsparseLoop ok pbuf (fuel + 3) l).2.flash
      (c.1 ++ restRequests m blkSz k (l.tmpBuf + chunkHeaderSize)
        (l.thisRestSize - chunkHeaderSize) c.2) := by
  subst hc
  -- a header that is not accepted ends the loop, with the flash as it is
  have hfail : ∀ g, unsparseTurn ok pbuf l = .fail (l.afterHeader chunkLength g).world →
      Did ok l.world.flash (unsparseLoop ok pbuf (fuel + 3) l).2.flash [] := by
    intro g hg
    rw [unsparseLoop_fail hpos hg]
    exact Did.nil _
  -- behind a chunk without data the next header follows
  have hskip : ∀ g, unsparseTurn ok pbuf l = .go (l.afterHeader chunkLength g) →
      AtHeader m blkSz l.world.flash (l.tmpBuf + chunkHeaderSize) (l.thisRestSize - chunkHeaderSize)
        (g { l.world.statics with chunkLength := chunkLength }).flashStart
        (l.afterHeader chunkLength g) →
      Did ok l.world.flash (unsparseLoop ok pbuf (fuel + 3) l).2.flash
        (restRequests m blkSz k (l.tmpBuf + chunkHeaderSize) (l.thisRestSize - chunkHeaderSize)
          (some (0, (g { l.world.statics with chunkLength := chunkLength }).flashStart))) := by
    intro g hg hat
    rw [unsparseLoop_go hpos hg, restRequests, Nat.cast_zero, add_zero, sub_zero]
    exact hwalk (fuel + 2) (by omega) _ _ _ _ _ hat hrest
  unfold chunkSwitch at hturn
  unfold chunkRequests
  split_ifs at hturn ⊢ with hzero hraw
  · exact hskip _ hturn ⟨rfl, hmem, hblk, rfl, rfl, rfl, rfl⟩
  · exact hfail _ hturn
  · rw [unsparseLoop_go hpos hturn]
    exact dataLoop_did (hwalk (fuel + 1) le_rfl)
      (l.afterHeader chunkLength fun s => { s with sparseFormatType := .chunkData })
      rfl hmem hblk hrest hzero
  · exact hfail _ hturn
  · rw [unsparseLoop_go hpos hturn]
    exact fillLoop_did (hwalk (fuel + 1) le_rfl)
      (l.afterHeader chunkLength fun s => { s with sparseFormatType := .chunkFillData })
      rfl hmem hblk hrest
  · exact hfail _ hturn
  · exact hskip _ hturn ⟨rfl, hmem, hblk, rfl, rfl, rfl, rfl⟩
  · exact hfail _ hturn

theorem unsparseLoop_did (k fuel : Nat) (hfuel : 2 * k + 1 ≤ fuel) :
    Walks ok pbuf m blkSz k fuel := by
  intro f buf rest cursor l hl hrest
  induction k generalizing fuel f buf rest cursor l with
  | zero =>
    rcases Nat.exists_eq_add_of_le' hfuel with ⟨fuel, rfl⟩
    have hrest' := hl.rest
    rw [show fuel + (2 * 0 + 1) = fuel + 1 by omega, unsparseLoop_end (by omega), hl.flash]
    exact Did.nil _
  | succ k ih =>
    rcases Nat.exists_eq_add_of_le' (show 3 ≤ fuel by omega) with ⟨fuel, rfl⟩
    rcases hl with ⟨hs, hmem, hblk, rfl, rfl, rfl, rfl⟩
    have hturn : unsparseTurn ok pbuf l = chunkHeadTurn pbuf l := by simp only [unsparseTurn, hs]
    unfold chunkHeadTurn at hturn
    rw [requests]
    split_ifs at hturn ⊢ with hshort
    · by_cases hpos : 0 < l.thisRestSize
      · rw [unsparseLoop_park hpos hturn]
        exact Did.nil _
      · rw [unsparseLoop_end hpos]
        exact Did.nil _
    · rw [hmem, hblk] at hturn
      unfold chunkHeaderSize at hshort
      refine chunkLoop_did (fun fuel' h => ih fuel' (by omega)) l hmem hblk (by omega) ?_
        _ _ _ hturn rfl
      unfold chunkHeaderSize
      omega

variable (ok pbuf) in
theorem unsparseDirectWrite_did (w : World) (length : Nat)
    (hs : w.statics.sparseFormatType = .totalHead) (hcarry : w.statics.lastRestSize = 0) :
    Did ok w.flash (unsparseDirectWrite ok w pbuf length).2.flash
      (imageRequests w.mem pbuf length w.statics.flashStart) := by
  have hbuf : (unsparseStart w pbuf length).tmpBuf = pbuf := by
    simp only [unsparseStart, hcarry, Nat.cast_zero, sub_zero]
  have hrest : (unsparseStart w pbuf length).thisRestSize = s32 length := by
    simp only [unsparseStart, hcarry, Nat.cast_zero, zero_add]
  have hstate : (unsparseStart w pbuf length).world.statics.sparseFormatType = .totalHead := hs
  have hflash : (unsparseStart w pbuf length).world.flash = w.flash := rfl
  have hmem : (unsparseStart w pbuf length).world.mem = w.mem := rfl
  have hcursor : (unsparseStart w pbuf length).world.statics.flashStart = w.statics.flashStart :=
    rfl
  rw [unsparseDirectWrite]
  generalize unsparseStart w pbuf length = l at *
  have hturn : unsparseTurn ok pbuf l = totalHeadTurn l := by simp only [unsparseTurn, hstate]
  unfold imageRequests
  by_cases hpos : 0 < s32 length
  · rw [if_pos hpos, unsparseLoop_go (by omega) hturn, hrest]
    refine unsparseLoop_did _ _ le_rfl _ _ _ _ _ ⟨rfl, hmem, ?_, hflash, ?_, ?_, hcursor⟩ ?_
    · rw [← hmem, ← hbuf]
      rfl
    · rw [← hbuf]
    · rw [← hrest]
    · unfold sparseHeaderSize
      omega
  · rw [if_neg hpos, unsparseLoop_end (by omega), hflash]
    exact Did.nil _

end

end Brandy.Sparse
