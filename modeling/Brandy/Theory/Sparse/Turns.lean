import Brandy.Theory.Sparse.Expand

/-!
# The Decoding Loop

The bytes still to be decoded are in three places: the undecoded rest of the current piece, the
bytes carried in front of the buffer, and the pieces that have not arrived yet. A turn either
consumes bytes, or moves all undecoded bytes in front of the buffer.

## Main definitions

* `Expect`: What the three put end to end must be in each state of the format, and what the flash
  will be.
* `Running`, `Parked`: The invariant of the loop, and the one between calls.

## Theorems

* `unsparseTurn_running`: One turn.
* `unsparseLoop_parked`: The loop.
-/

namespace Brandy.Sparse

open Memory Word List

/-- The chunks still to be expanded from sector `pos` on, and where they lead. -/
structure Remaining (blkSz : Nat) (goal f : SpriteFlash) (pos : Nat) (cs : List Chunk) :
    Prop where
  fits : Fits blkSz pos cs
  ok : ∀ c ∈ cs, c.Ok blkSz
  expand_eq : expand blkSz f pos cs = goal

/-- What the undecoded bytes are in each state of the format. -/
inductive Expect (blkSz : Nat) (goal f : SpriteFlash) (s : Statics) : List UInt8 → Prop where
  | totalHead (header : List UInt8) (cs : List Chunk)
      (hs : s.sparseFormatType = .totalHead) (hlen : header.length = sparseHeaderSize)
      (hblk : headerField header 12 4 = blkSz) (hlt : s.flashStart < 2 ^ 32)
      (hrem : Remaining blkSz goal f s.flashStart cs) :
      Expect blkSz goal f s (header ++ encodeAll blkSz cs)
  | chunkHead (pos : Nat) (cs : List Chunk)
      (hs : s.sparseFormatType = .chunkHead) (hblk : s.blkSz = blkSz)
      (hpos : s.flashStart = pos % 2 ^ 32) (hrem : Remaining blkSz goal f pos cs) :
      Expect blkSz goal f s (encodeAll blkSz cs)
  | chunkData (n : Nat) (data : List UInt8) (cs : List Chunk)
      (hs : s.sparseFormatType = .chunkData) (hblk : s.blkSz = blkSz)
      (hdata : data.length = 512 * n) (hlen : s.chunkLength = 512 * n)
      (hn : 0 < n) (hlt : 512 * n < 2 ^ 31) (hfit : s.flashStart + n ≤ 2 ^ 32)
      (hrem : Remaining blkSz goal (f.put s.flashStart n (fun i => data.getD i 0))
        (s.flashStart + n) cs) :
      Expect blkSz goal f s (data ++ encodeAll blkSz cs)
  | chunkFillData (n value : Nat) (cs : List Chunk)
      (hs : s.sparseFormatType = .chunkFillData) (hblk : s.blkSz = blkSz)
      (hval : value < 2 ^ 32) (hlen : s.chunkLength = 4096 * n) (hn : 0 < n)
      (hfit : s.flashStart + 8 * n ≤ 2 ^ 32)
      (hrem : Remaining blkSz goal
        (f.put s.flashStart (8 * n) (fun i => (leBytes 4 value).getD (i % 4) 0))
        (s.flashStart + 8 * n) cs) :
      Expect blkSz goal f s (leBytes 4 value ++ encodeAll blkSz cs)

/-- How many bytes a state needs to make progress. -/
def need (s : Statics) : Nat :=
  match s.sparseFormatType with
  | .unknown => 0
  | .totalHead => sparseHeaderSize
  | .chunkHead => chunkHeaderSize
  | .chunkData => s.chunkLength
  | .chunkFillData => 4

/-- The invariant of the decoding loop, for a buffer that ends at `bufEnd`. -/
structure Running (blkSz : Nat) (goal : SpriteFlash) (bufEnd : Int) (future : List UInt8)
    (l : Loop) : Prop where
  rest_nonneg : 0 ≤ l.thisRestSize
  rest_lt : l.thisRestSize < 2 ^ 31
  end_eq : l.tmpBuf + l.thisRestSize = bufEnd
  noCarry : l.world.statics.lastRestSize = 0
  header : l.world.statics.sparseFormatType = .totalHead → sparseHeaderSize ≤ l.thisRestSize
  expect : Expect blkSz goal l.world.flash l.world.statics
    (read l.world.mem l.tmpBuf l.thisRestSize.toNat ++ future)

/-- The invariant between calls. -/
structure Parked (blkSz : Nat) (goal : SpriteFlash) (pbuf : Int) (future : List UInt8)
    (w : World) : Prop where
  expect : Expect blkSz goal w.flash w.statics
    (read w.mem (pbuf - w.statics.lastRestSize) w.statics.lastRestSize ++ future)
  short : w.statics.lastRestSize < need w.statics
  room : w.statics.lastRestSize < 8192
  started : w.statics.sparseFormatType ≠ .totalHead

theorem wordAt_prefix {m : Mem} {a : Int} {n k v : Nat} {ys future : List UInt8}
    (h : read m a n ++ future = leBytes k v ++ ys) (hk : k ≤ n) :
    (v < 256 ^ k → wordAt m a k = v) ∧ read m (a + k) (n - k) ++ future = ys := by
  rcases read_prefix m h (by rwa [length_leBytes]) with ⟨hword, hrest⟩
  rw [length_leBytes] at hword hrest
  exact ⟨fun hv => by rw [wordAt, hword, leValue_leBytes v hv], hrest⟩

theorem wordAt_encodeHeader {m : Mem} {a : Int} {n t r k tot : Nat} {ys future : List UInt8}
    (h : read m a n ++ future = Chunk.encodeHeader t r k tot ++ ys) (hn : 12 ≤ n)
    (ht : t < 2 ^ 16) (hk : k < 2 ^ 32) (htot : tot < 2 ^ 32) :
    wordAt m a 2 = t ∧ wordAt m (a + 4) 4 = k ∧ wordAt m (a + 8) 4 = tot ∧
      read m (a + 12) (n - 12) ++ future = ys := by
  simp only [Chunk.encodeHeader, append_assoc] at h
  rcases wordAt_prefix h (by omega) with ⟨htype, h⟩
  rcases wordAt_prefix h (by omega) with ⟨-, h⟩
  rcases wordAt_prefix h (by omega) with ⟨hblocks, h⟩
  rcases wordAt_prefix h (by omega) with ⟨htotal, h⟩
  simp only [add_assoc, Nat.cast_ofNat, Nat.sub_sub] at hblocks htotal h
  exact ⟨htype ht, hblocks hk, htotal htot, h⟩

theorem Expect.congr {blkSz : Nat} {goal f : SpriteFlash} {s s' : Statics} {R : List UInt8}
    (h : Expect blkSz goal f s R) (htype : s'.sparseFormatType = s.sparseFormatType)
    (hblk' : s'.blkSz = s.blkSz) (hfs : s'.flashStart = s.flashStart)
    (hcl : s'.chunkLength = s.chunkLength) : Expect blkSz goal f s' R := by
  cases h with
  | totalHead header cs hs hlen hblk hlt hrem =>
    exact .totalHead header cs (htype.trans hs) hlen hblk (by rwa [hfs]) (by rwa [hfs])
  | chunkHead pos cs hs hblk hpos hrem =>
    exact .chunkHead pos cs (htype.trans hs) (hblk'.trans hblk) (hfs.trans hpos) hrem
  | chunkData n data cs hs hblk hdata hlen hn hlt hfit hrem =>
    exact .chunkData n data cs (htype.trans hs) (hblk'.trans hblk) hdata (hcl.trans hlen) hn hlt
      (by rwa [hfs]) (by rwa [hfs])
  | chunkFillData n value cs hs hblk hval hlen hn hfit hrem =>
    exact .chunkFillData n value cs (htype.trans hs) (hblk'.trans hblk) hval (hcl.trans hlen) hn
      (by rwa [hfs]) (by rwa [hfs])

section Turns

variable {ok : Nat → Bool} {blkSz : Nat} {goal : SpriteFlash} {pbuf bufEnd : Int}
  {future : List UInt8}

/-- What a turn has to deliver: it goes on, with fewer bytes left or parked. -/
def TurnOk (blkSz : Nat) (goal : SpriteFlash) (pbuf bufEnd : Int) (future : List UInt8)
    (l : Loop) (t : Turn) : Prop :=
  ∃ l', t = .go l' ∧
    ((Running blkSz goal bufEnd future l' ∧ l'.thisRestSize < l.thisRestSize) ∨
      (l'.thisRestSize = 0 ∧ Parked blkSz goal pbuf future l'.world))

theorem put_read (f : SpriteFlash) (m : Mem) (a : Int) (start n k : Nat) (data : List UInt8)
    (hread : read m a k = data.take k) (hk : 512 * n ≤ k) :
    f.put start n (fun i => m (a + i)) = f.put start n (fun i => data.getD i 0) := by
  refine SpriteFlash.put_congr _ _ _ _ _ (fun i hi => ?_)
  have h := congrArg (fun bs => List.getD bs i 0) hread
  rw [getD_read m a k i (by omega)] at h
  rw [h, getD_eq_getElem?_getD, getD_eq_getElem?_getD, getElem?_take_of_lt (by omega)]

/-- How much of an incomplete data chunk is written: all whole sectors at hand, leaving fewer than
    8192 bytes to carry. -/
theorem tmpDownSize_spec (rest L : Int) (hrest : 8 * 1024 ≤ rest) (hlt : rest < L)
    (hL : L < 2 ^ 31) (hal : L % 512 = 0) :
    0 < tmpDownSize rest (L - rest) ∧ tmpDownSize rest (L - rest) ≤ rest ∧
      tmpDownSize rest (L - rest) % 512 = 0 ∧ rest - tmpDownSize rest (L - rest) < 8192 := by
  simp only [tmpDownSize]
  split_ifs
  · rw [s32_of_range]
    omega
  · omega

theorem fillbuf_add (value k i : Nat) : fillbuf value (512 * (8 * k) + i) = fillbuf value i := by
  simp only [fillbuf]
  congr 1
  omega

/-- The fill loop writes its sectors one after the other. The cursor is only allowed to wrap behind
    the last of them. -/
theorem fillWrites_ok (hok : ∀ i, ok i = true) {value : Nat} (n : Nat) (w : World)
    (hlt : w.statics.flashStart < 2 ^ 32) (hfit : w.statics.flashStart + 8 * n ≤ 2 ^ 32) :
    ∃ w', fillWrites ok value n w = (true, w') ∧ w'.mem = w.mem ∧
      w'.statics = { w.statics with flashStart := (w.statics.flashStart + 8 * n) % 2 ^ 32 } ∧
      w'.flash = w.flash.put w.statics.flashStart (8 * n) (fillbuf value) := by
  induction n generalizing w with
  | zero =>
    refine ⟨w, rfl, rfl, ?_, ?_⟩
    · rw [mul_zero, add_zero, Nat.mod_eq_of_lt hlt]
    · rw [mul_zero, SpriteFlash.put_zero]
  | succ k ih =>
    have hu : u32 ((w.statics.flashStart : Int) + 8) = (w.statics.flashStart + 8) % 2 ^ 32 := by
      rw [← u32_natCast]
      rfl
    -- One write, then the rest of the loop from eight sectors further on.
    rcases ih ({ w with
        flash := w.flash.put w.statics.flashStart 8 (fillbuf value)
        writes := w.writes + 1
        statics := { w.statics with flashStart := (w.statics.flashStart + 8) % 2 ^ 32 } } : World)
      (by simp only []; omega) (by simp only []; omega) with ⟨w', hrun, hmem, hst, hflash⟩
    refine ⟨w', ?_, hmem, ?_, ?_⟩
    · simp only [fillWrites, sunxiSpriteWrite, hok, if_true, World.withStatics, hu]
      exact hrun
    · rw [hst]
      simp only [Statics.mk.injEq, true_and, and_true]
      omega
    · rw [hflash]
      simp only []
      rcases Nat.eq_zero_or_pos k with rfl | hk
      · rw [mul_zero, SpriteFlash.put_zero]
      · rw [Nat.mod_eq_of_lt (by omega), show 8 * (k + 1) = 8 + 8 * k by ring,
          ← SpriteFlash.put_put]
        refine SpriteFlash.put_congr _ _ _ _ _ (fun i _ => ?_)
        exact (fillbuf_add value 1 i).symm

section

variable {l : Loop} (hrun : Running blkSz goal bufEnd future l)
include hrun

theorem park_parked (hbuf : pbuf ≤ bufEnd) (hshort : l.thisRestSize < need l.world.statics)
    (hroom : l.thisRestSize < 8192) :
    (park pbuf l).thisRestSize = 0 ∧ Parked blkSz goal pbuf future (park pbuf l).world := by
  have hnn := hrun.rest_nonneg
  have hend := hrun.end_eq
  have hu : u32 l.thisRestSize = l.thisRestSize.toNat :=
    u32_of_range _ (by omega) (by omega)
  refine ⟨rfl, ⟨?_, ?_, ?_, fun hs => ?_⟩⟩
  · -- The bytes read back in front of the buffer are the bytes that were moved.
    have hread : read (memcpy l.world.mem (pbuf - l.thisRestSize) l.tmpBuf l.thisRestSize.toNat)
        (pbuf - (u32 l.thisRestSize : Nat)) (u32 l.thisRestSize)
        = read l.world.mem l.tmpBuf l.thisRestSize.toNat := by
      rw [hu, show pbuf - ((l.thisRestSize.toNat : Nat) : Int) = pbuf - l.thisRestSize by omega]
      exact read_memcpy _ _ _ _ (by omega)
    simp only [park]
    rw [hread]
    exact hrun.expect.congr rfl rfl rfl rfl
  · have hneed : need (park pbuf l).world.statics = need l.world.statics := rfl
    rw [hneed]
    simp only [park, hu]
    omega
  · simp only [park, hu]
    omega
  · -- The header of the image is never carried.
    have hs : l.world.statics.sparseFormatType = .totalHead := hs
    have hheader := hrun.header hs
    simp only [need, hs] at hshort
    omega

/-- The loop behind `k` bytes that have been decoded. -/
theorem Running.advance {l' : Loop} {k : Nat} {R : List UInt8} (hpos : 0 < k)
    (hk : k ≤ l.thisRestSize)
    (htail : read l.world.mem (l.tmpBuf + k) (l.thisRestSize.toNat - k) ++ future = R)
    (hbuf : l'.tmpBuf = l.tmpBuf + k) (hrest : l'.thisRestSize = l.thisRestSize - k)
    (hmem : l'.world.mem = l.world.mem) (hcarry : l'.world.statics.lastRestSize = 0)
    (hexp : Expect blkSz goal l'.world.flash l'.world.statics R)
    (htype : l'.world.statics.sparseFormatType ≠ .totalHead := by rintro ⟨⟩) :
    Running blkSz goal bufEnd future l' ∧ l'.thisRestSize < l.thisRestSize := by
  have hend := hrun.end_eq
  have hlt := hrun.rest_lt
  refine ⟨⟨by omega, by omega, by omega, hcarry, fun hc => absurd hc htype, ?_⟩, by omega⟩
  rw [hmem, hbuf, hrest, show (l.thisRestSize - k).toNat = l.thisRestSize.toNat - k by omega, htail]
  exact hexp

theorem totalHeadTurn_ok {header : List UInt8} (cs : List Chunk)
    (hR : read l.world.mem l.tmpBuf l.thisRestSize.toNat ++ future
      = header ++ encodeAll blkSz cs)
    (hs : l.world.statics.sparseFormatType = .totalHead)
    (hlen : header.length = sparseHeaderSize) (hblk : headerField header 12 4 = blkSz)
    (hfs : l.world.statics.flashStart < 2 ^ 32)
    (hrem : Remaining blkSz goal l.world.flash l.world.statics.flashStart cs) :
    TurnOk blkSz goal pbuf bufEnd future l (totalHeadTurn l) := by
  have hrest := hrun.header hs
  rcases read_prefix _ hR (by omega) with ⟨hhead, htail⟩
  rw [hlen] at hhead htail
  -- The block size is the header field the reference uses.
  have hfield : wordAt l.world.mem (l.tmpBuf + 12) 4 = blkSz := by
    rw [← hblk, headerField, wordAt, ← hhead, show sparseHeaderSize = 12 + (4 + 12) from rfl,
      read_add, read_add, drop_left' (length_read _), take_left' (length_read _)]
    rfl
  exact ⟨_, rfl, .inl (hrun.advance (by decide) hrest htail rfl rfl rfl hrun.noCarry
    (.chunkHead l.world.statics.flashStart cs rfl hfield (Nat.mod_eq_of_lt hfs).symm hrem))⟩

theorem chunkSwitch_ok (hblkPos : 0 < blkSz) (hblkAl : blkSz % 4096 = 0)
    (hrest : chunkHeaderSize ≤ l.thisRestSize) (pos : Nat) (c : Chunk) (cs : List Chunk)
    (hR : read l.world.mem l.tmpBuf l.thisRestSize.toNat ++ future = encodeAll blkSz (c :: cs))
    (hblk : l.world.statics.blkSz = blkSz) (hfs : l.world.statics.flashStart = pos % 2 ^ 32)
    (hrem : Remaining blkSz goal l.world.flash pos (c :: cs)) :
    TurnOk blkSz goal pbuf bufEnd future l (chunkSwitch l (wordAt l.world.mem l.tmpBuf 2)
      (wordAt l.world.mem (l.tmpBuf + 8) 4)
      (u32 (wordAt l.world.mem (l.tmpBuf + 4) 4 * l.world.statics.blkSz))) := by
  rcases hrem with ⟨hfits, hok, hgoal⟩
  have hc := hok c (mem_cons_self)
  have hok' : ∀ d ∈ cs, d.Ok blkSz := fun d hd => hok d (mem_cons_of_mem c hd)
  have hln := hc.length_lt
  have hlpos : 0 < c.chunkSz * blkSz := mul_pos hc.chunkSz_pos hblkPos
  have hk : c.chunkSz < 2 ^ 32 := by nlinarith
  have hmod : c.chunkSz * blkSz % 4096 = 0 := by
    rw [Nat.mul_mod, hblkAl, mul_zero, Nat.zero_mod]
  have hu : u32 ((c.chunkSz : Int) * l.world.statics.blkSz) = c.chunkSz * blkSz :=
    u32_of_range _ (by rw [hblk]; push_cast; ring) (by omega)
  -- The cursor has not wrapped where the sectors of the chunk fit.
  have hcursor : pos + c.chunkSz * blkSz / 512 ≤ 2 ^ 32 → l.world.statics.flashStart = pos :=
    fun hfit => hfs.trans (Nat.mod_eq_of_lt (by omega))
  have hrest' : 12 ≤ l.thisRestSize.toNat := by
    unfold chunkHeaderSize at hrest
    omega
  cases c with
  | raw r k data =>
    have hdata : data.length = k * blkSz := hc.dataOk
    simp only [Chunk.chunkSz] at hln hlpos hk hmod hu hcursor
    simp only [encodeAll, Chunk.encode, append_assoc] at hR
    rcases wordAt_encodeHeader hR hrest' (by decide) hk (by omega) with
      ⟨htype, hsz, htot, htail⟩
    have hu' : u32 (((k * blkSz : Nat) : Int) + chunkHeaderSize) = 12 + k * blkSz :=
      u32_of_range _ (by simp only [chunkHeaderSize]; push_cast; ring) (by omega)
    rw [htype, hsz, htot, hu]
    simp only [chunkSwitch, hu', ne_eq, not_true_eq_false, if_false, if_true]
    rw [if_neg (by omega)]
    have hfit : pos + k * blkSz / 512 ≤ 2 ^ 32 := hfits.1 rfl
    refine ⟨_, rfl, .inl (hrun.advance (by decide) hrest htail rfl rfl rfl hrun.noCarry
      (.chunkData (k * blkSz / 512) data cs rfl hblk (by omega) ?_ (by omega) (by omega) ?_
        ⟨?_, hok', ?_⟩))⟩
    all_goals simp only [Loop.afterHeader, World.withStatics, hcursor hfit]
    exacts [by omega, hfit, hfits.2, hgoal]
  | fill r k value =>
    have hval : value < 2 ^ 32 := hc.dataOk
    simp only [Chunk.chunkSz] at hln hlpos hk hmod hu hcursor
    simp only [encodeAll, Chunk.encode, append_assoc] at hR
    rcases wordAt_encodeHeader hR hrest' (by decide) hk (by decide) with
      ⟨htype, hsz, htot, htail⟩
    have hne : ¬ chunkTypeFill = chunkTypeRaw := by decide
    have hsize : (16 : Nat) = chunkHeaderSize + 4 := rfl
    rw [htype, hsz, htot, hu]
    simp only [chunkSwitch, hne, hsize, ne_eq, not_true_eq_false, if_false, if_true]
    rw [if_neg (by omega)]
    have hsec : k * blkSz / 512 = 8 * (k * blkSz / 4096) := by omega
    have hfit : pos + k * blkSz / 512 ≤ 2 ^ 32 := hfits.1 rfl
    refine ⟨_, rfl, .inl (hrun.advance (by decide) hrest htail rfl rfl rfl hrun.noCarry
      (.chunkFillData (k * blkSz / 4096) value cs rfl hblk hval ?_ (by omega) ?_ ⟨?_, hok', ?_⟩))⟩
    all_goals simp only [Loop.afterHeader, World.withStatics, hcursor hfit, ← hsec]
    exacts [by omega, hfit, hfits.2, hgoal]
  | dontCare r k =>
    simp only [Chunk.chunkSz] at hln hlpos hk hmod hu
    simp only [encodeAll, Chunk.encode] at hR
    rcases wordAt_encodeHeader hR hrest' (by decide) hk (by decide) with
      ⟨htype, hsz, htot, htail⟩
    have hne : ¬ chunkTypeDontCare = chunkTypeRaw := by decide
    have hne' : ¬ chunkTypeDontCare = chunkTypeFill := by decide
    have hsize : (12 : Nat) = chunkHeaderSize := rfl
    rw [htype, hsz, htot, hu]
    simp only [chunkSwitch, hne, hne', hsize, ne_eq, not_true_eq_false, if_false, if_true]
    rw [if_neg (by omega)]
    -- The cursor may wrap here; it only has to agree with the reference modulo `2 ^ 32`.
    refine ⟨_, rfl, .inl (hrun.advance (by decide) hrest htail rfl rfl rfl hrun.noCarry
      (.chunkHead (pos + k * blkSz / 512) cs rfl hblk ?_ ⟨hfits.2, hok', hgoal⟩))⟩
    simp only [Loop.afterHeader, World.withStatics, hfs]
    rw [← Nat.cast_add, u32_natCast]
    exact Nat.mod_add_mod pos _ _

theorem chunkHeadTurn_ok (hblkPos : 0 < blkSz) (hblkAl : blkSz % 4096 = 0) (hbuf : pbuf ≤ bufEnd)
    (hpos : 0 < l.thisRestSize) (pos : Nat) (cs : List Chunk)
    (hR : read l.world.mem l.tmpBuf l.thisRestSize.toNat ++ future = encodeAll blkSz cs)
    (hs : l.world.statics.sparseFormatType = .chunkHead) (hblk : l.world.statics.blkSz = blkSz)
    (hfs : l.world.statics.flashStart = pos % 2 ^ 32)
    (hrem : Remaining blkSz goal l.world.flash pos cs) :
    TurnOk blkSz goal pbuf bufEnd future l (chunkHeadTurn pbuf l) := by
  simp only [chunkHeadTurn]
  split_ifs with hshort
  · -- Not even a header: carry what there is.
    refine ⟨park pbuf l, rfl, .inr (park_parked hrun hbuf ?_ ?_)⟩
    · simp only [need, hs]
      exact hshort
    · simp only [chunkHeaderSize] at hshort
      omega
  cases cs with
  | nil =>
    -- The bytes at hand would have to encode no chunk.
    have hl := congrArg length hR
    simp only [encodeAll, length_append, length_read, length_nil] at hl
    omega
  | cons c cs =>
    exact chunkSwitch_ok hrun hblkPos hblkAl (not_lt.mp hshort) pos c cs hR hblk hfs hrem

theorem chunkDataTurn_ok (hok : ∀ i, ok i = true) (hbuf : pbuf ≤ bufEnd) (hpos : 0 < l.thisRestSize)
    (n : Nat) (data : List UInt8) (cs : List Chunk)
    (hR : read l.world.mem l.tmpBuf l.thisRestSize.toNat ++ future = data ++ encodeAll blkSz cs)
    (hs : l.world.statics.sparseFormatType = .chunkData) (hblk : l.world.statics.blkSz = blkSz)
    (hdata : data.length = 512 * n) (hlen : l.world.statics.chunkLength = 512 * n)
    (hn : 0 < n) (hlt : 512 * n < 2 ^ 31) (hfit : l.world.statics.flashStart + n ≤ 2 ^ 32)
    (hrem : Remaining blkSz goal
      (l.world.flash.put l.world.statics.flashStart n (fun i => data.getD i 0))
      (l.world.statics.flashStart + n) cs) :
    TurnOk blkSz goal pbuf bufEnd future l (chunkDataTurn ok pbuf l) := by
  have hrlt := hrun.rest_lt
  have hdiv : 512 * n / 512 = n := by omega
  have hun : (if l.thisRestSize ≤ ((512 * n : Nat) : Int)
      then s32 (((512 * n : Nat) : Int) - l.thisRestSize) else 0)
      = max (((512 * n : Nat) : Int) - l.thisRestSize) 0 := by
    split
    · rw [s32_of_range, max_eq_left (by omega)]
    · rw [max_eq_right (by omega)]
  simp only [chunkDataTurn, hlen, sunxiSpriteWrite, hok, if_true, hdiv, hun]
  by_cases hall : (512 * n : Nat) ≤ l.thisRestSize
  · -- The whole chunk is at hand.
    rcases read_prefix _ hR (by omega) with ⟨hhead, htail⟩
    have hput := put_read l.world.flash l.world.mem l.tmpBuf l.world.statics.flashStart n
      data.length data (by rw [hhead, take_length]) (by omega)
    rw [if_pos (by omega), if_neg (by omega), if_neg (by omega)]
    rw [hdata] at htail
    refine ⟨_, rfl, .inl (hrun.advance (by omega) hall htail rfl rfl rfl hrun.noCarry ?_)⟩
    simp only [World.withStatics]
    rw [hput]
    refine .chunkHead (l.world.statics.flashStart + n) cs rfl hblk ?_ hrem
    simp only []
    rw [← Nat.cast_add, u32_natCast]
  · -- Part of the chunk is still to come.
    rw [max_eq_left (by omega), if_neg (by omega)]
    by_cases hsmall : l.thisRestSize < 8 * 1024
    · rw [if_pos hsmall]
      refine ⟨park pbuf l, rfl, .inr (park_parked hrun hbuf ?_ (by omega))⟩
      simp only [need, hs, hlen]
      omega
    rw [if_neg hsmall]
    rcases tmpDownSize_spec l.thisRestSize (512 * n : Nat) (by omega) (by omega) (by omega)
      (by omega) with ⟨hd0, hdle, hdal, hdroom⟩
    generalize tmpDownSize l.thisRestSize (((512 * n : Nat) : Int) - l.thisRestSize) = down at *
    -- Name the number of sectors written.
    rcases Int.eq_ofNat_of_zero_le (show 0 ≤ down / 512 by omega) with ⟨d, hd⟩
    obtain rfl : down = ((512 * d : Nat) : Int) := by push_cast; omega
    have hu : u32 (((512 * d : Nat) : Int) / 512) = d := u32_of_range _ hd (by omega)
    have hus : u32 ((l.world.statics.flashStart : Int) + ((512 * d : Nat) : Int) / 512)
        = l.world.statics.flashStart + d := u32_of_range _ (by push_cast; omega) (by omega)
    have huc : u32 (((512 * n : Nat) : Int) - (512 * d : Nat)) = 512 * (n - d) :=
      u32_of_range _ (by omega) (by omega)
    have hur : s32 (l.thisRestSize - (512 * d : Nat)) = l.thisRestSize - (512 * d : Nat) :=
      s32_of_range
    rw [hu, hus, huc, hur, if_neg (by omega), if_neg (by omega)]
    -- The state after the write is a running loop with a shorter chunk; park it.
    have htake : (data.take (512 * d)).length = 512 * d := by
      rw [length_take]
      omega
    rw [← take_append_drop (512 * d) data, append_assoc] at hR
    rcases read_prefix _ hR (by omega) with ⟨hhead, htail⟩
    rw [htake] at hhead htail
    have hput := put_read l.world.flash l.world.mem l.tmpBuf l.world.statics.flashStart d
      (512 * d) data hhead le_rfl
    refine ⟨_, rfl, .inr (park_parked ?_ hbuf ?_ (by simp only []; omega))⟩
    · refine And.left (hrun.advance (by omega) hdle htail rfl rfl rfl hrun.noCarry ?_)
      simp only [World.withStatics]
      rw [hput]
      refine .chunkData (n - d) (data.drop (512 * d)) cs rfl hblk
        (by rw [length_drop]; omega) rfl (by omega) (by omega) (by simp only []; omega) ?_
      -- The two writes put end to end are the write of the whole chunk.
      have hrest : ∀ i, (data.drop (512 * d)).getD i 0 = data.getD (512 * d + i) 0 := by
        intro i
        rw [getD_eq_getElem?_getD, getD_eq_getElem?_getD, getElem?_drop]
      simp only [hrest]
      rw [SpriteFlash.put_put l.world.flash l.world.statics.flashStart d (n - d)
          (fun i => data.getD i 0), add_assoc, show d + (n - d) = n by omega]
      exact hrem
    · simp only [World.withStatics, need]
      omega

theorem chunkFillDataTurn_ok (hok : ∀ i, ok i = true) (hbuf : pbuf ≤ bufEnd)
    (hpos : 0 < l.thisRestSize) (n value : Nat) (cs : List Chunk)
    (hR : read l.world.mem l.tmpBuf l.thisRestSize.toNat ++ future
      = leBytes 4 value ++ encodeAll blkSz cs)
    (hs : l.world.statics.sparseFormatType = .chunkFillData)
    (hblk : l.world.statics.blkSz = blkSz) (hval : value < 2 ^ 32)
    (hlen : l.world.statics.chunkLength = 4096 * n) (hn : 0 < n)
    (hfit : l.world.statics.flashStart + 8 * n ≤ 2 ^ 32)
    (hrem : Remaining blkSz goal (l.world.flash.put l.world.statics.flashStart (8 * n)
      (fun i => (leBytes 4 value).getD (i % 4) 0)) (l.world.statics.flashStart + 8 * n) cs) :
    TurnOk blkSz goal pbuf bufEnd future l (chunkFillDataTurn ok pbuf l) := by
  simp only [chunkFillDataTurn]
  by_cases hword : 4 ≤ l.thisRestSize
  · rcases wordAt_prefix hR (by omega) with ⟨hv, htail⟩
    rcases fillWrites_ok hok n l.world (by omega) hfit with ⟨w', hw, hmem, hst, hflash⟩
    rw [if_pos hword, hlen, if_neg (by omega), hv hval, show 4096 * n / 4096 = n by omega, hw]
    simp only [if_true]
    refine ⟨_, rfl, .inl (hrun.advance (by decide) hword htail rfl rfl hmem ?_ ?_)⟩
    · simp only [World.withStatics, hst]
      exact hrun.noCarry
    · simp only [World.withStatics, hst, hflash]
      exact .chunkHead (l.world.statics.flashStart + 8 * n) cs rfl hblk rfl hrem
  · rw [if_neg hword]
    refine ⟨park pbuf l, rfl, .inr (park_parked hrun hbuf ?_ (by omega))⟩
    simp only [need, hs]
    omega

theorem unsparseTurn_running (hok : ∀ i, ok i = true) (hblkPos : 0 < blkSz)
    (hblkAl : blkSz % 4096 = 0) (hbuf : pbuf ≤ bufEnd) (hpos : 0 < l.thisRestSize) :
    TurnOk blkSz goal pbuf bufEnd future l (unsparseTurn ok pbuf l) := by
  have hexp := hrun.expect
  generalize hR : read l.world.mem l.tmpBuf l.thisRestSize.toNat ++ future = R at hexp
  cases hexp with
  | totalHead header cs hs hlen hblk hlt hrem =>
    simp only [unsparseTurn, hs]
    exact totalHeadTurn_ok hrun cs hR hs hlen hblk hlt hrem
  | chunkHead pos cs hs hblk hfs hrem =>
    simp only [unsparseTurn, hs]
    exact chunkHeadTurn_ok hrun hblkPos hblkAl hbuf hpos pos cs hR hs hblk hfs hrem
  | chunkData n data cs hs hblk hdata hlen hn hlt hfit hrem =>
    simp only [unsparseTurn, hs]
    exact chunkDataTurn_ok hrun hok hbuf hpos n data cs hR hs hblk hdata hlen hn hlt hfit hrem
  | chunkFillData n value cs hs hblk hval hlen hn hfit hrem =>
    simp only [unsparseTurn, hs]
    exact chunkFillDataTurn_ok hrun hok hbuf hpos n value cs hR hs hblk hval hlen hn hfit hrem

theorem parked_of_running (hzero : l.thisRestSize = 0) :
    Parked blkSz goal pbuf future l.world := by
  have hexp := hrun.expect
  have hstarted : l.world.statics.sparseFormatType ≠ .totalHead := by
    intro hc
    have := hrun.header hc
    simp only [sparseHeaderSize] at this
    omega
  rw [hzero, Int.toNat_zero] at hexp
  simp only [Memory.read, nil_append] at hexp
  refine ⟨?_, ?_, ?_, hstarted⟩
  · rw [hrun.noCarry]
    simpa only [Memory.read, nil_append] using hexp
  · rw [hrun.noCarry]
    cases hexp with
    | totalHead header cs hs => exact absurd hs hstarted
    | chunkHead pos cs hs => simp only [need, hs, chunkHeaderSize]; omega
    | chunkData n data cs hs _ _ hlen hn => simp only [need, hs, hlen]; omega
    | chunkFillData n value cs hs => simp only [need, hs]; omega
  · rw [hrun.noCarry]
    omega

end

theorem unsparseLoop_parked (hok : ∀ i, ok i = true) (hblkPos : 0 < blkSz)
    (hblkAl : blkSz % 4096 = 0) (hbuf : pbuf ≤ bufEnd) (fuel : Nat) (l : Loop)
    (hrun : Running blkSz goal bufEnd future l) (hfuel : l.thisRestSize.toNat + 2 ≤ fuel) :
    ∃ w, unsparseLoop ok pbuf fuel l = (0, w) ∧ Parked blkSz goal pbuf future w := by
  induction fuel generalizing l with
  | zero => omega
  | succ k ih =>
    have hnn := hrun.rest_nonneg
    simp only [unsparseLoop]
    split_ifs with hpos
    · rcases unsparseTurn_running hrun hok hblkPos hblkAl hbuf hpos with ⟨l', hturn, hcase⟩
      rw [hturn]
      simp only []
      rcases hcase with ⟨hrun', hless⟩ | ⟨hzero, hparked⟩
      · have hnn' := hrun'.rest_nonneg
        exact ih l' hrun' (by omega)
      -- The loop condition fails at once.
      refine ⟨l'.world, ?_, hparked⟩
      cases k with
      | zero => omega
      | succ j =>
        simp only [unsparseLoop]
        rw [if_neg (by omega)]
    · exact ⟨l.world, rfl, parked_of_running hrun (by omega)⟩

end Turns

end Brandy.Sparse
