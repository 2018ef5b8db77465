import Brandy.Theory.Sparse.Turns

/-!
# Decoding Does Not Depend on the Cuts

The pieces of an image may be cut anywhere: inside a chunk header, inside a fill word, inside the
data of a raw chunk. The result is the same flash, but only cuts between words give the same
checksum.

The sum of carried and new bytes is an `int` in the source. A call where it reaches `2 ^ 31` starts
with a negative length, skips the loop, drops the piece and returns `0`.

## Main definitions

* `feed`, `feedAll`: One call by the caller, and a run of calls.
* `NoOverflow`: No call of a run starts from a negative length.

## Theorems

* `feedAll_eq_expand`: A run writes what the image means.
* `checksum_of_aligned`: The checksum of pieces that are cut between words.
-/

namespace Brandy.Sparse

open Memory Word List

/-- One piece as the caller hands it over: its bytes, and the content of the memory nobody promised
    to leave alone. -/
structure Feed where
  piece : List UInt8
  noise : Mem

/-- The memory a call starts from: the 8192 bytes in front of `pbuf` are kept, the piece is at
    `pbuf`, the rest is arbitrary. -/
def deliver (pbuf : Int) (m : Mem) (f : Feed) : Mem :=
  fun x => if pbuf - 8192 ≤ x ∧ x < pbuf then m x else store f.noise pbuf f.piece x

/-- The world a call starts from. -/
def World.deliver (w : World) (pbuf : Int) (f : Feed) : World :=
  { w with mem := Sparse.deliver pbuf w.mem f }

/-- One call of `unsparse_direct_write` by the caller. -/
def feed (ok : Nat → Bool) (pbuf : Int) (w : World) (f : Feed) : Int × World :=
  unsparseDirectWrite ok (w.deliver pbuf f) pbuf f.piece.length

/-- A run of calls: the return codes and the final world. -/
def feedAll (ok : Nat → Bool) (pbuf : Int) : World → List Feed → List Int × World
  | w, [] => ([], w)
  | w, f :: fs =>
    let r := feed ok pbuf w f
    let rs := feedAll ok pbuf r.2 fs
    (r.1 :: rs.1, rs.2)

-- Not a `rfl` lemma: the kernel would have to compare two decoder runs to check it.
theorem feedAll_cons (ok : Nat → Bool) (pbuf : Int) (w : World) (f : Feed) (fs : List Feed) :
    feedAll ok pbuf w (f :: fs) =
      ((feed ok pbuf w f).1 :: (feedAll ok pbuf (feed ok pbuf w f).2 fs).1,
      (feedAll ok pbuf (feed ok pbuf w f).2 fs).2) := by
  rw [feedAll]

/-- No call of a run starts from a length that is negative as an `int`. -/
def NoOverflow (ok : Nat → Bool) (pbuf : Int) : World → List Feed → Prop
  | _, [] => True
  | w, f :: fs =>
    w.statics.lastRestSize + f.piece.length < 2 ^ 31 ∧ NoOverflow ok pbuf (feed ok pbuf w f).2 fs

/-- The bytes of a run of pieces. -/
def stream (fs : List Feed) : List UInt8 := fs.flatMap Feed.piece

section Runs

variable {ok : Nat → Bool} {blkSz : Nat} {goal : SpriteFlash} {pbuf : Int}
  {future : List UInt8}

theorem read_deliver {m : Mem} (f : Feed) (carry : Nat) (hroom : carry ≤ 8192) :
    read (deliver pbuf m f) (pbuf - carry) (carry + f.piece.length)
      = read m (pbuf - carry) carry ++ f.piece := by
  rw [read_add, show pbuf - (carry : Int) + carry = pbuf by ring]
  congr 1
  · refine read_congr _ (fun x hlo hhi => ?_)
    simp only [deliver]
    rw [if_pos (by omega)]
  · conv_rhs => rw [← read_store f.noise pbuf f.piece]
    refine read_congr _ (fun x hlo hhi => ?_)
    simp only [deliver]
    rw [if_neg (by omega)]

theorem feed_parked (hok : ∀ i, ok i = true) (hblkPos : 0 < blkSz) (hblkAl : blkSz % 4096 = 0)
    (w : World) {f : Feed}
    (hexp : Expect blkSz goal w.flash w.statics
      (read w.mem (pbuf - w.statics.lastRestSize) w.statics.lastRestSize ++ (f.piece ++ future)))
    (hroom : w.statics.lastRestSize < 8192)
    (hheader : w.statics.sparseFormatType = .totalHead →
      sparseHeaderSize ≤ w.statics.lastRestSize + f.piece.length)
    (hint : w.statics.lastRestSize + f.piece.length < 2 ^ 31) :
    ∃ w', feed ok pbuf w f = (0, w') ∧ Parked blkSz goal pbuf future w' := by
  have hs : s32 ((w.statics.lastRestSize : Int) + f.piece.length)
      = ((w.statics.lastRestSize + f.piece.length : Nat) : Int) := by
    rw [s32_of_range]
    rfl
  have hrun : Running blkSz goal (pbuf + f.piece.length) future
      (unsparseStart (w.deliver pbuf f) pbuf f.piece.length) := by
    refine ⟨?_, ?_, ?_, rfl, ?_, ?_⟩
    · simp only [unsparseStart, World.deliver, hs]
      omega
    · simp only [unsparseStart, World.deliver, hs]
      omega
    · simp only [unsparseStart, World.deliver, hs]
      push_cast
      ring
    · intro hc
      have := hheader hc
      simp only [unsparseStart, World.deliver, hs]
      omega
    · simp only [unsparseStart, World.deliver, World.withStatics, hs, Int.toNat_natCast]
      rw [read_deliver f _ (by omega), append_assoc]
      exact hexp.congr rfl rfl rfl rfl
  exact unsparseLoop_parked hok hblkPos hblkAl (by omega) _ _ hrun (by omega)

theorem flash_eq_of_parked_nil (w : World) (h : Parked blkSz goal pbuf [] w) : w.flash = goal := by
  have hexp := h.expect
  have hshort := h.short
  rw [append_nil] at hexp
  generalize hR : read w.mem (pbuf - w.statics.lastRestSize) w.statics.lastRestSize = R at hexp
  have hlen : R.length = w.statics.lastRestSize := by rw [← hR, length_read]
  cases hexp with
  | totalHead header cs hs => exact absurd hs h.started
  | chunkHead pos cs hs hblk hpos hrem =>
    simp only [need, hs, chunkHeaderSize] at hshort
    have hcs := chunks_eq_nil_of_short blkSz cs (by omega)
    subst hcs
    exact hrem.expand_eq
  | chunkData n data cs hs hblk hdata hchunk =>
    simp only [need, hs] at hshort
    rw [length_append] at hlen
    omega
  | chunkFillData n value cs hs =>
    simp only [need, hs] at hshort
    rw [length_append, length_leBytes] at hlen
    omega

theorem feedAll_parked (hok : ∀ i, ok i = true) (hblkPos : 0 < blkSz)
    (hblkAl : blkSz % 4096 = 0) (fs : List Feed) (w : World)
    (hp : Parked blkSz goal pbuf (stream fs) w) (hno : NoOverflow ok pbuf w fs) :
    ∃ w', feedAll ok pbuf w fs = (replicate fs.length 0, w') ∧
      Parked blkSz goal pbuf [] w' := by
  induction fs generalizing w with
  | nil => exact ⟨w, rfl, hp⟩
  | cons f fs ih =>
    rcases feed_parked hok hblkPos hblkAl w hp.expect hp.room
      (fun hc => absurd hc hp.started) hno.1 with ⟨w1, hfeed, hp1⟩
    have hno1 : NoOverflow ok pbuf w1 fs := by
      have := hno.2
      rwa [hfeed] at this
    rcases ih w1 hp1 hno1 with ⟨w2, hrest, hp2⟩
    refine ⟨w2, ?_, hp2⟩
    rw [feedAll_cons, hfeed]
    simp only [hrest, length_cons, replicate_succ]

end Runs

theorem unsparseProbe_detect (m : Mem) {source : Int} {start : Nat} (s₀ s : Statics)
    (h : unsparseProbe m source start s₀ = (1, s)) :
    s.sparseFormatType = .totalHead ∧ s.lastRestSize = 0 ∧ s.flashStart = start := by
  simp only [unsparseProbe] at h
  split at h
  · simp only [Prod.mk.injEq, reduceCtorEq, false_and] at h
  split at h
  · simp only [Prod.mk.injEq, reduceCtorEq, false_and] at h
  · simp only [Prod.mk.injEq, true_and] at h
    rw [← h]
    exact ⟨rfl, rfl, rfl⟩

/-- Sparse decoding does not depend on how the image is cut: when no call overflows, every call
    returns `0`, and the flash ends up as the reference expansion. -/
theorem feedAll_eq_expand (ok : Nat → Bool) (hok : ∀ i, ok i = true) (img : SparseImage)
    (m : Mem) (source : Int) (start : Nat) (hstart : start < 2 ^ 32) (s₀ s : Statics)
    (hprobe : unsparseProbe m source start s₀ = (1, s)) (pbuf : Int) (mem : Mem)
    (flash : SpriteFlash) (first : Feed) (feeds : List Feed)
    (hfirst : sparseHeaderSize ≤ first.piece.length)
    (hcut : stream (first :: feeds) = img.bytes)
    (hfits : Fits img.blkSz start img.chunks)
    (hno : NoOverflow ok pbuf ⟨s, mem, flash, 0⟩ (first :: feeds)) :
    (feedAll ok pbuf ⟨s, mem, flash, 0⟩ (first :: feeds)).1
        = replicate (first :: feeds).length 0 ∧
      (feedAll ok pbuf ⟨s, mem, flash, 0⟩ (first :: feeds)).2.flash
        = expand img.blkSz flash start img.chunks := by
  rcases unsparseProbe_detect m s₀ s hprobe with ⟨htype, hrest, hfs⟩
  have hexp : Expect img.blkSz (expand img.blkSz flash start img.chunks) flash s
      (read mem (pbuf - s.lastRestSize) s.lastRestSize ++ (first.piece ++ stream feeds)) := by
    have hbytes : first.piece ++ stream feeds = img.header ++ encodeAll img.blkSz img.chunks :=
      hcut
    rw [hrest, hbytes]
    exact .totalHead img.header img.chunks htype img.header_length rfl (by rw [hfs]; exact hstart)
      (by rw [hfs]; exact ⟨hfits, img.chunks_ok, rfl⟩)
  rcases feed_parked hok img.blkSz_pos img.blkSz_aligned ⟨s, mem, flash, 0⟩ hexp
    (by simp only [hrest]; omega) (fun _ => by simp only [hrest]; omega) hno.1 with
    ⟨w1, hfeed, hp1⟩
  have hno1 : NoOverflow ok pbuf w1 feeds := by
    have := hno.2
    rwa [hfeed] at this
  rcases feedAll_parked hok img.blkSz_pos img.blkSz_aligned feeds w1 hp1 hno1 with
    ⟨w2, hall, hp2⟩
  refine ⟨?_, ?_⟩
  · rw [feedAll_cons, hfeed]
    simp only [hall, length_cons, replicate_succ]
  · rw [feedAll_cons, hfeed]
    simp only [hall]
    exact flash_eq_of_parked_nil w2 hp2

theorem feed_overflow (ok : Nat → Bool) (pbuf : Int) (w : World) (f : Feed)
    (hlo : 2 ^ 31 ≤ w.statics.lastRestSize + f.piece.length)
    (hhi : w.statics.lastRestSize + f.piece.length < 2 ^ 32) :
    ∃ w', feed ok pbuf w f = (0, w') ∧ w'.flash = w.flash := by
  have hneg : s32 ((w.statics.lastRestSize : Int) + f.piece.length) < 0 :=
    s32_neg _ (by omega) (by omega)
  have hrest : ¬ 0 < (unsparseStart (w.deliver pbuf f) pbuf f.piece.length).thisRestSize := by
    simp only [unsparseStart, World.deliver]
    omega
  refine ⟨(unsparseStart (w.deliver pbuf f) pbuf f.piece.length).world, ?_, rfl⟩
  rw [feed, unsparseDirectWrite, unsparseLoop, if_neg hrest]

/-- An image of `2 ^ 31` bytes or more that begins with a raw chunk is lost when it is handed over
    in one piece. -/
theorem feedAll_single_dropped {ok : Nat → Bool} (pbuf : Int) {img : SparseImage} (r k : Nat)
    (data : List UInt8) (cs : List Chunk) (hchunks : img.chunks = .raw r k data :: cs)
    (hlo : 2 ^ 31 ≤ img.bytes.length) (hhi : img.bytes.length < 2 ^ 32) {w : World}
    (hrest : w.statics.lastRestSize = 0) (start : Nat) (htouched : w.flash.touched start = false)
    {noise : Mem} :
    (feedAll ok pbuf w [⟨img.bytes, noise⟩]).1 = [0] ∧
      (feedAll ok pbuf w [⟨img.bytes, noise⟩]).2.flash
        ≠ expand img.blkSz w.flash start img.chunks := by
  rcases feed_overflow ok pbuf w ⟨img.bytes, noise⟩ (by simp only []; omega)
    (by simp only []; omega) with ⟨w', hfeed, hflash⟩
  rw [feedAll_cons, hfeed, feedAll]
  refine ⟨rfl, ?_⟩
  simp only [hflash]
  intro hc
  -- The expansion writes the first sector, the dropped call does not.
  have hraw : 1 ≤ (Chunk.raw r k data).chunkSz :=
    (img.chunks_ok _ (by rw [hchunks]; exact mem_cons_self)).chunkSz_pos
  have hblk : 512 ≤ img.blkSz := by
    have h1 := img.blkSz_pos
    have h2 := img.blkSz_aligned
    simp only [SparseImage.blkSz]
    omega
  have hsec : 0 < (Chunk.raw r k data).sectors img.blkSz :=
    Nat.div_pos (le_trans hblk (Nat.le_mul_of_pos_left _ hraw)) (by norm_num)
  have ht : (expand img.blkSz w.flash start img.chunks).touched start = true := by
    rw [hchunks]
    rw [expand]
    exact expand_touched _ _ _ _ _ (if_pos ⟨le_rfl, by omega⟩)
  rw [← hc, htouched] at ht
  exact absurd ht (by simp only [Bool.false_eq_true, not_false_eq_true])

/-- The header of an image with blocks of 4096 bytes. -/
def plainHeader (totalBlks totalChunks : Nat) : List UInt8 :=
  leBytes 4 sparseHeaderMagic ++ leBytes 2 1 ++ leBytes 2 0 ++ leBytes 2 28 ++ leBytes 2 12 ++
    leBytes 4 4096 ++ leBytes 4 totalBlks ++ leBytes 4 totalChunks ++ leBytes 4 0

/-- A run of zero bytes. -/
def zeros (n : Nat) : List UInt8 := replicate n 0

theorem length_zeros (n : Nat) : (zeros n).length = n := length_replicate ..

/-- An image of `2 ^ 31 + 52` bytes: two raw chunks of zeros. -/
def longImage : SparseImage where
  header := plainHeader (2 ^ 19) 2
  chunks := [.raw 0 (2 ^ 19 - 1) (zeros ((2 ^ 19 - 1) * 4096)), .raw 0 1 (zeros 4096)]
  header_length := by decide
  blkSz_pos := by decide
  blkSz_aligned := by decide
  chunks_ok := by
    have hblk : headerField (plainHeader (2 ^ 19) 2) 12 4 = 4096 := by decide
    rw [hblk]
    intro c hc
    simp only [mem_cons, not_mem_nil, or_false] at hc
    rcases hc with rfl | rfl
    · exact ⟨by norm_num [Chunk.chunkSz], by norm_num [Chunk.chunkSz], length_zeros _⟩
    · exact ⟨by norm_num [Chunk.chunkSz], by norm_num [Chunk.chunkSz], length_zeros _⟩

theorem longImage_blkSz : longImage.blkSz = 4096 := by
  have h : headerField (plainHeader (2 ^ 19) 2) 12 4 = 4096 := by decide
  exact h

theorem length_longImage : longImage.bytes.length = 2 ^ 31 + 52 := by
  have hheader : (plainHeader (2 ^ 19) 2).length = 28 := by decide
  rw [SparseImage.bytes, longImage_blkSz, length_append]
  simp only [longImage, encodeAll, Chunk.encode, length_append, length_encodeHeader,
    length_zeros, length_nil, hheader]
  norm_num

/-- Statics as they are before the first probe. -/
def freshStatics : Statics where
  androidFormatChecksum := 0
  sparseFormatType := .unknown
  lastRestSize := 0
  chunkLength := 0
  flashStart := 0
  blkSz := 0

/-- A flash nobody has written to. -/
def blankFlash : SpriteFlash where
  byte := fun _ => 0xff
  touched := fun _ => false

/-- The statics after a header at address zero has been accepted. -/
def probedStatics (header : List UInt8) (start : Nat) : Statics :=
  (unsparseProbe (store (fun _ => 0) 0 header) 0 start freshStatics).2

theorem unsparseProbe_plainHeader (start : Nat) :
    unsparseProbe (store (fun _ => 0) 0 (plainHeader (2 ^ 19) 2)) 0 start freshStatics
      = (1, probedStatics (plainHeader (2 ^ 19) 2) start) := by
  refine Prod.ext ?_ rfl
  simp only [unsparseProbe]
  rw [if_neg (by decide), if_neg (by decide)]

/-- The long image handed over in one piece is dropped: the call returns `0`, and the flash is not
    the expansion. -/
theorem feedAll_longImage_dropped :
    unsparseProbe (store (fun _ => 0) 0 longImage.header) 0 0 freshStatics
        = (1, probedStatics longImage.header 0) ∧
      sparseHeaderSize ≤ longImage.bytes.length ∧
      stream [⟨longImage.bytes, fun _ => 0⟩] = longImage.bytes ∧
      (feedAll (fun _ => true) 8192 ⟨probedStatics longImage.header 0, fun _ => 0, blankFlash, 0⟩
        [⟨longImage.bytes, fun _ => 0⟩]).1 = [0] ∧
      (feedAll (fun _ => true) 8192 ⟨probedStatics longImage.header 0, fun _ => 0, blankFlash, 0⟩
        [⟨longImage.bytes, fun _ => 0⟩]).2.flash
        ≠ expand longImage.blkSz blankFlash 0 longImage.chunks := by
  have hprobe := unsparseProbe_plainHeader 0
  have hrest := (unsparseProbe_detect _ _ _ hprobe).2.1
  have hlen := length_longImage
  have hlo : 2 ^ 31 ≤ longImage.bytes.length := by rw [hlen]; norm_num
  have hhi : longImage.bytes.length < 2 ^ 32 := by rw [hlen]; norm_num
  refine ⟨hprobe, ?_, ?_, ?_⟩
  · rw [hlen]
    norm_num [sparseHeaderSize]
  · simp only [stream, flatMap_cons, flatMap_nil, append_nil]
  · exact feedAll_single_dropped 8192 _ _ _ _ rfl hlo hhi
      hrest 0 rfl

/-- A small image cut inside its chunk header. -/
def smallImage : SparseImage where
  header := plainHeader 3 2
  chunks := [.dontCare 0 1, .fill 0 2 0x01020304]
  header_length := by decide
  blkSz_pos := by decide
  blkSz_aligned := by decide
  chunks_ok := by
    have hblk : headerField (plainHeader 3 2) 12 4 = 4096 := by decide
    rw [hblk]
    intro c hc
    simp only [mem_cons, not_mem_nil, or_false] at hc
    rcases hc with rfl | rfl
    · exact ⟨by decide, by decide, trivial⟩
    · exact ⟨by decide, by decide, show (0x01020304 : Nat) < 2 ^ 32 by decide⟩

theorem feedAll_smallImage :
    (feedAll (fun _ => true) 8192 ⟨probedStatics (plainHeader 3 2) 16, fun _ => 0, blankFlash, 0⟩
      [⟨smallImage.bytes.take 33, fun _ => 1⟩, ⟨smallImage.bytes.drop 33, fun _ => 2⟩]).2.flash
      = expand smallImage.blkSz blankFlash 16 smallImage.chunks := by
  refine (feedAll_eq_expand (fun _ => true) (fun _ => rfl) smallImage
    (store (fun _ => 0) 0 (plainHeader 3 2)) 0 16 (by decide) freshStatics _ ?_ 8192 _ _ _ _ ?_ ?_
    ?_ ?_).2
  · exact Prod.ext (by decide) rfl
  · decide
  · simp only [stream, flatMap_cons, flatMap_nil, append_nil, take_append_drop]
  · refine ⟨fun _ => ?_, fun _ => ?_, trivial⟩
    · decide
    · decide
  · exact ⟨by decide +kernel, by decide +kernel, trivial⟩

section

variable (ok : Nat → Bool) (pbuf : Int)

theorem addSumWords_eq {m : Mem} {k : Nat} (hk : k ≤ 4) (n : Nat) (buf : Int) (sum : Nat) :
    u32 (addSumWords m n buf sum + wordAt m (buf + 4 * n) k) =
      (sum + wordSum (n + 1) (read m buf (4 * n + k))) % 2 ^ 32 := by
  induction n generalizing buf sum with
  | zero =>
    rw [addSumWords, ← Nat.cast_add, u32_natCast, wordSum, wordSum,
      take_of_length_le (by rw [length_read]; omega)]
    simp [wordAt]
  | succ n ih =>
    have hnext := ih (buf + 4) (u32 (sum + wordAt m buf 4))
    rw [show buf + 4 + 4 * (n : Int) = buf + 4 * (n + 1 : Nat) by push_cast; ring] at hnext
    have hword : wordSum (n + 2) (read m buf (4 * (n + 1) + k)) =
        wordAt m buf 4 + wordSum (n + 1) (read m (buf + 4) (4 * n + k)) := by
      rw [show 4 * (n + 1) + k = 4 + (4 * n + k) by ring, read_add, wordSum,
        take_left' (length_read _), drop_left' (length_read _)]
      rfl
    rw [addSumWords, hnext, hword, ← Nat.cast_add, u32_natCast, Nat.mod_add_mod, add_assoc]

/-- The bytes that are left over are one more word. -/
theorem addSum_eq (m : Mem) (a : Int) (n : Nat) :
    addSum m a n = wordSum (n / 4 + 1) (read m a n) % 2 ^ 32 := by
  rw [addSum, addSumWords_eq (by omega), Nat.div_add_mod, zero_add]

def Turn.world : Turn → World
  | .go l => l.world
  | .fail w => w

theorem fillWrites_checksum (value n : Nat) (w : World) :
    (fillWrites ok value n w).2.statics.androidFormatChecksum =
      w.statics.androidFormatChecksum := by
  induction n generalizing w with
  | zero => rfl
  | succ n ih =>
    simp only [fillWrites, sunxiSpriteWrite]
    split_ifs
    all_goals first | rfl | exact ih _

theorem unsparseTurn_checksum (l : Loop) :
    (unsparseTurn ok pbuf l).world.statics.androidFormatChecksum =
      l.world.statics.androidFormatChecksum := by
  unfold unsparseTurn
  split
  · rfl
  · rfl
  · unfold chunkHeadTurn chunkSwitch
    split_ifs <;> rfl
  · simp only [chunkDataTurn, sunxiSpriteWrite]
    split_ifs <;> rfl
  · simp only [chunkFillDataTurn]
    split_ifs
    all_goals first | rfl | exact fillWrites_checksum ..

theorem unsparseLoop_checksum (fuel : Nat) (l : Loop) :
    (unsparseLoop ok pbuf fuel l).2.statics.androidFormatChecksum =
      l.world.statics.androidFormatChecksum := by
  induction fuel generalizing l with
  | zero => rfl
  | succ fuel ih =>
    have hturn := unsparseTurn_checksum ok pbuf l
    rw [unsparseLoop]
    generalize unsparseTurn ok pbuf l = turn at hturn ⊢
    split_ifs
    · cases turn with
      | go l' => exact (ih l').trans hturn
      | fail w => exact hturn
    · rfl

theorem feed_checksum (w : World) (f : Feed) :
    (feed ok pbuf w f).2.statics.androidFormatChecksum =
      (w.statics.androidFormatChecksum + wordSum (f.piece.length / 4 + 1) f.piece) % 2 ^ 32 := by
  have hpiece := @read_deliver pbuf w.mem f 0 (by decide)
  simp only [Nat.cast_zero, sub_zero, zero_add, Memory.read, nil_append] at hpiece
  refine (unsparseLoop_checksum ..).trans ?_
  simp only [unsparseStart, World.withStatics, World.deliver, addSum_eq, hpiece]
  rw [← Nat.cast_add, u32_natCast, Nat.add_mod_mod]

/-- With every cut between two words the sums of the pieces add up to the sum of the image. -/
theorem feedAll_checksum {fs : List Feed} (hcuts : ∀ f ∈ fs.dropLast, f.piece.length % 4 = 0)
    (w : World) (hlt : w.statics.androidFormatChecksum < 2 ^ 32) :
    (feedAll ok pbuf w fs).2.statics.androidFormatChecksum =
      (w.statics.androidFormatChecksum + wordSum ((stream fs).length / 4 + 1) (stream fs)) %
        2 ^ 32 := by
  induction fs generalizing w with
  | nil => exact (Nat.mod_eq_of_lt (show _ + 0 < _ from hlt)).symm
  | cons f fs ih =>
    have hfeed := feed_checksum ok pbuf w f
    obtain ⟨w', hw⟩ : ∃ w', (feed ok pbuf w f).2 = w' := ⟨_, rfl⟩
    rw [hw] at hfeed
    rw [feedAll_cons, hw, stream, flatMap_cons]
    dsimp only
    cases fs with
    | nil => rwa [flatMap_nil, append_nil]
    | cons g fs =>
      rw [dropLast_cons_of_ne_nil (cons_ne_nil g fs), forall_mem_cons] at hcuts
      have hlen : f.piece.length = 4 * (f.piece.length / 4) := by omega
      have hwhole := wordSum_append ((stream (g :: fs)).length / 4 + 1) (stream (g :: fs)) hlen
      have hpiece := wordSum_append 1 [] hlen
      rw [append_nil, show wordSum 1 [] = 0 from rfl, add_zero] at hpiece
      refine (ih hcuts.2 _ (by rw [hfeed]; exact Nat.mod_lt _ (Nat.two_pow_pos 32))).trans ?_
      rw [hfeed, hpiece, Nat.mod_add_mod, add_assoc, ← hwhole, length_append, stream]
      congr 3
      omega

end

/-- The checksum of a run of calls is that of the image if every piece but the last ends between two
    words. -/
theorem checksum_of_aligned (ok : Nat → Bool) (m : Mem) (source : Int) (start : Nat)
    (s₀ s : Statics)
    (hprobe : unsparseProbe m source start s₀ = (1, s)) (pbuf : Int) (mem : Mem)
    (flash : SpriteFlash)
    (writes : Nat) (fs : List Feed) (hcuts : ∀ f ∈ fs.dropLast, f.piece.length % 4 = 0)
    (image : Mem) (a : Int) (himage : read image a (stream fs).length = stream fs) :
    (feedAll ok pbuf ⟨s, mem, flash, writes⟩ fs).2.statics.androidFormatChecksum =
      addSum image a (stream fs).length := by
  have hzero : s.androidFormatChecksum = 0 := by
    unfold unsparseProbe at hprobe
    split_ifs at hprobe
    all_goals cases hprobe
    rfl
  rw [feedAll_checksum ok pbuf hcuts _ (by rw [hzero]; decide), addSum_eq, himage, hzero, zero_add]

/-- The small image in two pieces. -/
def smallPieces (n : Nat) : List Feed :=
  [⟨smallImage.bytes.take n, fun _ => 1⟩, ⟨smallImage.bytes.drop n, fun _ => 2⟩]

theorem checksum_of_smallPieces :
    (feedAll (fun _ => true) 8192 ⟨probedStatics (plainHeader 3 2) 16, fun _ => 0, blankFlash, 0⟩
      (smallPieces 32)).2.statics.androidFormatChecksum =
      addSum (store (fun _ => 0) 0 (stream (smallPieces 32))) 0 (stream (smallPieces 32)).length :=
  checksum_of_aligned _ (store (fun _ => 0) 0 (plainHeader 3 2)) 0 16 freshStatics _
    (Prod.ext (by decide) rfl) _ _ _ _ _ (by decide) _ _ (read_store ..)

/-- With a cut inside a word both calls return 0, and the checksum is another one. -/
theorem checksum_depends_on_cut :
    let r := feedAll (fun _ => true) 8192
      ⟨probedStatics (plainHeader 3 2) 16, fun _ => 0, blankFlash, 0⟩ (smallPieces 33)
    r.1 = [0, 0] ∧ r.2.statics.androidFormatChecksum ≠
      addSum (store (fun _ => 0) 0 (stream (smallPieces 33))) 0
        (stream (smallPieces 33)).length := by
  decide +kernel

end Brandy.Sparse
