import Brandy.Library.Memory
import Brandy.Library.Word

/-!
# The Sparse Image Decoder

A model of `sprite/sparse/sparse.c`. The decoder is fed an Android sparse image piece by piece:
every piece is copied to the same buffer `pbuf` and handed to `unsparse_direct_write`, which writes
what it can to flash and keeps the unfinished rest in memory *in front of* `pbuf`, contiguous with
the next piece.

The loop of `unsparse_direct_write` is one function per state of the format. Each turn goes on with
a new loop state or leaves the function with `-1`. The outcome of a flash write is picked from the
oracle `ok` by its number. Integers are reduced where the source assigns them: `this_rest_size`,
`unenough_length` and `tmp_down_size` are `int`, everything else is `unsigned`, and `size_t` is 32
bits wide. The progress display and its counters are left out.

## Main definitions

* `Statics`, `World`: The variables that survive a call, and what the decoder acts on.
* `unsparseProbe`: The check of the first header.
* `unsparseTurn`, `unsparseDirectWrite`: One turn of the loop, and a call.
-/

namespace Brandy.Sparse

open Memory Word

def sparseHeaderMagic : Nat := 0xed26ff3a

def sparseHeaderMajorVer : Nat := 1

/-- `sizeof(sparse_header_t)`. -/
def sparseHeaderSize : Nat := 28

/-- `sizeof(chunk_header_t)`. -/
def chunkHeaderSize : Nat := 12

def chunkTypeRaw : Nat := 0xCAC1

def chunkTypeFill : Nat := 0xCAC2

def chunkTypeDontCare : Nat := 0xCAC3

/-- A flash of 512-byte sectors. `touched` records which sectors have been written, whatever was in
    them before. -/
@[ext] structure SpriteFlash where
  byte : Nat → UInt8
  touched : Nat → Bool

/-- The flash with `n` sectors written from sector `start` on. -/
def SpriteFlash.put (f : SpriteFlash) (start n : Nat) (src : Nat → UInt8) : SpriteFlash where
  byte := fun x =>
    if 512 * start ≤ x ∧ x < 512 * (start + n) then src (x - 512 * start) else f.byte x
  touched := fun s => if start ≤ s ∧ s < start + n then true else f.touched s

/-- `sparse_format_type`: what the decoder expects next. The static starts out as zero, which is
    none of the four states. -/
inductive SparseFormatType where
  | unknown
  | totalHead
  | chunkHead
  | chunkData
  | chunkFillData
  deriving DecidableEq, Repr

/-- The static variables of the decoder. -/
structure Statics where
  androidFormatChecksum : Nat
  sparseFormatType : SparseFormatType
  lastRestSize : Nat
  chunkLength : Nat
  flashStart : Nat
  blkSz : Nat

/-- The statics, the memory, the flash, and how many writes were issued. -/
structure World where
  statics : Statics
  mem : Mem
  flash : SpriteFlash
  writes : Nat

/-- The little-endian word of `n` bytes at an address. -/
def wordAt (m : Mem) (a : Int) (n : Nat) : Nat := leValue (read m a n)

/-- The word loop of `add_sum`. -/
def addSumWords (m : Mem) : Nat → Int → Nat → Nat
  | 0, _, sum => sum
  | count + 1, buf, sum => addSumWords m count (buf + 4) (u32 (sum + wordAt m buf 4))

/-- `add_sum`: the sum of the 32-bit words of a buffer. One to three bytes left over are a word
    filled up with zeros. -/
def addSum (m : Mem) (buffer : Int) (length : Nat) : Nat :=
  u32 (addSumWords m (length / 4) buffer 0 +
    wordAt m (buffer + 4 * (length / 4 : Nat)) (length % 4))

/-- `unsparse_probe`: accept a header and reset the statics. The result is `ANDROID_FORMAT_DETECT`
    or `ANDROID_FORMAT_BAD`. -/
def unsparseProbe (m : Mem) (source : Int) (androidFormatFlashStart : Nat) (s : Statics) :
    Int × Statics :=
  if wordAt m source 4 ≠ sparseHeaderMagic then (-1, s)
  else if wordAt m (source + 4) 2 ≠ sparseHeaderMajorVer ∨
      wordAt m (source + 8) 2 ≠ sparseHeaderSize ∨
      wordAt m (source + 10) 2 ≠ chunkHeaderSize then (-1, s)
  else (1, { s with
    androidFormatChecksum := 0
    lastRestSize := 0
    chunkLength := 0
    sparseFormatType := .totalHead
    flashStart := androidFormatFlashStart })

/-- `sunxi_sprite_write`: the number of sectors written, or zero when the oracle makes this write
    fail. -/
def sunxiSpriteWrite (ok : Nat → Bool) (w : World) (start n : Nat) (src : Nat → UInt8) :
    Nat × World :=
  if ok w.writes then (n, { w with flash := w.flash.put start n src, writes := w.writes + 1 })
  else (0, { w with writes := w.writes + 1 })

/-- The locals of the decoding loop next to the world: where the undecoded bytes start and how many
    there are. -/
structure Loop where
  world : World
  tmpBuf : Int
  thisRestSize : Int

/-- What one iteration does: go round again, or leave with `-1`. -/
inductive Turn where
  | go (l : Loop)
  | fail (w : World)

/-- The statics of a world replaced. -/
def World.withStatics (w : World) (f : Statics → Statics) : World :=
  { w with statics := f w.statics }

/-- Keep the undecoded bytes for the next call: they are moved to end right in front of `pbuf`. -/
def park (pbuf : Int) (l : Loop) : Loop where
  world := { l.world with
    mem := memcpy l.world.mem (pbuf - l.thisRestSize) l.tmpBuf l.thisRestSize.toNat
    statics := { l.world.statics with lastRestSize := u32 l.thisRestSize } }
  tmpBuf := l.tmpBuf
  thisRestSize := 0

/-- `case SPARSE_FORMAT_TYPE_TOTAL_HEAD`. -/
def totalHeadTurn (l : Loop) : Turn :=
  .go {
    world := l.world.withStatics (fun s => { s with
      blkSz := wordAt l.world.mem (l.tmpBuf + 12) 4
      sparseFormatType := .chunkHead })
    tmpBuf := l.tmpBuf + sparseHeaderSize
    thisRestSize := l.thisRestSize - sparseHeaderSize }

/-- The loop behind a chunk header, with the length of the chunk noted. -/
def Loop.afterHeader (l : Loop) (chunkLength : Nat) (f : Statics → Statics) : Loop where
  world := l.world.withStatics (fun s => f { s with chunkLength := chunkLength })
  tmpBuf := l.tmpBuf + chunkHeaderSize
  thisRestSize := l.thisRestSize - chunkHeaderSize

/-- `switch (chunk->chunk_type)`, with an empty chunk skipped before it. -/
def chunkSwitch (l : Loop) (chunkType totalSz chunkLength : Nat) : Turn :=
  if chunkLength = 0 then
    .go (l.afterHeader chunkLength (fun s => { s with sparseFormatType := .chunkHead }))
  else if chunkType = chunkTypeRaw then
    if totalSz ≠ u32 (chunkLength + chunkHeaderSize) then .fail (l.afterHeader chunkLength id).world
    else .go (l.afterHeader chunkLength (fun s => { s with sparseFormatType := .chunkData }))
  else if chunkType = chunkTypeFill then
    if totalSz ≠ chunkHeaderSize + 4 then .fail (l.afterHeader chunkLength id).world
    else .go (l.afterHeader chunkLength (fun s => { s with sparseFormatType := .chunkFillData }))
  else if chunkType = chunkTypeDontCare then
    if totalSz ≠ chunkHeaderSize then .fail (l.afterHeader chunkLength id).world
    else .go (l.afterHeader chunkLength (fun s => { s with
      flashStart := u32 (s.flashStart + (chunkLength / 512 : Nat))
      sparseFormatType := .chunkHead }))
  else .fail (l.afterHeader chunkLength id).world

/-- `case SPARSE_FORMAT_TYPE_CHUNK_HEAD`. -/
def chunkHeadTurn (pbuf : Int) (l : Loop) : Turn :=
  if l.thisRestSize < chunkHeaderSize then .go (park pbuf l)
  else
    -- `chunk_type`, `chunk_sz` and `total_sz` of the header at `tmp_buf`
    chunkSwitch l (wordAt l.world.mem l.tmpBuf 2) (wordAt l.world.mem (l.tmpBuf + 8) 4)
      (u32 (wordAt l.world.mem (l.tmpBuf + 4) 4 * l.world.statics.blkSz))

/-- The part of a data chunk that is written when it is not all there: the chunk up to its last 4
    KiB when less are missing, and otherwise every whole sector at hand. -/
def tmpDownSize (thisRestSize unenoughLength : Int) : Int :=
  if unenoughLength < 4 * 1024 then s32 (thisRestSize + unenoughLength - 4 * 1024)
  else thisRestSize - thisRestSize % 512

/-- `case SPARSE_FORMAT_TYPE_CHUNK_DATA`. -/
def chunkDataTurn (ok : Nat → Bool) (pbuf : Int) (l : Loop) : Turn :=
  let chunkLength := l.world.statics.chunkLength
  let flashStart := l.world.statics.flashStart
  let src := fun (i : Nat) => l.world.mem (l.tmpBuf + i)
  let unenoughLength : Int :=
    if l.thisRestSize ≤ chunkLength then s32 (chunkLength - l.thisRestSize) else 0
  if unenoughLength = 0 then
    let (n, w) := sunxiSpriteWrite ok l.world flashStart (chunkLength / 512) src
    if n = 0 then .fail w
    else if chunkLength % 512 ≠ 0 then .fail w
    else .go {
      world := w.withStatics (fun s => { s with
        flashStart := u32 (flashStart + (chunkLength / 512 : Nat))
        chunkLength := 0
        sparseFormatType := .chunkHead })
      tmpBuf := l.tmpBuf + chunkLength
      thisRestSize := l.thisRestSize - chunkLength }
  else if l.thisRestSize < 8 * 1024 then .go (park pbuf l)
  else
    let down := tmpDownSize l.thisRestSize unenoughLength
    let (n, w) := sunxiSpriteWrite ok l.world flashStart (u32 (down / 512)) src
    if n = 0 then .fail w
    else if down % 512 ≠ 0 then .fail w
    else .go (park pbuf {
      world := w.withStatics (fun s => { s with
        flashStart := u32 (flashStart + down / 512)
        chunkLength := u32 (chunkLength - down)
        sparseFormatType := .chunkData })
      tmpBuf := l.tmpBuf + down
      thisRestSize := s32 (l.thisRestSize - down) })

/-- The bytes of `fillbuf`: one 32-bit value over and over. -/
def fillbuf (fileVal : Nat) (i : Nat) : UInt8 := (leBytes 4 fileVal).getD (i % 4) 0

/-- The loop that writes a fill chunk, eight sectors at a time. -/
def fillWrites (ok : Nat → Bool) (fileVal : Nat) : Nat → World → Bool × World
  | 0, w => (true, w)
  | count + 1, w =>
    let (n, w) := sunxiSpriteWrite ok w w.statics.flashStart 8 (fillbuf fileVal)
    if n = 0 then (false, w)
    else fillWrites ok fileVal count
      (w.withStatics (fun s => { s with flashStart := u32 (s.flashStart + 8) }))

/-- `case SPARSE_FORMAT_TYPE_CHUNK_FILL_DATA`. -/
def chunkFillDataTurn (ok : Nat → Bool) (pbuf : Int) (l : Loop) : Turn :=
  if 4 ≤ l.thisRestSize then
    if l.world.statics.chunkLength % 512 ≠ 0 then .fail l.world
    else
      let (done, w) := fillWrites ok (wordAt l.world.mem l.tmpBuf 4)
        (l.world.statics.chunkLength / 4096) l.world
      if done then .go {
        world := w.withStatics (fun s => { s with sparseFormatType := .chunkHead })
        tmpBuf := l.tmpBuf + 4
        thisRestSize := l.thisRestSize - 4 }
      else .fail w
  else .go (park pbuf l)

/-- One iteration of the decoding loop. -/
def unsparseTurn (ok : Nat → Bool) (pbuf : Int) (l : Loop) : Turn :=
  match l.world.statics.sparseFormatType with
  | .unknown => .fail l.world
  | .totalHead => totalHeadTurn l
  | .chunkHead => chunkHeadTurn pbuf l
  | .chunkData => chunkDataTurn ok pbuf l
  | .chunkFillData => chunkFillDataTurn ok pbuf l

/-- `while (this_rest_size > 0)`. Running out of fuel would give the code `1`, which the source
    never returns. -/
def unsparseLoop (ok : Nat → Bool) (pbuf : Int) : Nat → Loop → Int × World
  | 0, l => (1, l.world)
  | fuel + 1, l =>
    if 0 < l.thisRestSize then
      match unsparseTurn ok pbuf l with
      | .go l' => unsparseLoop ok pbuf fuel l'
      | .fail w => (-1, w)
    else (0, l.world)

/-- The loop state that `unsparse_direct_write` starts from: kept bytes and new piece are one range
    up to `pbuf + length`. -/
def unsparseStart (w : World) (pbuf : Int) (length : Nat) : Loop where
  world := w.withStatics (fun s => { s with
    androidFormatChecksum := u32 (s.androidFormatChecksum + addSum w.mem pbuf length)
    lastRestSize := 0 })
  tmpBuf := pbuf - w.statics.lastRestSize
  thisRestSize := s32 (w.statics.lastRestSize + length)

/-- `unsparse_direct_write`: the return code and the world afterwards. -/
def unsparseDirectWrite (ok : Nat → Bool) (w : World) (pbuf : Int) (length : Nat) :
    Int × World :=
  let l := unsparseStart w pbuf length
  unsparseLoop ok pbuf (2 * l.thisRestSize.toNat + 2) l

end Brandy.Sparse
