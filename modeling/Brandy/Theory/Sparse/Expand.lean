import Brandy.Core.Sparse

/-!
# What a Sparse Image Means

The reference the decoder is compared with: a raw chunk writes its bytes, a fill chunk writes its
word over and over, and a don't-care chunk only moves the cursor on.

`SparseImage` carries the conditions on a well-formed image as fields.

## Main definitions

* `Chunk`, `SparseImage`: A chunk, and a well-formed image.
* `expand`: The flash after the chunks have been expanded.

## Theorems

* `expand_touched`: What has been written stays so.
-/

namespace Brandy.Sparse

open Memory

/-- A chunk of an image. `chunkSz` counts blocks. -/
inductive Chunk where
  | raw (reserved1 chunkSz : Nat) (data : List UInt8)
  | fill (reserved1 chunkSz value : Nat)
  | dontCare (reserved1 chunkSz : Nat)

namespace Chunk

/-- The number of blocks a chunk covers. -/
def chunkSz : Chunk → Nat
  | raw _ k _ => k
  | fill _ k _ => k
  | dontCare _ k => k

/-- The number of sectors a chunk covers. -/
def sectors (blkSz : Nat) (c : Chunk) : Nat := c.chunkSz * blkSz / 512

/-- Whether a chunk writes the sectors it covers. -/
def writes : Chunk → Bool
  | raw _ _ _ => true
  | fill _ _ _ => true
  | dontCare _ _ => false

/-- The data of a chunk agrees with its header. -/
def DataOk (blkSz : Nat) : Chunk → Prop
  | raw _ k data => data.length = k * blkSz
  | fill _ _ value => value < 2 ^ 32
  | dontCare _ _ => True

/-- A chunk is well formed: it has a block, its length fits an `int`, and its data agrees with its
    header. -/
structure Ok (blkSz : Nat) (c : Chunk) : Prop where
  chunkSz_pos : 1 ≤ c.chunkSz
  length_lt : c.chunkSz * blkSz < 2 ^ 31
  dataOk : c.DataOk blkSz

/-- The twelve bytes of a chunk header. -/
def encodeHeader (chunkType reserved1 chunkSz totalSz : Nat) : List UInt8 :=
  leBytes 2 chunkType ++ (leBytes 2 reserved1 ++ (leBytes 4 chunkSz ++ leBytes 4 totalSz))

/-- The bytes of a chunk. -/
def encode (blkSz : Nat) : Chunk → List UInt8
  | raw r k data => encodeHeader chunkTypeRaw r k (12 + k * blkSz) ++ data
  | fill r k value => encodeHeader chunkTypeFill r k 16 ++ leBytes 4 value
  | dontCare r k => encodeHeader chunkTypeDontCare r k 12

/-- What a chunk does to the flash at a sector. -/
def apply (blkSz : Nat) (f : SpriteFlash) (pos : Nat) (c : Chunk) : SpriteFlash :=
  match c with
  | raw _ _ data => f.put pos (c.sectors blkSz) (fun i => data.getD i 0)
  | fill _ _ value => f.put pos (c.sectors blkSz) (fun i => (leBytes 4 value).getD (i % 4) 0)
  | dontCare _ _ => f

end Chunk

/-- The bytes of a list of chunks. -/
def encodeAll (blkSz : Nat) : List Chunk → List UInt8
  | [] => []
  | c :: cs => c.encode blkSz ++ encodeAll blkSz cs

/-- The flash after the chunks have been expanded from sector `pos` on. -/
def expand (blkSz : Nat) : SpriteFlash → Nat → List Chunk → SpriteFlash
  | f, _, [] => f
  | f, pos, c :: cs => expand blkSz (c.apply blkSz f pos) (pos + c.sectors blkSz) cs

/-- Every chunk that is written ends at or below sector `2 ^ 32`. -/
def Fits (blkSz : Nat) : Nat → List Chunk → Prop
  | _, [] => True
  | pos, c :: cs =>
    (c.writes = true → pos + c.sectors blkSz ≤ 2 ^ 32) ∧ Fits blkSz (pos + c.sectors blkSz) cs

/-- A field of a header given as bytes. -/
def headerField (header : List UInt8) (off n : Nat) : Nat := leValue ((header.drop off).take n)

/-- A well-formed sparse image. -/
structure SparseImage where
  header : List UInt8
  chunks : List Chunk
  header_length : header.length = sparseHeaderSize
  blkSz_pos : 0 < headerField header 12 4
  blkSz_aligned : headerField header 12 4 % 4096 = 0
  chunks_ok : ∀ c ∈ chunks, c.Ok (headerField header 12 4)

namespace SparseImage

/-- The block size announced by the header. -/
def blkSz (img : SparseImage) : Nat := headerField img.header 12 4

/-- The bytes of an image. -/
def bytes (img : SparseImage) : List UInt8 := img.header ++ encodeAll img.blkSz img.chunks

end SparseImage

@[simp] theorem length_encodeHeader (t r k n : Nat) :
    (Chunk.encodeHeader t r k n).length = 12 := by
  simp only [Chunk.encodeHeader, List.length_append, length_leBytes]

theorem chunk_length_ge (blkSz : Nat) (c : Chunk) : 12 ≤ (c.encode blkSz).length := by
  cases c <;> simp [Chunk.encode]

theorem chunks_eq_nil_of_short (blkSz : Nat) (cs : List Chunk)
    (h : (encodeAll blkSz cs).length < 12) : cs = [] := by
  cases cs with
  | nil => rfl
  | cons c cs =>
    have hc := chunk_length_ge blkSz c
    simp only [encodeAll, List.length_append] at h
    omega

namespace SpriteFlash

variable (f : SpriteFlash)

theorem put_congr (start n : Nat) (src src' : Nat → UInt8)
    (h : ∀ i, i < 512 * n → src i = src' i) : f.put start n src = f.put start n src' := by
  ext x
  · simp only [put]
    split_ifs
    · rw [h _ (by omega)]
    · rfl
  · rfl

theorem put_zero (start : Nat) (src : Nat → UInt8) : f.put start 0 src = f := by
  ext x
  · simp only [put]
    rw [if_neg (by omega)]
  · simp only [put]
    rw [if_neg (by omega)]

theorem put_put (start n k : Nat) (src : Nat → UInt8) :
    (f.put start n src).put (start + n) k (fun i => src (512 * n + i)) =
      f.put start (n + k) src := by
  ext x
  · simp only [put]
    by_cases hhi : 512 * (start + n) ≤ x ∧ x < 512 * (start + n + k)
    · rw [if_pos hhi, if_pos (by omega)]
      rw [show 512 * n + (x - 512 * (start + n)) = x - 512 * start by omega]
    · rw [if_neg hhi]
      split_ifs <;> first | rfl | omega
  · simp only [put]
    split_ifs <;> first | rfl | omega

end SpriteFlash

/-- A sector that was written counts as written after the chunks too. -/
theorem expand_touched (blkSz : Nat) (cs : List Chunk) (f : SpriteFlash) (pos x : Nat)
    (h : f.touched x = true) : (expand blkSz f pos cs).touched x = true := by
  induction cs generalizing f pos with
  | nil => exact h
  | cons c cs ih =>
    refine ih _ _ ?_
    cases c with
    | dontCare r k => exact h
    | _ =>
      simp only [Chunk.apply, SpriteFlash.put]
      split
      · rfl
      · exact h

end Brandy.Sparse
