import Brandy.Library.Ram

/-!
# Compressed Images

How `load_comp_image` from `nboot/main/load_comp_image.c` moves a decompressed image to its run
address, with `memcpy` and `memcpy_large` from `common/memcpy_sunxi.c`. Addresses and `long` have 32
bits.

## Main definitions

* `memcpy`, `memcpyLarge`: The copies of the SPL.
* `relocate`: The move of the image.
-/

namespace Brandy.CompImage

/-- The loop over words, whether four or one of them at a time. -/
def copyWords (m : Ram 32) (dst src : BitVec 32) : Nat → Ram 32
  | 0 => m
  | n + 1 => copyWords (m.write dst (m.read src 4)) (dst + 4) (src + 4) n

/-- `memcpy` of the SPL: words as long as there are any if both addresses are aligned, and bytes. -/
def memcpy (m : Ram 32) (dst src : BitVec 32) (len : Nat) : Ram 32 :=
  if 16 ≤ len ∧ dst.toNat % 4 = 0 ∧ src.toNat % 4 = 0 then
    let words := len / 16 * 4 + len % 16 / 4
    (copyWords m dst src words).memcpy (dst + BitVec.ofNat 32 (words * 4))
      (src + BitVec.ofNat 32 (words * 4)) (len % 4)
  else m.memcpy dst src len

/-- The bytes at `dst` are copied to `image_base`, by way of the place behind it if `dst` is not far
    enough away. -/
def relocate (m : Ram 32) (dst imageBase : BitVec 32) (dstlen : Nat) : Ram 32 :=
  let l := imageBase - BitVec.ofNat 32 dstlen
  let h := imageBase + BitVec.ofNat 32 dstlen
  if l < dst ∧ dst < h then memcpy (memcpy m h dst dstlen) imageBase h dstlen
  else memcpy m imageBase dst dstlen

/-- Long words of `memcpy_large`, one after the other. -/
def copyLongs (m : Ram 32) (dst src : BitVec 32) : Nat → Ram 32
  | 0 => m
  | n + 1 => copyLongs (m.write dst (m.read src 8)) (dst + 8) (src + 8) n

/-- The second loop of `memcpy_large`. Its count is unsigned and goes down by 8. -/
def copyRest : Nat → Ram 32 → BitVec 32 → BitVec 32 → Nat → Option (Ram 32)
  | 0, _, _, _, _ => none
  | fuel + 1, m, dst, src, len =>
    if 0 < len then
      copyRest fuel (m.write dst (m.read src 8)) (dst + 8) (src + 8) ((len + 2 ^ 32 - 8) % 2 ^ 32)
    else some m

/-- `memcpy_large`. The first loop copies four long words in a turn. -/
def memcpyLarge (fuel : Nat) (m : Ram 32) (dst src : BitVec 32) (len : Nat) : Option (Ram 32) :=
  let longs := len / 32 * 4
  copyRest fuel (copyLongs m dst src longs) (dst + BitVec.ofNat 32 (longs * 8))
    (src + BitVec.ofNat 32 (longs * 8)) (len % 32)

end Brandy.CompImage
