import Brandy.Core.Gpt

/-!
# The Table of the UBI Volumes

A model of `adjust_sunxi_mbr` from `drivers/mtd/awnand/sunxi-ubi.c`. The partition table of an image
comes in four copies. The last partition takes what is left of the device, and how much that is
turns out when its volume is created.

## Main definitions

* `adjustSunxiMbr`: The length of the last partition is entered in the copies.
-/

namespace Brandy.UbiMbr

open Memory Gpt

/-- `adjust_sunxi_mbr` on the copies by their number, with at least one partition. -/
def adjustSunxiMbr (b : Board) (copies : Nat → Mem) (lastVolSects : Nat) : Nat → Mem :=
  let last := partCount (copies 0) - 1
  if lastVolSects = lenlo (copies 0) last then copies
  else
    let org := setLe (copies 0) (arrayAt last + 12) 4 lastVolSects
    let org := setLe org 0 4 (b.crc32 (read org 4 (sunxiMbrSize - 4)))
    fun i =>
      if i = 0 then org
      else if i < 4 then
        setLe (setLe (copies i) (arrayAt last + 12) 4 (lenlo org last)) 0 4 (le org 0 4)
      else copies i

end Brandy.UbiMbr
