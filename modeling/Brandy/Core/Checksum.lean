import Brandy.Library.Memory
import Brandy.Library.Word

/-!
# The Additive Checksum

A model of `sunxi_generate_checksum` from `board/sunxi/board_common.c`.

## Main definitions

* `sumQuads`, `sumRest`: The loop over four words at a time, and the one over the rest.
* `generateChecksum`: The checksum.
-/

namespace Brandy.Checksum

open Memory Word

def stampValue : Nat := 0x5F0A6C39

/-- The `uint` at an address. -/
def word (m : Mem) (a : Int) : Nat := leValue (read m a 4)

/-- The loop over four words at a time, with `count`, the address of `buf` and `sum`. -/
def sumQuads (m : Mem) (div : Nat) : Nat → Int → Int → Nat → Int × Int × Nat
  | 0, count, buf, sum => (count, buf, sum)
  | n + 1, count, buf, sum =>
    let sum := u32 (sum + word m buf + word m (buf + 4) + word m (buf + 8) + word m (buf + 12))
    let count := count - 4 * div
    if 4 - 1 < count then sumQuads m div n count (buf + 16) sum else (count, buf + 16, sum)

/-- The loop over the words that are left, which are at most three. -/
def sumRest (m : Mem) : Nat → Int → Int → Nat → Nat
  | 0, _, _, sum => sum
  | n + 1, count, buf, sum =>
    if 0 < count then sumRest m n (count - 1) (buf + 4) (u32 (sum + word m buf)) else sum

/-- `sunxi_generate_checksum`, of a buffer at address 0. -/
def generateChecksum (buffer : Mem) (length div srcSum : Nat) : Nat :=
  let count := length / 4
  let (count, buf, sum) := sumQuads buffer div (count + 1) count 0 0
  let sum := sumRest buffer 3 count buf sum
  u32 (sum - srcSum + stampValue)

end Brandy.Checksum
