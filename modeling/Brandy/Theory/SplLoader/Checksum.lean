import Brandy.Core.SplLoader

/-!
# The Checksum of a Package

`verify_addsum` adds four words at a time and the rest one by one. Its count is unsigned, so for
less than four words the first loop runs around the whole memory. `sunxi_generate_checksum` has no
stamp: it takes the checksum from the sum and adds the stamp, which is the same only if the checksum
is among the words.

## Main definitions

* `Right`: The sum of all words, with the stamp in the place of the checksum.
* `Exact`: Every routine compares that sum.

## Theorems

* `verifyAddsum_eq_zero_iff`: When a package passes.
* `checksums_exact_iff`: When all routines agree.
-/

namespace Brandy.SplLoader

open Memory (leValue leBytes wordSum wordSum_append leBytes_leValue)
open Word List Option

theorem word_lt {ram : Ram 32} {a : BitVec 32} : word ram a < 2 ^ 32 := by
  have h := Memory.leValue_lt (ram.read a 4)
  rwa [Ram.length_read] at h

/-- The sum of `n` words from an address on. -/
def sumWords (ram : Ram 32) : BitVec 32 → Nat → Nat
  | _, 0 => 0
  | a, n + 1 => word ram a + sumWords ram (a + 4) n

variable (ram : Ram 32)

theorem sumWords_add_four (a : BitVec 32) (n : Nat) :
    sumWords ram a (n + 4) = quad ram a + sumWords ram (a + 16) n := by
  have h8 : a + 4 + 4 = a + 8 := BitVec.add_assoc a 4 4
  have h12 : a + 8 + 4 = a + 12 := BitVec.add_assoc a 8 4
  have h16 : a + 12 + 4 = a + 16 := BitVec.add_assoc a 12 4
  simp only [sumWords, quad, h8, h12, h16]
  omega

theorem addRest_eq (count : Nat) (buf : BitVec 32) {sum : Nat}
    (hsum : sum < 2 ^ 32) :
    addRest ram count buf sum = (sum + sumWords ram buf count) % 2 ^ 32 := by
  induction count generalizing buf sum with
  | zero => exact (Nat.mod_eq_of_lt hsum).symm
  | succ count ih =>
    rw [addRest, sumWords, ih _ (Nat.mod_lt _ (by decide))]
    omega

theorem addRest_addQuads {n count : Nat} (buf : BitVec 32) (sum : Nat)
    (hlo : 4 ≤ count) (hhi : count < 2 ^ 32) (hn : count / 4 ≤ n) :
    addRest ram (addQuads ram n count buf sum).1 (addQuads ram n count buf sum).2.1
      (addQuads ram n count buf sum).2.2 = (sum + sumWords ram buf count) % 2 ^ 32 := by
  induction n generalizing count buf sum with
  | zero => omega
  | succ n ih =>
    obtain ⟨rest, rfl⟩ : ∃ rest, count = rest + 4 := ⟨count - 4, by omega⟩
    have hcount : u32 (((rest + 4 : Nat) : Int) - 4) = rest :=
      u32_of_range rest (by omega) (by omega)
    simp only [addQuads, hcount]
    rw [sumWords_add_four]
    split
    · rw [ih _ _ (by omega) (by omega) (by omega)]
      omega
    · refine (addRest_eq ram rest (buf + 16) (Nat.mod_lt _ (by decide))).trans ?_
      omega

theorem ite_eq_zero_iff (p : Prop) [Decidable p] : (if p then (0 : Int) else -1) = 0 ↔ p := by
  simp

section

variable (ram : Ram 32) (memBase : BitVec 32) {size : Nat} (hlo : 16 ≤ size) (hhi : size < 2 ^ 32)
include hlo hhi

theorem verifyAddsumForKernel_eq_zero_iff (srcSum : Nat) :
    verifyAddsumForKernel ram memBase size srcSum = 0 ↔
      sumWords ram memBase (size / 4) % 2 ^ 32 = srcSum := by
  simp only [verifyAddsumForKernel]
  rw [addRest_addQuads _ _ _ (by omega) (by omega) (by omega), ite_eq_zero_iff, zero_add]

theorem verifyAddsum_eq_zero_iff :
    verifyAddsum ram memBase size = 0 ↔
      sumWords (ram.write (memBase + 20) (leBytes 4 stampValue)) memBase (size / 4) % 2 ^ 32 =
        word ram (memBase + 20) :=
  verifyAddsumForKernel_eq_zero_iff _ memBase hlo hhi _

end

theorem sumWords_eq_wordSum (ram : Ram 32) (a : BitVec 32) (n : Nat) :
    sumWords ram a n = wordSum n (ram.read a (4 * n)) := by
  induction n generalizing a with
  | zero => rfl
  | succ n ih =>
    have hlen := Ram.length_read ram a 4
    rw [show 4 * (n + 1) = 4 + 4 * n by omega, Ram.read_add, sumWords, wordSum,
      take_left' hlen, drop_left' hlen, ih]
    rfl

/-- A package with the stamp in place of its checksum. -/
def stamp (bs : List UInt8) : List UInt8 := bs.take 20 ++ leBytes 4 stampValue ++ bs.drop 24

theorem length_stamp (bs : List UInt8) (h : 24 ≤ bs.length) : (stamp bs).length = bs.length := by
  have hfour : (leBytes 4 stampValue).length = 4 := rfl
  rw [stamp, length_append, length_append, length_take, length_drop, hfour]
  omega

section

variable (ram : Ram 32) (base : BitVec 32) {bs : List UInt8}

theorem write_behind (h : 20 ≤ bs.length) (hhi : bs.length ≤ 2 ^ 32) :
    ram.write base bs = (ram.write base (bs.take 20)).write (base + 20) (bs.drop 20) := by
  have happend := Ram.write_append ram base (bs.take 20) (bs.drop 20)
    (by rw [length_take, length_drop]; omega)
  rw [take_append_drop, length_take, Nat.min_eq_left h] at happend
  exact happend.symm

theorem write_stamp (h : 24 ≤ bs.length) (hhi : bs.length ≤ 2 ^ 32) :
    (ram.write base bs).write (base + 20) (leBytes 4 stampValue) = ram.write base (stamp bs) := by
  have hlen := length_stamp bs h
  have htake : (bs.take 20).length = 20 := length_take_of_le (by omega)
  have hfour : (leBytes 4 stampValue).length = 4 := rfl
  rw [write_behind ram base (by omega) hhi, @write_behind ram base (stamp bs) (by omega) (by omega),
    Ram.write_write _ _ (by rw [length_drop]; omega), drop_drop, stamp, append_assoc,
    take_left' htake, drop_left' htake]
  rfl

theorem read_addSum (h : 24 ≤ bs.length) (hhi : bs.length < 2 ^ 32) :
    (ram.write base bs).read (base + 20) 4 = (bs.drop 20).take 4 := by
  rw [write_behind ram base (by omega) hhi.le]
  exact Ram.read_write_take (by rw [length_drop]; omega) (by rw [length_drop]; omega)

theorem verifyAddsum_write {size : Nat} (hlo : 24 ≤ size) (hle : size ≤ bs.length)
    (hhi : bs.length < 2 ^ 32) :
    verifyAddsum (ram.write base bs) base size = 0 ↔
      wordSum (size / 4) ((stamp bs).take (4 * (size / 4))) % 2 ^ 32 =
        leValue ((bs.drop 20).take 4) := by
  have hlen := length_stamp bs (by omega)
  rw [verifyAddsum_eq_zero_iff _ _ (by omega) (by omega), sumWords_eq_wordSum,
    write_stamp ram base (by omega) hhi.le, Ram.read_write_take (by omega) (by omega), word,
    read_addSum ram base (by omega) hhi]

theorem verifyAddsum_write_zeros {k m size : Nat} (hlen : bs.length = 4 * k) (hk : 24 ≤ 4 * k)
    (hlo : 4 * k ≤ size) (hle : size ≤ 4 * k + m) (hhi : 4 * k + m < 2 ^ 32)
    (h : wordSum k (stamp bs) % 2 ^ 32 = leValue ((bs.drop 20).take 4)) :
    verifyAddsum (ram.write base (bs ++ replicate m 0)) base size = 0 := by
  have hwhole : (bs ++ replicate m (0 : UInt8)).length = 4 * k + m := by
    rw [length_append, length_replicate, hlen]
  have hstamp : stamp (bs ++ replicate m 0) = stamp bs ++ replicate m 0 := by
    unfold stamp
    rw [take_append_of_le_length (by omega), drop_append_of_le_length (by omega),
      append_assoc _ _ (replicate m 0)]
  have hslen := length_stamp bs (by omega)
  rw [verifyAddsum_write ram base (by omega) (by omega) (by omega), hstamp, take_append,
    take_of_length_le (by omega), take_replicate,
    Memory.wordSum_append_replicate _ (hslen.trans hlen) (by omega), h,
    drop_append_of_le_length (by omega),
    take_append_of_le_length (by rw [length_drop]; omega)]

end

theorem map_getD_range (bs : List UInt8) (n : Nat) (h : bs.length ≤ n) :
    ((List.range n).map fun i => bs.getD i 0) = bs ++ replicate (n - bs.length) 0 := by
  refine ext_getElem? fun i => ?_
  rw [getElem?_map]
  by_cases hi : i < bs.length
  · rw [getElem?_append_left hi, getElem?_range (by omega), map_some,
      getD_eq_getElem?_getD, getElem?_eq_getElem hi]
    rfl
  rw [getElem?_append_right (by omega), getElem?_replicate]
  by_cases hn : i < n
  · rw [getElem?_range hn, if_pos (by omega), map_some,
      getD_eq_default _ _ (by omega)]
  · rw [getElem?_eq_none (by rw [length_range]; omega), if_neg (by omega)]
    rfl

section

/-- The sum of all words, with the stamp in the place of the checksum, is the checksum. -/
def Right (ram : Ram 32) (memBase : BitVec 32) (size : Nat) : Prop :=
  sumWords (ram.write (memBase + 20) (leBytes 4 stampValue)) memBase (size / 4) % 2 ^ 32 =
    word ram (memBase + 20)

/-- Every routine compares the plain sum of the words, which does not depend on what is outside of
    them, and `verify_addsum` puts back what it has changed. -/
structure Exact (memBase : BitVec 32) (size : Nat) : Prop where
  neon : ∀ ram, verifyAddsumNeon ram memBase size = 0 ↔ Right ram memBase size
  scalar : ∀ ram, verifyAddsum ram memBase size = 0 ↔ Right ram memBase size
  sunxi : ∀ ram, sunxiVerifyChecksum ram memBase size (word ram (memBase + 20)) = 0 ↔
    Right ram memBase size
  kernel : ∀ ram srcSum, verifyAddsumForKernel ram memBase size srcSum = 0 ↔
    sumWords ram memBase (size / 4) % 2 ^ 32 = srcSum
  unchanged : ∀ ram, restored ram memBase = ram
  outside : ∀ ram ram' : Ram 32, ram.read memBase size = ram'.read memBase size →
    (Right ram memBase size ↔ Right ram' memBase size) ∧
      sumWords ram memBase (size / 4) = sumWords ram' memBase (size / 4)

variable {ram : Ram 32} {memBase : BitVec 32} {size : Nat}

theorem addRest_addVectors (count : Nat) (buf : BitVec 32) (lanes : Nat × Nat × Nat × Nat) :
    addRest ram (addVectors ram count buf lanes).1 (addVectors ram count buf lanes).2.1
      (laneSum (addVectors ram count buf lanes).2.2) =
      (laneSum lanes + sumWords ram buf count) % 2 ^ 32 := by
  fun_induction addVectors ram count buf lanes with
  | case1 count buf a b c d ih =>
    rw [ih, sumWords_add_four]
    simp only [laneSum, quad]
    omega
  | case2 count buf lanes => exact addRest_eq ram _ _ (Nat.mod_lt _ (by decide))

theorem verifyAddsumNeon_eq_zero_iff :
    verifyAddsumNeon ram memBase size = 0 ↔ Right ram memBase size := by
  simp only [verifyAddsumNeon]
  rw [addRest_addVectors, ite_eq_zero_iff, laneSum, Nat.zero_mod, zero_add]
  rfl

theorem sumQuads_eq {n count : Nat} (buf : BitVec 32) (sum : Nat) (hlo : 4 ≤ count)
    (hhi : count < 2 ^ 32) : sumQuads ram n count buf sum =
      (((addQuads ram n count buf sum).1 : Int), (addQuads ram n count buf sum).2) := by
  induction n generalizing count buf sum with
  | zero => rfl
  | succ n ih =>
    obtain ⟨rest, rfl⟩ : ∃ rest, count = rest + 4 := ⟨count - 4, by omega⟩
    have hrest : ((rest + 4 : Nat) : Int) - 4 = rest := by omega
    simp only [sumQuads, addQuads, hrest, u32_of_range rest rfl (by omega)]
    split_ifs
    · exact ih _ _ (by omega) (by omega)
    · omega
    · omega
    · rfl

theorem sunxiVerifyChecksum_eq_zero_iff (hlo : 16 ≤ size) (hhi : size < 2 ^ 32) (srcSum : Nat) :
    sunxiVerifyChecksum ram memBase size srcSum = 0 ↔
      u32 ((sumWords ram memBase (size / 4) % 2 ^ 32 : Nat) - srcSum + stampValue) = srcSum := by
  simp only [sunxiVerifyChecksum]
  rw [sumQuads_eq _ _ (by omega) (by omega), Int.toNat_natCast,
    addRest_addQuads _ _ _ (by omega) (by omega) (by omega), ite_eq_zero_iff, zero_add]

theorem wordSum_stamp {k : Nat} {bs : List UInt8} (hlen : bs.length = 4 * (6 + k)) :
    wordSum (6 + k) (stamp bs) + leValue ((bs.drop 20).take 4) =
      wordSum (6 + k) bs + stampValue := by
  have htake : (bs.take 20).length = 4 * 5 := length_take_of_le (by omega)
  have hfour : (leBytes 4 stampValue).length = 4 := rfl
  have hword : ∀ xs, wordSum (k + 1) xs = leValue (xs.take 4) + wordSum k (xs.drop 4) :=
    fun _ => rfl
  have hvalue : leValue (leBytes 4 stampValue) = stampValue := by decide
  have hplain := wordSum_append (k + 1) (bs.drop 20) htake
  have hstamp := wordSum_append (k + 1) (leBytes 4 stampValue ++ bs.drop 24) htake
  rw [take_append_drop, hword, show drop 4 (drop 20 bs) = drop 24 bs from drop_drop] at hplain
  rw [hword, take_left' hfour, drop_left' hfour, hvalue] at hstamp
  rw [stamp, append_assoc, show 6 + k = 5 + (k + 1) by omega, hstamp, hplain]
  omega

theorem sumWords_stamp {k : Nat} (hhi : 4 * (6 + k) < 2 ^ 32) :
    sumWords (ram.write (memBase + 20) (leBytes 4 stampValue)) memBase (6 + k) +
      word ram (memBase + 20) = sumWords ram memBase (6 + k) + stampValue := by
  obtain ⟨bs, hbs⟩ : ∃ bs, ram.read memBase (4 * (6 + k)) = bs := ⟨_, rfl⟩
  have hlen : bs.length = 4 * (6 + k) := by rw [← hbs, Ram.length_read]
  have hslen := length_stamp bs (by omega)
  have hself : (ram.write (memBase + BitVec.ofNat 32 0) []).write memBase _ = ram :=
    Ram.write_read_around ram memBase (Nat.zero_le (4 * (6 + k))) hhi.le
  have hstamp := @write_stamp ram memBase bs (by omega) (by omega)
  have hsum := @read_addSum ram memBase bs (by omega) (by omega)
  rw [Ram.write_nil, hbs] at hself
  rw [hself] at hstamp hsum
  rw [sumWords_eq_wordSum, sumWords_eq_wordSum, word, hsum, hstamp, hbs,
    Ram.read_write_take (by omega) (by omega), take_of_length_le (by omega), wordSum_stamp hlen]

section

variable (hlo : 24 ≤ size) (hhi : size < 2 ^ 32)
include hlo hhi

theorem sunxi_right (ram : Ram 32) :
    sunxiVerifyChecksum ram memBase size (word ram (memBase + 20)) = 0 ↔
      Right ram memBase size := by
  obtain ⟨k, hk⟩ : ∃ k, size / 4 = 6 + k := ⟨size / 4 - 6, by omega⟩
  have hstamp := @sumWords_stamp ram memBase k (by omega)
  have hlt : word ram (memBase + 20) < 2 ^ 32 := word_lt
  rw [sunxiVerifyChecksum_eq_zero_iff (by omega) hhi, Right, hk]
  simp only [u32]
  omega

theorem exact_of_le : Exact memBase size where
  neon _ := verifyAddsumNeon_eq_zero_iff
  scalar ram := verifyAddsum_eq_zero_iff ram memBase (by omega) hhi
  sunxi := sunxi_right hlo hhi
  kernel ram := verifyAddsumForKernel_eq_zero_iff ram memBase (by omega) hhi
  unchanged ram := by
    have haround : (ram.write (memBase + 20 + BitVec.ofNat 32 0) (leBytes 4 stampValue)).write
        (memBase + 20) (ram.read _ 4) = ram := Ram.write_read_around ram _ le_rfl (by decide)
    have hbytes := leBytes_leValue (ram.read (memBase + 20) 4)
    rw [Ram.length_read] at hbytes
    rwa [BitVec.add_zero, ← hbytes] at haround
  outside ram ram' h := by
    have hsum : sumWords ram memBase (size / 4) = sumWords ram' memBase (size / 4) := by
      rw [sumWords_eq_wordSum, sumWords_eq_wordSum]
      exact congrArg _ (Ram.read_congr fun i hi => Ram.eq_of_read h (by omega))
    have hsrc : word ram (memBase + 20) = word ram' (memBase + 20) := by
      refine congrArg leValue (Ram.read_congr fun i hi => ?_)
      have hbyte := Ram.eq_of_read h (show 20 + i < size by omega)
      rwa [← Ram.add_ofNat_add] at hbyte
    refine ⟨?_, hsum⟩
    rw [← sunxi_right hlo hhi, ← sunxi_right hlo hhi,
      sunxiVerifyChecksum_eq_zero_iff (by omega) hhi,
      sunxiVerifyChecksum_eq_zero_iff (by omega) hhi, hsum, hsrc]

end

/-- With nothing but zeros the sum is right, but it is not the one of `sunxi_generate_checksum`. -/
theorem not_exact_of_lt (hlt : size < 24) : ¬ Exact 0 size := by
  intro h
  have hsum : ∀ n < 24, sunxiVerifyChecksum (fun _ => 0) 0 n 0 ≠ 0 ∧
      sumWords (Ram.write (fun _ => 0) 20 (leBytes 4 stampValue)) 0 (n / 4) = 0 := by
    decide +kernel
  refine (hsum size hlt).1 ((h.sunxi _).mpr ?_)
  rw [Right, zero_add, (hsum size hlt).2]
  rfl

/-- All routines agree on the plain sum if the checksum itself is among the words. -/
theorem checksums_exact_iff (size : Nat) (hsize : size < 2 ^ 32) :
    (∀ memBase, Exact memBase size) ↔ 24 ≤ size := by
  refine ⟨fun h => ?_, fun hlo memBase => exact_of_le hlo hsize⟩
  by_contra hlt
  exact not_exact_of_lt (by omega) (h 0)

theorem exact_head : Exact 0 36 := (checksums_exact_iff 36 (by decide)).mpr (by decide) 0

/-- The checksum is behind the last word. -/
theorem not_exact_twenty : ¬ Exact 0 20 := not_exact_of_lt (by decide)

end

end Brandy.SplLoader
