import Brandy.Core.SpriteCard

/-!
# What Gets to the Flash

The erasure writes zeros to the head and to the tail of each partition. The tail of a partition of
more than 16 MiB starts 8 MiB before its end and is 2 MiB long, so the end itself stays as it is.
For an empty partition 8 MiB are wiped, which belong to others.

## Main definitions

* `Holds`: The sectors of an item are on the target.
* `BothEnds`: Both ends of every partition are wiped, and nothing else is.

## Theorems

* `downloadNormalPart_holds`: A raw image is copied sector by sector.
* `bothEnds_iff`: When the erasure wipes what it should.
-/

namespace Brandy.SpriteCard

open Memory Word Sectors Gpt

/-- The sectors of an item are on the target, and nothing else has changed. -/
structure Holds (card : Card) (target target' : Disk) (start imgfileStart n : Nat) : Prop where
  image : ∀ k < n, target' (u32 (start + k)) = card.disk (u32 (imgfileStart + k))
  others : ∀ s, (∀ k < n, s ≠ u32 (start + k)) → target' s = target s

theorem length_get (card : Card) (start n : Nat) : (get card.disk start n).length = n * 512 := by
  induction n with
  | zero => rfl
  | succ n ih =>
    rw [get_add, List.length_append, ih, Sectors.get, List.range_one, List.flatMap_singleton,
      card.length_eq, Nat.succ_mul]

/-- `n` sectors copied from the card. -/
def copied (card : Card) (target : Disk) (start imgfileStart n : Nat) : Disk :=
  put target start (get card.disk imgfileStart n)

theorem copied_add {card : Card} {a b : Nat} (h : a + b ≤ 2 ^ 32) (target : Disk)
    (start imgfileStart : Nat) :
    copied card (copied card target start imgfileStart a) (u32 (start + a))
      (u32 (imgfileStart + a)) b = copied card target start imgfileStart (a + b) := by
  have hlen : (get card.disk imgfileStart a).length + (get card.disk (imgfileStart + a) b).length ≤
      2 ^ 32 * 512 := by
    rw [length_get, length_get]
    omega
  rw [copied, copied, copied, get_add, put_append _ _ (length_get card _ _) hlen, ← Nat.cast_add,
    ← Nat.cast_add, u32_natCast, u32_natCast, put_mod, get_mod]

theorem holds_copied {card : Card} {n : Nat} (hn : n < 2 ^ 32) (target : Disk)
    (start imgfileStart : Nat) :
    Holds card target (copied card target start imgfileStart n) start imgfileStart n := by
  refine ⟨fun k hk => ?_, fun s hs => ?_⟩
  · have hdist : distance start (u32 (start + k)) = k := by
      simp only [distance, u32]
      omega
    obtain ⟨m, rfl⟩ : ∃ m, n = k + (1 + m) := ⟨n - k - 1, by omega⟩
    have hsector : get card.disk (imgfileStart + k) 1 = card.disk (u32 (imgfileStart + k)) := by
      rw [← Nat.cast_add, u32_natCast]
      simp [Sectors.get]
    rw [copied, put_of_lt (u32_lt _) (by rw [hdist, length_get]; omega), hdist, get_add,
      ← length_get card imgfileStart k, List.drop_left, get_add, hsector, ← card.length_eq,
      List.take_left]
  · by_cases hlt : s < 2 ^ 32
    · refine put_of_le ?_
      rw [length_get]
      by_contra hin
      refine hs (distance start s) (by omega) ?_
      simp only [distance, u32]
      omega
    · exact put_of_ge hlt

section

variable {l : Loader} {card : Card} {r r' : Run}

/-- A read and a write that both succeed copy some sectors. -/
theorem copied_of_some {r₁ : Run} {start imgfileStart n : Nat}
    (hread : flashRead l card imgfileStart n r = some r₁)
    (hwrite : spriteWrite l start n r₁ = some r') :
    r'.target = copied card r.target start imgfileStart n := by
  unfold flashRead at hread
  unfold spriteWrite at hwrite
  split_ifs at hread hwrite
  cases hread
  cases hwrite
  have hback := read_store (m := r.mem) 0 (get card.disk imgfileStart n)
  rw [length_get] at hback
  exact congrArg (put r.target start) hback

theorem rawLoop_copied {img part bytes : Nat} (hbytes : bytes ≤ 2 ^ 32 * 512)
    (h : rawLoop l card img part bytes r = some r') :
    r'.target = copied card r.target part img ((bytes + 511) / 512) := by
  induction bytes using Nat.strong_induction_on generalizing img part r with
  | _ bytes ih =>
    have hpos := l.once_pos
    rw [rawLoop] at h
    split_ifs at h with hmore hrest
    · rcases Option.bind_eq_some_iff.mp h with ⟨r₁, hread, h⟩
      rcases Option.bind_eq_some_iff.mp h with ⟨r₂, hwrite, h⟩
      rw [ih _ (by omega) (by omega) h, copied_of_some hread hwrite, copied_add (by omega)]
      congr 1
      omega
    · rcases Option.bind_eq_some_iff.mp h with ⟨r₁, hread, hwrite⟩
      exact copied_of_some hread hwrite
    · cases h
      rw [show (bytes + 511) / 512 = 0 by omega]
      exact (put_nil _ _).symm

/-- A raw image is copied sector by sector. -/
theorem downloadNormalPart_holds {part : PartInfo} {item : Item} {s : Sparse.Statics}
    (h : downloadNormalPart l card part item s r = some (.raw r')) :
    Holds card r.target r'.target part.addrlo item.start ((item.size.toNat + 511) / 512) := by
  have hlen := part.lenlo_lt
  have hfirst : (l.first item.size.toNat).1 +
      (item.size.toNat - (l.first item.size.toNat).2 + 511) / 512 =
      (item.size.toNat + 511) / 512 := by
    unfold Loader.first
    split <;> omega
  simp only [downloadNormalPart, Option.bind_eq_bind, Option.bind_some] at h
  split_ifs at h with hsize hfits hstart
  rcases Option.bind_eq_some_iff.mp h with ⟨r₁, hread, h⟩
  split_ifs at h with hformat
  · rcases Option.bind_eq_some_iff.mp h with ⟨r₂, hwrite, h⟩
    rcases Option.bind_eq_some_iff.mp h with ⟨r₃, hloop, h⟩
    cases h
    rw [rawLoop_copied (by omega) hloop, copied_of_some hread hwrite, copied_add (by omega), hfirst]
    exact holds_copied (by omega) _ _ _
  · cases h

end

/-- A card of zeros. -/
def blankCard : Card := ⟨fun _ => List.replicate 512 0, fun _ => List.length_replicate⟩

/-- When all reads and writes succeed, the loop comes to its end. -/
theorem rawLoop_some {l : Loader} (hok : ∀ i, l.ok i = true) (card : Card) (img part bytes : Nat)
    (r : Run) : ∃ r', rawLoop l card img part bytes r = some r' := by
  induction bytes using Nat.strong_induction_on generalizing img part r with
  | _ bytes ih =>
    have hpos := l.once_pos
    rw [rawLoop]
    simp only [flashRead, spriteWrite, hok, if_true, Option.bind_eq_bind, Option.bind_some]
    split_ifs
    · exact ih _ (by omega) _ _ _
    · exact ⟨_, rfl⟩
    · exact ⟨_, rfl⟩

theorem downloadNormalPart_raw {l : Loader} (hok : ∀ i, l.ok i = true) (card : Card)
    (part : PartInfo) (item : Item) (hsize : 0 < item.size) (hfits : item.size ≤ part.lenlo * 512)
    (hstart : item.start ≠ 0) (s : Sparse.Statics) (r : Run)
    (hraw : Sparse.wordAt (store r.mem 0 (get card.disk item.start (l.first item.size.toNat).1))
      0 4 ≠ Sparse.sparseHeaderMagic) :
    ∃ r', downloadNormalPart l card part (some item) s r = some (.raw r') := by
  have hprobe : ¬ (-1 : Int) = 1 := by decide
  simp only [downloadNormalPart, flashRead, spriteWrite, hok, if_true, Option.bind_eq_bind,
    Option.bind_some, if_neg hsize.not_ge, if_neg hfits.not_gt, if_neg hstart, Sparse.unsparseProbe,
    if_pos hraw, ne_eq, hprobe, not_false_eq_true]
  rcases rawLoop_some hok card _ _ _ _ with ⟨r', hloop⟩
  exact ⟨r', by rw [hloop]; rfl⟩

theorem blankCard_word (m : Mem) (start n : Nat) :
    Sparse.wordAt (store m 0 (get blankCard.disk start (1 + n))) 0 4 = 0 := by
  have hfirst : get blankCard.disk start 1 = List.replicate 4 0 ++ List.replicate 508 0 := by
    rw [List.replicate_append_replicate, Sectors.get, List.range_one, List.flatMap_singleton]
    rfl
  have hback := read_store (m := m) 0 (get blankCard.disk start (1 + n))
  rw [get_add, hfirst, List.append_assoc] at hback ⊢
  have hread := ( read_prefix _ ((List.append_nil _).trans hback)
    (by rw [List.length_append]; exact Nat.le_add_right _ _)).1
  rw [List.length_replicate] at hread
  rw [Sparse.wordAt, hread]
  rfl

/-- An item of two whole pieces and one byte. -/
theorem downloadNormalPart_pieces : ∃ s r', downloadNormalPart ⟨true, fun _ => true⟩ blankCard
    ⟨8, 8193, by decide⟩ (some ⟨2 * 4096 * 512 + 1, 1⟩) s ⟨fun _ => 1, fun _ => [], 0⟩ =
      some (.raw r') ∧ Holds blankCard (fun _ => []) r'.target 8 1 8193 := by
  have hfirst : Loader.first ⟨true, fun _ => true⟩ (2 * 4096 * 512 + 1) = (1 + 4095, 4096 * 512) :=
    rfl
  have hsize : Int.toNat (2 * 4096 * 512 + 1) = 2 * 4096 * 512 + 1 := rfl
  rcases downloadNormalPart_raw (l := ⟨true, fun _ => true⟩) (fun _ => rfl) blankCard
    ⟨8, 8193, by decide⟩ ⟨2 * 4096 * 512 + 1, 1⟩ (by decide) (by decide) (by decide)
    ⟨0, .unknown, 0, 0, 0, 0⟩ ⟨fun _ => 1, fun _ => [], 0⟩
    (by rw [hsize, hfirst, blankCard_word]; decide) with ⟨r', h⟩
  exact ⟨_, r', h, downloadNormalPart_holds h⟩

/-- The sector is one of `n` from `start` on. -/
def Within (start n s : Nat) : Prop := s < 2 ^ 32 ∧ distance start s < n

/-- The sector is in partition `i`. -/
def InPart (mbr : Mem) (i s : Nat) : Prop := Within (addrlo mbr i) (lenlo mbr i) s

/-- The sector of partition `i` with `k` of its sectors behind it. -/
def fromEnd (mbr : Mem) (i k : Nat) : Nat := u32 (addrlo mbr i + lenlo mbr i - 1 - k)

/-- A logical sector has been written. -/
def Wiped (log : List Wipe) (s : Nat) : Prop := ∃ start n, .logical start n ∈ log ∧ Within start n s

/-- The partitions the erasure is about. -/
def Erasable (mbr : Mem) (i : Nat) : Prop := 1 ≤ i ∧ i < partCount mbr

/-- Both ends of every partition are wiped, and nothing else is. -/
structure BothEnds (mbr : Mem) (log : List Wipe) : Prop where
  head : ∀ i, Erasable mbr i → ∀ k < min (lenlo mbr i) 16384, Wiped log (u32 (addrlo mbr i + k))
  tail : ∀ i, Erasable mbr i → ∀ k < min (lenlo mbr i) 4096, Wiped log (fromEnd mbr i k)
  inside : ∀ s, Wiped log s → ∃ i, Erasable mbr i ∧ InPart mbr i s

/-- The offsets from the start of a partition that are wiped. -/
def Reached (len d : Nat) : Prop :=
  d < (if len = 0 then 16384 else min len 16384) ∨
    (32768 < len ∧ len - 16384 ≤ d ∧ d < len - 12288) ∨
    (16384 < len ∧ len ≤ 32768 ∧ len - 4096 ≤ d ∧ d < len)

theorem within_ranges_iff {addr len : Nat} (haddr : addr < 2 ^ 32) (hlen : len < 2 ^ 32) {s : Nat} :
    Within (eraseRanges addr len).1.1 (eraseRanges addr len).1.2 s ∨
        Within (eraseRanges addr len).2.1 (eraseRanges addr len).2.2 s ↔
      s < 2 ^ 32 ∧ Reached len (distance addr s) := by
  unfold eraseRanges Within Reached cardEraseBlockSectors distance
  by_cases hs : s < 2 ^ 32
  · simp only [hs, true_and, u32]
    split_ifs <;> dsimp only <;> omega
  · simp only [hs, false_and, or_self]


theorem wiped_append {log : List Wipe} {start n s : Nat} :
    Wiped (log ++ [.logical start n]) s ↔ Wiped log s ∨ Within start n s := by
  simp only [Wiped, List.mem_append, List.mem_singleton, Wipe.logical.injEq]
  grind

section

variable {e : Eraser} (mbr : Mem) (hphy : ∀ start n, (e.phyerase start n).1 = -1)
  (hok : ∀ i, e.ok i = true)

include hphy hok

theorem erasePart_wiped (log : List Wipe) (i : Nat) : ∃ log', erasePart e mbr log i = some log' ∧
    ∀ s, Wiped log' s ↔ Wiped log s ∨
      (s < 2 ^ 32 ∧ Reached (lenlo mbr i) (distance (addrlo mbr i) s)) := by
  have hranges := fun s => within_ranges_iff (le_lt mbr (a := arrayAt i + 4) 4)
    (le_lt mbr (a := arrayAt i + 12) 4) (s := s)
  rw [← addrlo, ← lenlo] at hranges
  have hret : ¬ (-1 : Int) = 1 := by decide
  simp only [erasePart, hphy, if_neg hret, if_true, Eraser.wipe, hok, Option.bind_eq_bind,
    Option.bind_some]
  by_cases htail : (eraseRanges (addrlo mbr i) (lenlo mbr i)).2.2 = 0
  · refine ⟨_, if_neg (not_not.mpr htail), fun s => ?_⟩
    have hnone : ¬ Within (eraseRanges (addrlo mbr i) (lenlo mbr i)).2.1 0 s := fun h => by
      exact absurd h.2 (Nat.not_lt_zero _)
    rw [wiped_append, ← hranges, htail, or_iff_left hnone]
  · refine ⟨_, if_pos htail, fun s => ?_⟩
    rw [wiped_append, wiped_append, or_assoc, hranges]

theorem foldlM_wiped (is : List Nat) (log : List Wipe) :
    ∃ log', is.foldlM (erasePart e mbr) log = some log' ∧ ∀ s, Wiped log' s ↔
      Wiped log s ∨ ∃ i ∈ is, s < 2 ^ 32 ∧ Reached (lenlo mbr i) (distance (addrlo mbr i) s) := by
  induction is generalizing log with
  | nil => exact ⟨log, rfl, fun s => by simp⟩
  | cons i is ih =>
    rcases erasePart_wiped mbr hphy hok log i with ⟨log₁, heq, hone⟩
    rcases ih log₁ with ⟨log', hrest, hall⟩
    refine ⟨log', by rw [List.foldlM_cons, heq]; exact hrest, fun s => ?_⟩
    simp only [hall, hone, or_assoc, List.mem_cons, exists_eq_or_imp]

/-- What is wiped by the erasure. -/
theorem cardErase_wiped (hmalloc : e.memalign = true) (hboot0 : e.eraseBoot0 = 0) :
    ∃ log, cardErase e true mbr = some log ∧ ∀ s, Wiped log s ↔
      ∃ i, Erasable mbr i ∧ s < 2 ^ 32 ∧ Reached (lenlo mbr i) (distance (addrlo mbr i) s) := by
  rcases foldlM_wiped mbr hphy hok (List.range' 1 (partCount mbr - 1)) [.boot0] with
    ⟨log, hrun, hall⟩
  refine ⟨log, ?_, fun s => ?_⟩
  · simpa [cardErase, hmalloc, hboot0] using hrun
  · have hboot0 : ¬ Wiped [.boot0] s := by simp [Wiped]
    have hmem : ∀ i, i ∈ List.range' 1 (partCount mbr - 1) ↔ Erasable mbr i := fun i => by
      rw [List.mem_range'_1, Erasable]
      omega
    simp only [hall, or_iff_right hboot0, hmem]

end

/-- The partitions do not overlap. -/
def Apart (mbr : Mem) : Prop :=
  ∀ i < partCount mbr, ∀ j < partCount mbr, ∀ s, InPart mbr i s → InPart mbr j s → i = j

/-- What is written for the empty partitions stays inside the others, and covers the end of every
    partition over 16 MiB. -/
structure Covered (mbr : Mem) : Prop where
  large : ∀ i, Erasable mbr i → 32768 < lenlo mbr i → ∀ k < 4096, ∃ j, Erasable mbr j ∧
    lenlo mbr j = 0 ∧ Within (addrlo mbr j) 16384 (fromEnd mbr i k)
  empty : ∀ i, Erasable mbr i → lenlo mbr i = 0 → ∀ k : Nat, k < 16384 → ∃ j, Erasable mbr j ∧
    InPart mbr j (u32 (addrlo mbr i + k))

theorem distance_u32 {addr k : Nat} (hk : k < 2 ^ 32) : distance addr (u32 (addr + k)) = k := by
  simp only [distance, u32]
  omega

theorem distance_fromEnd {mbr : Mem} {i k : Nat} (hk : k < lenlo mbr i) :
    distance (addrlo mbr i) (fromEnd mbr i k) = lenlo mbr i - 1 - k := by
  have hlen : lenlo mbr i < 2 ^ 32 := le_lt mbr 4
  rw [fromEnd, show (addrlo mbr i : Int) + lenlo mbr i - 1 - k =
    addrlo mbr i + (lenlo mbr i - 1 - k : Nat) by omega, distance_u32 (by omega)]

/-- The erasure wipes both ends of the partitions and nothing else exactly if the partitions are
    covered. -/
theorem bothEnds_iff {e : Eraser} {mbr : Mem} (hphy : ∀ start n, (e.phyerase start n).1 = -1)
    (hok : ∀ i, e.ok i = true) (hmalloc : e.memalign = true) (hboot0 : e.eraseBoot0 = 0)
    (hapart : Apart mbr) :
    (∃ log, cardErase e true mbr = some log ∧ BothEnds mbr log) ↔ Covered mbr := by
  rcases cardErase_wiped mbr hphy hok hmalloc hboot0 with ⟨log, hrun, hwiped⟩
  constructor
  · rintro ⟨log', hrun', hends⟩
    cases hrun.symm.trans hrun'
    refine ⟨fun i hi hlarge k hk => ?_, fun i hi hzero k hk => ?_⟩
    · -- the sector is not reached from a partition that is not empty
      rcases (hwiped _).mp (hends.tail i hi k (by omega)) with ⟨j, hj, hlt, hreach⟩
      by_cases hempty : lenlo mbr j = 0
      · rw [hempty] at hreach
        refine ⟨j, hj, hempty, hlt, ?_⟩
        simpa [Reached] using hreach
      · have hin : InPart mbr j (fromEnd mbr i k) := by
          refine ⟨hlt, ?_⟩
          unfold Reached at hreach
          rw [if_neg hempty] at hreach
          omega
        have hself : InPart mbr i (fromEnd mbr i k) := by
          refine ⟨hlt, ?_⟩
          rw [distance_fromEnd (by omega)]
          omega
        cases hapart i hi.2 j hj.2 _ hself hin
        unfold Reached at hreach
        rw [distance_fromEnd (by omega), if_neg hempty] at hreach
        omega
    · refine hends.inside _ ((hwiped _).mpr ⟨i, hi, u32_lt _, .inl ?_⟩)
      rw [distance_u32 (by omega), if_pos hzero]
      exact hk
  · intro hcovered
    refine ⟨log, hrun, fun i hi k hk => ?_, fun i hi k hk => ?_, fun s hs => ?_⟩
    · refine (hwiped _).mpr ⟨i, hi, u32_lt _, .inl ?_⟩
      rw [distance_u32 (by omega)]
      split <;> omega
    · by_cases hlarge : 32768 < lenlo mbr i
      · rcases hcovered.large i hi hlarge k (by omega) with ⟨j, hj, hempty, hlt, hd⟩
        exact (hwiped _).mpr ⟨j, hj, hlt, .inl (by rwa [if_pos hempty])⟩
      · refine (hwiped _).mpr ⟨i, hi, u32_lt _, ?_⟩
        rw [distance_fromEnd (by omega), Reached, if_neg (by omega)]
        omega
    · rcases (hwiped s).mp hs with ⟨i, hi, hlt, hreach⟩
      by_cases hempty : lenlo mbr i = 0
      · have hd : distance (addrlo mbr i) s < 16384 := by
          rw [hempty] at hreach
          simpa [Reached] using hreach
        have haddr : addrlo mbr i < 2 ^ 32 := le_lt mbr 4
        have hs : u32 (addrlo mbr i + distance (addrlo mbr i) s) = s := by
          simp only [distance, u32]
          omega
        exact hs ▸ hcovered.empty i hi hempty _ hd
      · refine ⟨i, hi, hlt, ?_⟩
        unfold Reached at hreach
        rw [if_neg hempty] at hreach
        omega

/-- A board whose writes all succeed and that erases nothing by itself. -/
def plainEraser : Eraser := ⟨true, 0, 40960, fun _ _ => (-1, []), fun _ => true⟩

/-- An empty partition, and one of some length from sector 0 on. -/
def twoParts (len : Nat) : Mem := setLe (setLe (fun _ => 0) 24 4 2) (arrayAt 1 + 12) 4 len

theorem partCount_twoParts (len : Nat) : partCount (twoParts len) = 2 := by
  rw [partCount, twoParts, le_setLe_apart (by decide), le_setLe (by decide)]

theorem erasable_twoParts {len i : Nat} : Erasable (twoParts len) i ↔ i = 1 := by
  rw [Erasable, partCount_twoParts]
  omega

theorem lenlo_twoParts {len : Nat} (hlen : len < 2 ^ 32) :
    lenlo (twoParts len) 1 = len := le_setLe hlen

theorem apart_twoParts (len : Nat) : Apart (twoParts len) := by
  have hzero : lenlo (twoParts len) 0 = 0 := by
    rw [lenlo, twoParts, le_setLe_apart (by decide), le_setLe_apart (by decide)]
    decide
  intro i hi j hj s hin hin'
  rw [partCount_twoParts] at hi hj
  have hpos : ∀ k, InPart (twoParts len) k s → k ≠ 0 := fun k hk h0 => by
    rw [InPart, h0, hzero] at hk
    exact Nat.not_lt_zero _ hk.2
  have := hpos i hin
  have := hpos j hin'
  omega

/-- A partition that is longer than what is wiped at one end. -/
theorem bothEnds_twoPieces : ∃ log, cardErase plainEraser true (twoParts 20000) = some log ∧
    BothEnds (twoParts 20000) log := by
  refine (bothEnds_iff (fun _ _ => rfl) (fun _ => rfl) rfl rfl (apart_twoParts 20000)).mpr
    ⟨fun i hi hlarge => ?_, fun i hi hempty => ?_⟩
  · rw [erasable_twoParts.mp hi, lenlo_twoParts (by decide)] at hlarge
    omega
  · rw [erasable_twoParts.mp hi, lenlo_twoParts (by decide)] at hempty
    omega

/-- A partition of 16 MiB and one sector keeps its last sector. -/
theorem bothEnds_large : Apart (twoParts 32769) ∧ ∃ log,
    cardErase plainEraser true (twoParts 32769) = some log ∧ ¬ Wiped log 32768 := by
  rcases cardErase_wiped (e := plainEraser) (twoParts 32769) (fun _ _ => rfl) (fun _ => rfl) rfl rfl
    with ⟨log, hrun, hwiped⟩
  refine ⟨apart_twoParts _, log, hrun, fun h => ?_⟩
  rcases (hwiped _).mp h with ⟨i, hi, -, hreach⟩
  rw [erasable_twoParts.mp hi, lenlo_twoParts (by decide)] at hreach
  revert hreach
  unfold Reached
  decide +kernel

end Brandy.SpriteCard
