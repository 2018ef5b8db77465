import Brandy.Theory.NandSecStorage

/-!
# Items That Are Not Written

What a write leaves of the items it is not for, for items of one page. A read judges an item by all
its copies, and so does the check that comes before a write: as long as some copy of each page
passes in both blocks there is nothing to repair. But the write takes the first copy of each page
alone, and puts it in the place of all the others.

## Main definitions

* `searched`: What the check says of a page.
* `leftPage`: The page that a write leaves for an item.

## Theorems

* `update_settles`: One repair is enough.
* `read_write_iff`: When an item can still be read after a write to another one.
-/

namespace Brandy.NandSec

open List Option Function

variable {g : Geometry}

/-- The answer of `nand_secure_storage_check` for a page of a block. -/
def searched (b : Block g) (p : Nat) : Int :=
  status (((walk g p).map b).find? (Passes g.pageSize))

theorem readOne_searched (b : Block g) (p : Nat) (mbuf : List UInt8) :
    (readOne b p mbuf g.pageSize).1 = searched b p :=
  (readOne_eq b g.pageSize p mbuf).1

theorem searched_congr {b b' : Block g} (h : ∀ p < g.pageCntPerBlk, b p = b' p) (p : Nat) :
    searched b p = searched b' p := by
  have hmap : (walk g p).map b = (walk g p).map b' :=
    map_congr_left fun q hq => h q (mem_walk hq).1
  rw [searched, searched, hmap]

theorem checkLoop_of_searched (s : Storage g) (h : ∀ p, searched s.main p = searched s.bak p)
    (mbuf : List UInt8) (left i : Nat) (ret : Int) :
    (checkLoop s mbuf left i ret ret).1 = (checkLoop s mbuf left i ret ret).2 := by
  induction left generalizing i ret mbuf with
  | zero => rfl
  | succ left ih =>
    simp only [checkLoop, readOne_searched, h i]
    rw [if_neg (not_not.mpr rfl)]
    split
    · rfl
    · exact ih _ _ _

variable {s : Storage g}

/-- When the answers for both blocks are the same, page by page, there is nothing to repair. -/
theorem check_nonpos (h : ∀ p, searched s.main p = searched s.bak p) (mbuf : List UInt8) :
    check s mbuf ≤ 0 := by
  have heq := checkLoop_of_searched s h mbuf
    (pagesCntPerItem g itemLen * maxSecureStorageItem) 0 (-1)
  simp only [check]
  split
  · decide
  · exact le_rfl

theorem check_cases (s : Storage g) (mbuf : List UInt8) :
    check s mbuf ≤ 0 ∨ check s mbuf = 1 ∨ check s mbuf = 2 := by
  simp only [check]
  split_ifs <;> simp

theorem checkLoop_mbuf (s : Storage g) (mbuf mbuf' : List UInt8) (left i : Nat) (ret ret' : Int) :
    checkLoop s mbuf left i ret ret' = checkLoop s mbuf' left i ret ret' := by
  induction left generalizing i ret ret' mbuf mbuf' with
  | zero => rfl
  | succ left ih =>
    simp only [checkLoop, readOne_searched]
    split_ifs
    · rfl
    · rfl
    · exact ih _ _ _ _ _

theorem check_mbuf (s : Storage g) (mbuf mbuf' : List UInt8) : check s mbuf = check s mbuf' := by
  simp only [check, checkLoop_mbuf s mbuf mbuf']

theorem repair_synced {flag : Int} (hflag : flag = 1 ∨ flag = 2) (s : Storage g) (p : Nat)
    (hp : p < g.pageCntPerBlk) :
    (repair flag g.pageCntPerBlk s).main p = (repair flag g.pageCntPerBlk s).bak p := by
  rcases hflag with rfl | rfl
  · exact ((blockCopy_apply).trans (if_pos hp)).symm
  · exact (blockCopy_apply).trans (if_pos hp)

theorem update_eq (mbuf : List UInt8) (s : Storage g) :
    update mbuf s =
      if check s mbuf ≤ 0 then s else repair (check s mbuf) g.pageCntPerBlk s := by
  rw [update, updateLoop]
  split_ifs with hcheck
  · rfl
  -- both blocks are the same now, so the next check ends the loop
  have hflag := (check_cases s mbuf).resolve_left hcheck
  have hdone := check_nonpos (fun p => searched_congr (repair_synced hflag s) p) mbuf
  rw [updateLoop, if_pos hdone]

/-- The block that a write takes the other items from. -/
def source (s : Storage g) : Block g := if check s [] = 2 then s.bak else s.main

theorem update_main (mbuf : List UInt8) (s : Storage g) {p : Nat} (hp : p < g.pageCntPerBlk) :
    (update mbuf s).main p = source s p := by
  rw [update_eq, check_mbuf s mbuf [], source]
  rcases check_cases s [] with h | h | h
  · rw [if_pos h, if_neg (by omega)]
  · rw [h]
    rfl
  · rw [h]
    exact (blockCopy_apply).trans (if_pos hp)

/-- One repair is enough: a second one finds nothing to do, whatever is in the buffer. -/
theorem update_settles (mbuf mbuf' : List UInt8) (s : Storage g) :
    check (update mbuf s) mbuf' ≤ 0 ∧ update mbuf' (update mbuf s) = update mbuf s := by
  have hdone : check (update mbuf s) mbuf' ≤ 0 := by
    rw [check_mbuf _ mbuf' mbuf, update_eq]
    split_ifs with hcheck
    · exact hcheck
    · have hflag := (check_cases s mbuf).resolve_left hcheck
      exact check_nonpos (fun p => searched_congr (repair_synced hflag s) p) mbuf
  refine ⟨hdone, ?_⟩
  rw [update_eq mbuf' (update mbuf s), if_pos hdone]

theorem ready_of_some {e : Env} (hinit : e.hwInit = true) (hmalloc : e.malloc.isSome = true) :
    ∃ mbuf, e = ready mbuf := by
  obtain ⟨hwInit, malloc⟩ := e
  obtain ⟨mbuf, rfl⟩ := isSome_iff_exists.mp hmalloc
  exact ⟨mbuf, by rw [ready, show hwInit = true from hinit]⟩

theorem ready_of_read {e : Env} {j len : Nat} {buf d : List UInt8}
    (h : read e s j buf len = (0, d)) : ∃ mbuf, e = ready mbuf := by
  unfold read at h
  split_ifs at h with hinit hlen
  · cases h
  · cases h
  · split at h
    · cases h
    · next mbuf hmalloc =>
        exact ready_of_some (by simpa using hinit) (by rw [hmalloc]; rfl)

theorem ready_of_write {e : Env} {i len : Nat} {data : List UInt8}
    (h : (write e i data len s).1 = 0) : ∃ mbuf, e = ready mbuf := by
  unfold write at h
  split_ifs at h with hinit hlen
  · cases h
  · cases h
  · split at h
    · cases h
    · next mbuf hmalloc =>
        exact ready_of_some (by simpa using hinit) (by rw [hmalloc]; rfl)

/-- A page that passes for an item, does not look empty, and holds the given bytes. -/
def Intact (p : Page g) (d : List UInt8) : Prop :=
  Passes itemLen p = true ∧ p.readSum ≠ 0x1234 ∧ p.data.take itemLen = d

instance (p : Page g) (d : List UInt8) : Decidable (Intact p d) :=
  inferInstanceAs (Decidable (_ ∧ _ ∧ _))

theorem found_of_le {len p : Nat} (hp : g.pageCntPerBlk ≤ p) : found s len p = none := by
  have hwalk : walk g p = [] := eq_nil_iff_forall_not_mem.mpr fun q hq => by
    obtain ⟨hlt, k, rfl⟩ := mem_walk hq
    omega
  rw [found, hwalk]
  rfl

section

variable (hsize : itemLen ≤ g.pageSize)
include hsize

theorem cnt_of_size : cnt g = 1 := if_pos hsize

theorem len_of_size : len g = itemLen := if_pos hsize

theorem period_of_size : period g = maxSecureStorageItem := by
  rw [period, cnt_of_size hsize, Nat.mul_one]

theorem read_eq_iff (mbuf : List UInt8) (s : Storage g) {j : Nat} (hj : j < 2 ^ 32)
    {buf : List UInt8} (hbuf : buf.length = itemLen) (d : List UInt8) :
    read (ready mbuf) s j buf itemLen = (0, d) ↔
      ∃ p, found s itemLen j = some p ∧ p.readSum ≠ 0x1234 ∧ p.data.take itemLen = d := by
  have hpage : pageOf g j 0 = j := by
    rw [pageOf, cnt_of_size hsize]
    omega
  rw [read_eq, fetched, cnt_of_size hsize, len_of_size hsize, range_one, flatMap_singleton,
    hpage, Nat.one_mul, ← hbuf, drop_length, append_nil, hbuf, Prod.mk.injEq]
  cases found s itemLen j with
  | none => exact iff_of_false (fun h => by cases h.1) (by rintro ⟨_, h, _⟩; cases h)
  | some p =>
    rw [status, shown]
    split_ifs with hempty
    · refine iff_of_false (fun h => absurd h.1 (by decide)) ?_
      rintro ⟨q, hq, hne, -⟩
      obtain rfl := some.inj hq
      exact hne hempty
    · refine ⟨fun h => ⟨p, rfl, hempty, h.2⟩, ?_⟩
      rintro ⟨q, hq, -, hd⟩
      obtain rfl := some.inj hq
      exact ⟨rfl, hd⟩

/-- The page that a write leaves for an item. -/
def leftPage (s : Storage g) (i : Nat) (data : List UInt8) (j : Nat) : Page g :=
  if j % maxSecureStorageItem ≠ i then source s (j % maxSecureStorageItem)
  else itemPage g data 1 itemLen i

section

variable (mbuf : List UInt8) (i : Nat) (data : List UInt8) (s : Storage g)

theorem write_copies {j q : Nat} (hq : q ∈ walk g j) :
    (writeItem mbuf i data s).main q = leftPage s i data j := by
  obtain ⟨hlt, k, rfl⟩ := mem_walk hq
  have hroom := period_le g
  have hpos : 0 < maxSecureStorageItem := by decide
  have hmod := Nat.mod_lt j hpos
  rw [(write_apply).2 _ hlt, period_of_size hsize, cnt_of_size hsize,
    len_of_size hsize, Nat.add_mul_mod_self_right, Nat.div_one, leftPage]
  split
  · rw [update_main mbuf s (by rw [period_of_size hsize] at hroom; omega)]
  · next h => rw [not_not.mp h]

theorem found_write {j : Nat} (hj : j < g.pageCntPerBlk) :
    found (writeItem mbuf i data s) itemLen j =
      if Passes itemLen (leftPage s i data j) = true then some (leftPage s i data j) else none := by
  have hcopies : ∀ q ∈ walk g j, (writeItem mbuf i data s).main q = leftPage s i data j :=
    fun q hq => write_copies hsize mbuf i data s hq
  rw [found, ← (write_apply).1, map_congr_left hcopies]
  by_cases hpass : Passes itemLen (leftPage s i data j) = true
  · obtain ⟨rest, hrest⟩ := walk_cons hj
    rw [if_pos hpass, hrest, map_cons, find?_cons_of_pos hpass]
    rfl
  have hnone : ((walk g j).map fun _ => leftPage s i data j).find? (Passes itemLen) = none := by
    rw [find?_eq_none]
    intro p hp
    obtain ⟨q, -, rfl⟩ := List.mem_map.mp hp
    exact hpass
  rw [if_neg hpass, hnone]
  rfl

end

/-- When an item that could be read can be read with the same bytes after a write to another one:
    when the one page that the write leaves of it is intact. -/
theorem read_write_iff (s : Storage g) (e e' e'' : Env) {i j : Nat} (hj : j < 2 ^ 32)
    {data d buf buf' : List UInt8} (hbuf : buf.length = itemLen) (hbuf' : buf'.length = itemLen)
    (hread : read e s j buf itemLen = (0, d)) (hwrite : (write e' i data itemLen s).1 = 0)
    (hinit : e''.hwInit = true) (hmalloc : e''.malloc.isSome = true) :
    read e'' (write e' i data itemLen s).2 j buf' itemLen = (0, d) ↔
      Intact (leftPage s i data j) d := by
  obtain ⟨mbuf, rfl⟩ := ready_of_read hread
  obtain ⟨mbuf', rfl⟩ := ready_of_write hwrite
  obtain ⟨mbuf'', rfl⟩ := ready_of_some hinit hmalloc
  have hlt : j < g.pageCntPerBlk := by
    by_contra hle
    obtain ⟨p, hp, -⟩ := (read_eq_iff hsize mbuf s hj hbuf d).mp hread
    rw [found_of_le (by omega)] at hp
    cases hp
  refine (read_eq_iff hsize mbuf'' (writeItem mbuf' i data s) hj hbuf' d).trans ?_
  rw [found_write hsize mbuf' i data s hlt, Intact]
  split_ifs with hpass
  · refine ⟨fun ⟨p, hp, h⟩ => ?_, fun h => ⟨_, rfl, h.2⟩⟩
    obtain rfl := some.inj hp
    exact ⟨hpass, h⟩
  · exact iff_of_false (fun ⟨_, h, _⟩ => by cases h) fun h => hpass h.1

end

theorem data_itemPage_one (buf : List UInt8) (len i : Nat) :
    (itemPage g buf 1 len i).data = fill g (buf.take len) := by simp [itemPage]

/-- Pages of 4096 bytes. -/
def largePages : Geometry := geometry 8 (by decide)

/-- The bytes of the key. -/
def keyBytes : List UInt8 := replicate 4096 1

/-- The page of the key. -/
def keyPage : Page largePages := itemPage largePages keyBytes 1 itemLen 0

/-- All copies of item 3 hold the key, and the other items are empty. -/
def keyBlock : Block largePages := fun p =>
  if p % 32 = 3 then keyPage else itemPage largePages (replicate 4096 0) 1 itemLen 0

/-- Two blocks without damage. -/
def keyStored : Storage largePages := ⟨keyBlock, keyBlock⟩

/-- One page of the first block is lost. -/
def keyDamaged : Storage largePages :=
  ⟨Function.update keyBlock 3 (erasedPage largePages), keyBlock⟩

theorem keyPage_passes : Passes itemLen keyPage = true := passes_itemPage

theorem keyPage_intact : Intact keyPage keyBytes := by
  refine ⟨keyPage_passes, by decide +kernel, ?_⟩
  have hlen : keyBytes.length = itemLen := length_replicate
  have hdata : keyPage.data = fill largePages (keyBytes.take itemLen) := data_itemPage_one _ _ _
  rw [hdata, take_of_length_le hlen.le, ← hlen, take_fill (by rw [hlen]; decide)]

theorem keyBlock_of_mod {p : Nat} (hp : p % 32 = 3) : keyBlock p = keyPage := if_pos hp

theorem walk_three : walk largePages 3 = [3, 35] := by decide

theorem keyDamaged_three : keyDamaged.main 3 = erasedPage largePages := by
  exact update_self (3 : Nat) (erasedPage largePages) keyBlock

theorem keyDamaged_of_ne {p : Nat} (hp : p ≠ 3) : keyDamaged.main p = keyBlock p :=
  update_of_ne hp _ _

theorem keyBlock_find :
    ((walk largePages 3).map keyBlock).find? (Passes itemLen) = some keyPage := by
  rw [walk_three, map_cons, keyBlock_of_mod (by decide),
    find?_cons_of_pos keyPage_passes]

theorem keyDamaged_find :
    ((walk largePages 3).map keyDamaged.main).find? (Passes itemLen) = some keyPage := by
  have hlost : ¬ Passes itemLen (keyDamaged.main 3) = true := by
    rw [keyDamaged_three, passes_erased]
    decide
  rw [walk_three, map_cons, map_cons, find?_cons_of_neg hlost,
    keyDamaged_of_ne (by decide), keyBlock_of_mod (by decide),
    find?_cons_of_pos keyPage_passes]

theorem keyDamaged_searched (p : Nat) : searched keyDamaged.main p = searched keyDamaged.bak p := by
  by_cases hp : p = 3
  · rw [hp, searched, searched]
    exact congrArg status (keyDamaged_find.trans keyBlock_find.symm)
  have hmap : (walk largePages p).map keyDamaged.main = (walk largePages p).map keyDamaged.bak := by
    refine map_congr_left fun q hq => ?_
    obtain ⟨-, k, rfl⟩ := mem_walk hq
    refine keyDamaged_of_ne ?_
    unfold maxSecureStorageItem
    omega
  rw [searched, searched, hmap]

theorem keyStored_read :
    read (ready []) keyStored 3 (replicate 4096 0) itemLen = (0, keyBytes) := by
  refine (read_eq_iff (by decide) [] keyStored (by decide) length_replicate keyBytes).mpr ?_
  refine ⟨keyPage, ?_, keyPage_intact.2⟩
  rw [found, show ((walk largePages 3).map keyStored.main).find? (Passes itemLen) = some keyPage
    from keyBlock_find]
  rfl

/-- In two blocks without damage a write of item 5 leaves item 3. -/
theorem read_write_stored :
    (write (ready []) 5 keyBytes itemLen keyStored).1 = 0 ∧
      read (ready []) (write (ready []) 5 keyBytes itemLen keyStored).2 3 (replicate 4096 0)
        itemLen = (0, keyBytes) := by
  have hsource : source keyStored = keyBlock := by
    unfold source
    split <;> rfl
  have hleft : leftPage keyStored 5 keyBytes 3 = keyPage := by
    rw [leftPage, if_pos (by decide), hsource]
    exact keyBlock_of_mod rfl
  refine ⟨rfl, ?_⟩
  refine (read_write_iff (by decide) keyStored (ready []) (ready []) (ready []) (by decide)
    length_replicate length_replicate keyStored_read rfl rfl rfl).mpr ?_
  rw [hleft]
  exact keyPage_intact

/-- Item 3 can be read although its first page is lost. After a write of item 5 it cannot. -/
theorem item_lost :
    read (ready []) keyDamaged 3 (replicate 4096 0) itemLen = (0, keyBytes) ∧
      (write (ready []) 5 keyBytes itemLen keyDamaged).1 = 0 ∧
      read (ready []) (write (ready []) 5 keyBytes itemLen keyDamaged).2 3 (replicate 4096 0)
        itemLen ≠ (0, keyBytes) := by
  refine ⟨?_, rfl, ?_⟩
  · refine (read_eq_iff (by decide) [] keyDamaged (by decide) length_replicate
      keyBytes).mpr ?_
    refine ⟨keyPage, ?_, keyPage_intact.2⟩
    rw [found, keyDamaged_find]
    rfl
  · have hsource : source keyDamaged = keyDamaged.main := by
      have hcheck := check_nonpos keyDamaged_searched []
      rw [source, if_neg (by omega)]
    have hleft : leftPage keyDamaged 5 keyBytes 3 = erasedPage largePages := by
      rw [leftPage, if_pos (by decide), hsource]
      exact keyDamaged_three
    intro h
    obtain ⟨p, hp, -⟩ :=
      (read_eq_iff (by decide) [] (writeItem [] 5 keyBytes keyDamaged) (by decide)
      length_replicate keyBytes).mp h
    rw [found_write (by decide) [] 5 keyBytes keyDamaged (by decide), hleft, passes_erased] at hp
    cases hp

end Brandy.NandSec
