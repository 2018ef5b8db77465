import Mathlib.Data.List.GetD
import Brandy.Core.NandSecStorage

/-!
# Items of the Secure Storage

After a write both blocks are the same, and in every run the pages of an item are those of the last
write to it. A read looks for a page that passes its test, and steps from copy to copy by 32 pages.
When an item takes one page it only ever meets pages of its own item. When an item takes two, every
second page it meets belongs to another item: once the first copy of a page is corrupted, a page of
the item 16 further on is returned in its place.

## Main definitions

* `Stored`, `run`: The blocks hold an item, and a run of complete writes.
* `walk`, `found`: The pages on the way of a read, and the one it takes.
* `Corrupted`: Some pages have been replaced by ones that do not pass.

## Theorems

* `stored_run`: What a run leaves.
* `read_eq`: What a read returns.
* `read_requested_iff`: When it returns the requested item.
-/

namespace Brandy.NandSec

open List Option Function

open Memory (leValue leBytes wordSum)

variable {g : Geometry}

theorem foldl_writePage {b : Block g} {v : Nat → Page g} {k p : Nat} :
    (List.range k).foldl (fun b i => writePage b i (v i)) b p = if p < k then v p else b p := by
  induction k with
  | zero => rfl
  | succ k ih =>
    rw [range_succ, foldl_append, foldl_cons, foldl_nil, writePage]
    by_cases hp : p = k
    · subst hp
      rw [update_self, if_pos (Nat.lt_succ_self p)]
    · rw [update_of_ne hp, ih]
      exact if_congr (by omega) rfl rfl

variable (b : Block g)

theorem foldl_writePage_mod {period : Nat} (hpos : 0 < period) (m p : Nat) :
    (range' period m).foldl (fun b i => writePage b i (b (i % period))) b p =
      if period ≤ p ∧ p < period + m then b (p % period) else b p := by
  induction m generalizing p with
  | zero => rw [if_neg (by omega)]; rfl
  | succ m ih =>
    rw [range'_concat, foldl_append, foldl_cons, foldl_nil, writePage,
      one_mul]
    by_cases hp : p = period + m
    · subst hp
      -- the page that is read lies in front of all pages that have been written
      have hmod := Nat.mod_lt (period + m) hpos
      rw [update_self, ih, if_neg (by omega), if_pos (by omega)]
    · rw [update_of_ne hp, ih]
      exact if_congr (by omega) rfl rfl

variable (g)

/-- The number of pages of an item. -/
def cnt : Nat := pagesCntPerItem g itemLen

/-- The number of bytes of an item on each page. -/
def len : Nat := lenPerPage g itemLen

/-- The number of pages of all items. -/
def period : Nat := maxSecureStorageItem * cnt g

theorem cnt_pos : 0 < cnt g := by
  have hpos := g.sectorCntPerPage_pos
  unfold cnt pagesCntPerItem
  split
  · exact one_pos
  · next h => exact Nat.div_pos (by omega) (mul_pos hpos (by decide))

theorem period_pos : 0 < period g := mul_pos (by decide) (cnt_pos g)

theorem period_le : period g ≤ g.pageCntPerBlk := g.room

theorem len_le : len g ≤ g.pageSize := by
  unfold len lenPerPage
  split
  · assumption
  · exact le_rfl

variable {g}

/-- A call for which nothing is missing. -/
def ready (mbuf : List UInt8) : Env := ⟨true, some mbuf⟩

/-- A complete write of an item. -/
def writeItem (mbuf : List UInt8) (item : Nat) (data : List UInt8) (s : Storage g) : Storage g :=
  (write (ready mbuf) item data itemLen s).2

theorem blockCopy_apply {src : Block g} {k p : Nat} :
    blockCopy src k p = if p < k then src p else erasedPage g := foldl_writePage

theorem write_apply {mbuf : List UInt8} {item : Nat} {data : List UInt8} {s : Storage g} :
    (writeItem mbuf item data s).main = (writeItem mbuf item data s).bak ∧
      ∀ p < g.pageCntPerBlk, (writeItem mbuf item data s).main p =
        if p % period g / cnt g ≠ item then (update mbuf s).main (p % period g)
        else itemPage g data (cnt g) (len g) (p % period g) := by
  have hpos := period_pos g
  have hroom := period_le g
  -- the second block, as the two loops leave it
  have hbak : ∀ p, (writeItem mbuf item data s).bak p =
      if p < g.pageCntPerBlk then
        if p % period g / cnt g ≠ item then (update mbuf s).main (p % period g)
        else itemPage g data (cnt g) (len g) (p % period g)
      else erasedPage g := by
    intro p
    have hitems : ∀ q, writeItems (update mbuf s).main item data (cnt g) (len g) q =
        if q < period g then
          if q / cnt g ≠ item then (update mbuf s).main q else itemPage g data (cnt g) (len g) q
        else erasedPage g := fun q => foldl_writePage
    have hcopies := foldl_writePage_mod
      (writeItems (update mbuf s).main item data (cnt g) (len g)) hpos
      (g.pageCntPerBlk - period g) p
    refine hcopies.trans ?_
    rw [hitems, hitems, if_pos (Nat.mod_lt p hpos)]
    by_cases hp : p < g.pageCntPerBlk
    · by_cases hfirst : p < period g
      · rw [if_neg (by omega), if_pos hfirst, if_pos hp, Nat.mod_eq_of_lt hfirst]
      · rw [if_pos (by omega), if_pos hp]
    · rw [if_neg (by omega), if_neg (by omega), if_neg hp]
  have hmain : ∀ p, (writeItem mbuf item data s).main p =
      if p < g.pageCntPerBlk then (writeItem mbuf item data s).bak p else erasedPage g :=
    fun p => blockCopy_apply
  refine ⟨funext fun p => ?_, fun p hp => ?_⟩
  · rw [hmain, hbak]
    split <;> rfl
  · rw [hmain, if_pos hp, hbak, if_pos hp]

theorem readOneLoop_fst (len fuel p : Nat) (mbuf mbuf' : List UInt8) :
    (readOneLoop b len fuel p mbuf).1 = (readOneLoop b len fuel p mbuf').1 := by
  cases fuel with
  | zero => rfl
  | succ fuel =>
    simp only [readOneLoop]
    split
    · rfl
    · rfl

theorem checkLoop_of_eq (s : Storage g) (h : s.main = s.bak) (mbuf : List UInt8) (left i : Nat)
    (ret : Int) : (checkLoop s mbuf left i ret ret).1 = (checkLoop s mbuf left i ret ret).2 := by
  induction left generalizing i ret mbuf with
  | zero => rfl
  | succ left ih =>
    have hsame : (readOne s.main i mbuf g.pageSize).1 =
        (readOne s.bak i (readOne s.main i mbuf g.pageSize).2 g.pageSize).1 := by
      rw [h]
      exact readOneLoop_fst _ _ _ _ _ _
    simp only [checkLoop]
    rw [if_neg (not_not.mpr hsame), ← hsame]
    split
    · rfl
    · exact ih _ _ _

variable (mbuf : List UInt8)

theorem update_of_synced (s : Storage g) (h : s.main = s.bak) :
    update mbuf s = s := by
  have hcheck : check s mbuf ≤ 0 := by
    have heq := checkLoop_of_eq s h mbuf (pagesCntPerItem g itemLen * maxSecureStorageItem) 0 (-1)
    simp only [check]
    split
    · decide
    · exact le_rfl
  rw [update, updateLoop, if_pos hcheck]

/-- Both blocks are the same and hold the bytes of an item. -/
def Stored (s : Storage g) (item : Nat) (data : List UInt8) : Prop :=
  s.main = s.bak ∧ ∀ p < g.pageCntPerBlk, p % period g / cnt g = item →
    s.main p = itemPage g data (cnt g) (len g) (p % period g)

theorem stored_write (item : Nat) {data : List UInt8} (s : Storage g) :
    Stored (writeItem mbuf item data s) item data := by
  obtain ⟨heq, hpages⟩ := write_apply
  refine ⟨heq, fun p hp hitem => ?_⟩
  rw [hpages p hp, if_neg (not_not.mpr hitem)]

variable {data : List UInt8} {s : Storage g}

theorem stored_write_of_ne {item other : Nat} {data' : List UInt8}
    (h : Stored s item data) (hne : item ≠ other) :
    Stored (writeItem mbuf other data' s) item data := by
  obtain ⟨heq, hpages⟩ := write_apply
  refine ⟨heq, fun p hp hitem => ?_⟩
  have hlt : p % period g < g.pageCntPerBlk :=
    (Nat.mod_lt p (period_pos g)).trans_le (period_le g)
  rw [hpages p hp, if_pos (by rwa [hitem]), update_of_synced mbuf s h.1,
    h.2 _ hlt (by rwa [Nat.mod_mod]), Nat.mod_mod]

/-- A sequence of complete writes: what is in the buffer of the check, the item and the bytes. -/
def run (ws : List (List UInt8 × Nat × List UInt8)) (s : Storage g) : Storage g :=
  ws.foldl (fun s w => writeItem w.1 w.2.1 w.2.2 s) s

/-- The bytes of the last write to an item. -/
def lastWritten (ws : List (List UInt8 × Nat × List UInt8)) (item : Nat) : Option (List UInt8) :=
  ws.foldl (fun last w => if w.2.1 = item then some w.2.2 else last) none

variable {ws : List (List UInt8 × Nat × List UInt8)}

theorem length_lastWritten {n : Nat}
    (hws : ∀ w ∈ ws, w.2.2.length = n) {item : Nat} (h : lastWritten ws item = some data) :
    data.length = n := by
  induction ws using reverseRecOn generalizing data with
  | nil => cases h
  | append_singleton ws w ih =>
    rw [lastWritten, foldl_append, foldl_cons, foldl_nil] at h
    split at h
    · obtain rfl := some.inj h
      exact hws w (mem_append_right _ mem_cons_self)
    · exact ih (fun w hw => hws w (mem_append_left _ hw)) h

theorem stored_run (s : Storage g) {item : Nat}
    (data : List UInt8) (h : lastWritten ws item = some data) : Stored (run ws s) item data := by
  induction ws using reverseRecOn generalizing data with
  | nil => cases h
  | append_singleton ws w ih =>
    rw [lastWritten, foldl_append, foldl_cons, foldl_nil] at h
    rw [run, foldl_append, foldl_cons, foldl_nil]
    split_ifs at h with hitem
    · obtain rfl := some.inj h
      rw [hitem]
      exact stored_write w.1 item _
    · exact stored_write_of_ne w.1 (ih data h) (Ne.symm hitem)

/-- A page has the marker and the right checksum. -/
def Passes (len : Nat) (p : Page g) : Bool := p.marked && p.readSum == checkSum p.data len

/-- The pages on the way of a read, from one on. -/
def walk (g : Geometry) (p : Nat) : List Nat :=
  (List.range g.pageCntPerBlk).filterMap fun k =>
    if p + k * maxSecureStorageItem < g.pageCntPerBlk then some (p + k * maxSecureStorageItem)
    else none

/-- The first page that passes on the way of a read, in the first block or else in the second. -/
def found (s : Storage g) (len p : Nat) : Option (Page g) :=
  ((walk g p).map s.main).find? (Passes len) <|> ((walk g p).map s.bak).find? (Passes len)

/-- What is returned for a page that has been looked for. A page with the checksum of an empty one
    is taken for empty. -/
def shown (len : Nat) : Option (Page g) → List UInt8
  | none => replicate len 0
  | some p => if p.readSum = 0x1234 then replicate len 0 else p.data.take len

/-- The result for a page that has been looked for. -/
def status : Option (Page g) → Int
  | none => -1
  | some p => if p.readSum = 0x1234 then 1 else 0

/-- The same way, step by step. -/
def walkFrom (g : Geometry) : Nat → Nat → List Nat
  | 0, _ => []
  | fuel + 1, p =>
    if p < g.pageCntPerBlk then p :: walkFrom g fuel (p + maxSecureStorageItem) else []

theorem walkFrom_eq (fuel p : Nat) :
    walkFrom g fuel p = (List.range fuel).filterMap fun k =>
      if p + k * maxSecureStorageItem < g.pageCntPerBlk then some (p + k * maxSecureStorageItem)
      else none := by
  induction fuel generalizing p with
  | zero => rfl
  | succ fuel ih =>
    rw [walkFrom, range_succ_eq_map, filterMap_cons, filterMap_map, ih,
      zero_mul, add_zero]
    have hshift : (fun k => if p + maxSecureStorageItem + k * maxSecureStorageItem <
          g.pageCntPerBlk then some (p + maxSecureStorageItem + k * maxSecureStorageItem)
        else none) = (fun k => if p + k * maxSecureStorageItem < g.pageCntPerBlk then
          some (p + k * maxSecureStorageItem) else none) ∘ Nat.succ := by
      funext k
      rw [comp_apply, Nat.succ_mul, add_assoc,
        add_comm (k * maxSecureStorageItem)]
    rw [hshift]
    by_cases hp : p < g.pageCntPerBlk
    · simp only [if_pos hp]
    · simp only [if_neg hp]
      refine (filterMap_eq_nil_iff.mpr fun k _ => ?_).symm
      rw [comp_apply, if_neg (by omega)]

theorem readOneLoop_eq (len fuel p : Nat) (mbuf : List UInt8) :
    (readOneLoop b len fuel p mbuf).1 =
        status (((walkFrom g fuel p).map b).find? (Passes len)) ∧
      ∀ page, ((walkFrom g fuel p).map b).find? (Passes len) = some page →
        (readOneLoop b len fuel p mbuf).2 = page.data := by
  induction fuel generalizing p mbuf with
  | zero => exact ⟨rfl, fun _ h => by cases h⟩
  | succ fuel ih =>
    simp only [readOneLoop, walkFrom]
    split
    swap
    · exact ⟨rfl, fun _ h => by cases h⟩
    rw [map_cons]
    by_cases hpass : Passes len (b p) = true
    · have hboth : (b p).marked = true ∧ (b p).readSum = checkSum (b p).data len := by
        simpa [Passes] using hpass
      rw [if_neg (by simp [hboth.1]), if_pos hboth.2, find?_cons_of_pos hpass, status]
      refine ⟨by split <;> rfl, fun page h => ?_⟩
      obtain rfl := some.inj h
      split <;> rfl
    · rw [find?_cons_of_neg hpass]
      split
      · exact ih _ _
      · next hmarked =>
        rw [if_neg fun hsum => hpass (by simp [Passes, hsum, hmarked])]
        exact ih _ _

theorem readOne_eq (len p : Nat) (mbuf : List UInt8) :
    (readOne b p mbuf len).1 = status (((walk g p).map b).find? (Passes len)) ∧
      ∀ page, ((walk g p).map b).find? (Passes len) = some page →
        (readOne b p mbuf len).2 = page.data := by
  have h := readOneLoop_eq b len g.pageCntPerBlk p mbuf
  rwa [walkFrom_eq] at h

theorem readBoth_eq (s : Storage g) (len p : Nat) (mbuf : List UInt8) :
    (readBoth s p mbuf len).1 = status (found s len p) ∧
      ∀ page, found s len p = some page → (readBoth s p mbuf len).2 = page.data := by
  have hmain := readOne_eq s.main len p mbuf
  have hbak := readOne_eq s.bak len p (readOne s.main p mbuf len).2
  simp only [readBoth, found]
  cases hfind : ((walk g p).map s.main).find? (Passes len) with
  | none =>
    rw [hfind] at hmain
    have heq : (readOne s.main p mbuf len).1 = -1 := hmain.1
    rw [if_pos heq]
    exact hbak
  | some page =>
    rw [hfind] at hmain
    have hne : (readOne s.main p mbuf len).1 ≠ -1 := by
      rw [hmain.1, status]
      split <;> decide
    rw [if_neg hne]
    exact hmain

theorem readBoth_shown (s : Storage g) (len p : Nat) (mbuf : List UInt8) :
    (if (readBoth s p mbuf len).1 = 0 then (readBoth s p mbuf len).2.take len
      else replicate len 0) = shown len (found s len p) := by
  obtain ⟨hstatus, hpage⟩ := readBoth_eq s len p mbuf
  rw [hstatus]
  cases hfound : found s len p with
  | none => rfl
  | some page =>
    rw [hpage page hfound, status, shown]
    by_cases hempty : page.readSum = 0x1234
    · rw [if_pos hempty, if_pos hempty]
      rfl
    · rw [if_neg hempty, if_neg hempty]
      rfl

theorem length_shown (len : Nat) (hlen : len ≤ g.pageSize) (o : Option (Page g)) :
    (shown len o).length = len := by
  have htake : ∀ p : Page g, (p.data.take len).length = len := by
    intro p
    rw [length_take, p.length_data, min_eq_left hlen]
  unfold shown
  split
  · exact length_replicate
  · split
    · exact length_replicate
    · exact htake _

/-- The page of the first copy of an item with an index. -/
def pageOf (g : Geometry) (item i : Nat) : Nat := (item * cnt g + i) % 2 ^ 32

/-- What a read leaves in the buffer. -/
def fetched (s : Storage g) (item : Nat) (buf : List UInt8) : List UInt8 :=
  ((List.range (cnt g)).flatMap fun i => shown (len g) (found s (len g) (pageOf g item i))) ++
    buf.drop (cnt g * len g)

theorem readPages_eq (s : Storage g) (item : Nat) (buf : List UInt8) (left i : Nat)
    (hi : i + left = cnt g) (ret : Int) (mbuf : List UInt8) :
    readPages s item (cnt g) (len g) left i ret mbuf
        (((List.range i).flatMap fun i => shown (len g) (found s (len g) (pageOf g item i))) ++
          buf.drop (i * len g)) =
      (if left = 0 then ret else status (found s (len g) (pageOf g item (cnt g - 1))),
        fetched s item buf) := by
  induction left generalizing i ret mbuf with
  | zero =>
    obtain rfl : i = cnt g := hi
    rfl
  | succ left ih =>
    have hflat : ((List.range i).flatMap fun i =>
        shown (len g) (found s (len g) (pageOf g item i))).length = i * len g := by
      rw [length_flatMap, map_congr_left (fun i _ => length_shown _ (len_le g) _),
        map_const', length_range, sum_replicate, smul_eq_mul]
    have hoff : (if cnt g = 1 then 0 else i * len g) = i * len g := by
      split
      · rw [show i = 0 by omega, zero_mul]
      · rfl
    have hstep : memcpyAt (((List.range i).flatMap fun i =>
          shown (len g) (found s (len g) (pageOf g item i))) ++ buf.drop (i * len g))
          (i * len g) (shown (len g) (found s (len g) (pageOf g item i))) =
        ((List.range (i + 1)).flatMap fun i =>
          shown (len g) (found s (len g) (pageOf g item i))) ++ buf.drop ((i + 1) * len g) := by
      rw [memcpyAt, take_left' hflat, length_shown _ (len_le g), ← hflat,
        drop_length_add_append, hflat, drop_drop, Nat.succ_mul, range_succ,
        flatMap_append, flatMap_singleton]
    have hstatus := (readBoth_eq s (len g) (pageOf g item i) mbuf).1
    rw [readPages]
    simp only [show (item * cnt g + i) % 2 ^ 32 = pageOf g item i from rfl, hoff]
    rw [← apply_ite (memcpyAt _ _), readBoth_shown, hstep, ih (i + 1) (by omega), hstatus,
      if_neg (Nat.succ_ne_zero left)]
    split_ifs
    · rw [show cnt g - 1 = i by omega]
    · rfl

theorem read_eq (s : Storage g) (item : Nat) (buf : List UInt8) :
    read (ready mbuf) s item buf itemLen =
      (status (found s (len g) (pageOf g item (cnt g - 1))), fetched s item buf) := by
  have hpos := cnt_pos g
  have h := readPages_eq s item buf (cnt g) 0 (zero_add _) 0 mbuf
  rw [if_neg (by omega), zero_mul, drop_zero] at h
  exact h

theorem readSum_itemPage (buf : List UInt8) (cnt len i : Nat) :
    (itemPage g buf cnt len i).readSum = checkSum (itemPage g buf cnt len i).data len := by
  have hlt : checkSum (itemPage g buf cnt len i).data len < 256 ^ 4 := Nat.mod_lt _ (by decide)
  have hspare : (itemPage g buf cnt len i).spare =
      [0xff, 0xaa, 0x5c] ++ ((leBytes 4 (checkSum (itemPage g buf cnt len i).data len)).reverse ++
        replicate 57 0xff) := append_assoc _ _ _
  have hfront : ([0xff, 0xaa, 0x5c] : List UInt8).length = 3 := rfl
  have hrev : (leBytes 4 (checkSum (itemPage g buf cnt len i).data len)).reverse.length = 4 := by
    rw [length_reverse, Memory.length_leBytes]
  rw [Page.readSum, hspare, drop_left' hfront, take_left' hrev, Memory.beValue,
    reverse_reverse, Memory.leValue_leBytes _ hlt]

theorem passes_itemPage {buf : List UInt8} {cnt len i : Nat} :
    Passes len (itemPage g buf cnt len i) = true := by
  rw [Passes, readSum_itemPage, beq_self_eq_true, Bool.and_true]
  rfl

theorem take_fill {bs : List UInt8} (h : bs.length ≤ g.pageSize) :
    (fill g bs).take bs.length = bs := by
  rw [fill, take_take, min_eq_left h, take_left']
  rfl

/-- Some pages have been replaced by ones that do not pass. -/
def Corrupted (s s' : Storage g) : Prop :=
  ∀ p, (s'.main p = s.main p ∨ Passes (len g) (s'.main p) = false) ∧
    (s'.bak p = s.bak p ∨ Passes (len g) (s'.bak p) = false)

theorem mem_walk {p q : Nat} (h : q ∈ walk g p) :
    q < g.pageCntPerBlk ∧ ∃ k, q = p + k * maxSecureStorageItem := by
  obtain ⟨k, -, hk⟩ := mem_filterMap.mp h
  split at hk
  · next hlt =>
      obtain rfl := some.inj hk
      exact ⟨hlt, k, rfl⟩
  · cases hk

variable {s' : Storage g}

/-- A page that is found on a way is one of the way that has not been corrupted. -/
theorem found_spec (hsync : s.main = s.bak) (h : Corrupted s s') {p : Nat} {page : Page g}
    (hfound : found s' (len g) p = some page) : ∃ q ∈ walk g p, page = s.main q := by
  have hkept : ∀ b b' : Block g, (∀ q, b' q = b q ∨ Passes (len g) (b' q) = false) →
      ((walk g p).map b').find? (Passes (len g)) = some page → ∃ q ∈ walk g p, page = b q := by
    intro b b' h hfind
    obtain ⟨q, hq, rfl⟩ := List.mem_map.mp (mem_of_find?_eq_some hfind)
    rcases h q with heq | hfail
    · exact ⟨q, hq, heq⟩
    · rw [find?_some hfind] at hfail
      cases hfail
  rcases (Option.orElse_eq_some _ _ _).mp hfound with hmain | ⟨-, hbak⟩
  · exact hkept _ _ (fun q => (h q).1) hmain
  · rw [hsync]
    exact hkept _ _ (fun q => (h q).2) hbak

theorem walk_cons {p : Nat} (hp : p < g.pageCntPerBlk) : ∃ rest, walk g p = p :: rest := by
  obtain ⟨k, hk⟩ : ∃ k, g.pageCntPerBlk = k + 1 := ⟨g.pageCntPerBlk - 1, by omega⟩
  have h := walkFrom_eq (g := g) g.pageCntPerBlk p
  rw [hk, walkFrom, if_pos hp, ← hk] at h
  exact ⟨_, h.symm⟩

theorem found_first {p : Nat} (hp : p < g.pageCntPerBlk)
    (hpass : Passes (len g) (s.main p) = true) : found s (len g) p = some (s.main p) := by
  obtain ⟨rest, hrest⟩ := walk_cons hp
  rw [found, hrest, map_cons, find?_cons_of_pos hpass]
  rfl

/-- A read that returns 0 returns the given bytes. -/
def Requested (e : Env) (s : Storage g) (item : Nat) (buf data : List UInt8) : Prop :=
  (read e s item buf itemLen).1 = 0 → (read e s item buf itemLen).2 = data

/-- The same in terms of the pages that are found. -/
def Delivers (s : Storage g) (item : Nat) (buf data : List UInt8) : Prop :=
  status (found s (len g) (pageOf g item (cnt g - 1))) = 0 → fetched s item buf = data

theorem requested_iff (e : Env) (s : Storage g) (item : Nat) (buf data : List UInt8) :
    Requested e s item buf data ↔
      (e.hwInit = true → e.malloc.isSome = true → Delivers s item buf data) := by
  obtain ⟨hw, malloc⟩ := e
  cases hw with
  | false => exact iff_of_true (fun h => by cases h) fun h => by cases h
  | true =>
    cases malloc with
    | none => exact iff_of_true (fun h => by cases h) fun _ h => by cases h
    | some mbuf =>
      have hread := read_eq mbuf s item buf
      unfold Requested Delivers
      rw [show (⟨true, some mbuf⟩ : Env) = ready mbuf from rfl, hread]
      exact ⟨fun h _ _ => h, fun h => h rfl rfl⟩

section

variable {item : Nat} (hstored : Stored s item data)
include hstored

theorem delivers_of_one {buf : List UInt8} (hs : Corrupted s s') (hsize : itemLen ≤ g.pageSize)
    (hitem : item < maxSecureStorageItem) (hdata : data.length = itemLen)
    (hbuf : buf.length = itemLen) : Delivers s' item buf data := by
  have hcnt : cnt g = 1 := if_pos hsize
  have hlen : len g = itemLen := if_pos hsize
  have hpage : pageOf g item 0 = item := by
    unfold maxSecureStorageItem at hitem
    rw [pageOf, hcnt]
    omega
  intro hstatus
  rw [hcnt, Nat.sub_self, hpage] at hstatus
  rcases hfound : found s' (len g) item with - | page
  · rw [hfound] at hstatus
    cases hstatus
  obtain ⟨q, hq, rfl⟩ := found_spec hstored.1 hs hfound
  obtain ⟨hlt, k, rfl⟩ := mem_walk hq
  have hown : (item + k * maxSecureStorageItem) % period g = item := by
    rw [period, hcnt, mul_one, Nat.add_mul_mod_self_right, Nat.mod_eq_of_lt hitem]
  have hmain := hstored.2 _ hlt (by rw [hown, hcnt, Nat.div_one])
  have htake : (s.main (item + k * maxSecureStorageItem)).data.take itemLen = data := by
    have hd : (itemPage g data (cnt g) (len g) item).data = fill g (data.take (len g)) :=
      if_pos hcnt
    rw [hmain, hown, hd, hlen, take_of_length_le hdata.le, ← hdata, take_fill (by omega)]
  rw [hfound, status] at hstatus
  split_ifs at hstatus with hempty
  · cases hstatus
  rw [fetched, hcnt, range_one, flatMap_singleton, hpage, hfound, shown, if_neg hempty, hlen, htake,
    one_mul, ← hbuf, drop_length, append_nil]

/-- A page of the first copy that has not been corrupted is what is shown, unless it looks empty. -/
theorem shown_of_kept {i : Nat} (hitem : item < maxSecureStorageItem) (hi : i < cnt g)
    (hcnt : cnt g = 2) (hkept : s'.main (pageOf g item i) = s.main (pageOf g item i))
    (hsum : checkSum ((data.drop (g.pageSize * i)).take g.pageSize) g.pageSize ≠ 0x1234)
    (hlen : len g = g.pageSize) (hdata : g.pageSize * (i + 1) ≤ data.length) :
    shown (len g) (found s' (len g) (pageOf g item i)) =
      (data.drop (g.pageSize * i)).take g.pageSize := by
  have hperiod : period g = 64 := by rw [period, hcnt]; rfl
  have hroom := period_le g
  unfold maxSecureStorageItem at hitem
  have hpage : pageOf g item i = item * 2 + i := by
    rw [pageOf, hcnt]
    omega
  have hbytes : ((data.drop (g.pageSize * i)).take g.pageSize).length = g.pageSize := by
    rw [length_take, length_drop, Nat.mul_succ] at *
    omega
  have hmain : s.main (pageOf g item i) = itemPage g data (cnt g) (len g) (item * 2 + i) := by
    have h := hstored.2 (pageOf g item i) (by omega) (by rw [hpage, hperiod, hcnt]; omega)
    rw [hperiod, Nat.mod_eq_of_lt (by omega)] at h
    rw [h, hpage]
  have hfill : (itemPage g data (cnt g) (len g) (item * 2 + i)).data =
      (data.drop (g.pageSize * i)).take g.pageSize := by
    have hd : (itemPage g data (cnt g) (len g) (item * 2 + i)).data =
        fill g ((data.drop (g.pageSize * ((item * 2 + i) % cnt g))).take g.pageSize) :=
      if_neg (by omega)
    rw [hd, hcnt, Nat.mul_add_mod_self_right, Nat.mod_eq_of_lt (by omega), fill,
      take_left' hbytes]
  have hfound : found s' (len g) (pageOf g item i) =
      some (itemPage g data (cnt g) (len g) (item * 2 + i)) := by
    rw [← hmain, ← hkept]
    refine found_first (by omega) ?_
    rw [hkept, hmain]
    exact passes_itemPage
  rw [hfound, shown, readSum_itemPage, hfill, if_neg (by rw [hlen]; exact hsum), hlen,
    take_take, min_self]

theorem delivers_of_two {buf : List UInt8} (hsize : g.pageSize = 2048)
    (hitem : item < maxSecureStorageItem) (hdata : data.length = itemLen)
    (hbuf : buf.length = itemLen)
    (hkept : ∀ i < 2, s'.main (pageOf g item i) = s.main (pageOf g item i))
    (hsum : ∀ i < 2, checkSum ((data.drop (2048 * i)).take 2048) 2048 ≠ 0x1234) :
    Delivers s' item buf data := by
  have hcnt : cnt g = 2 := by
    rw [cnt, pagesCntPerItem, hsize]
    rfl
  have hlen : len g = g.pageSize := by
    rw [len, lenPerPage, hsize]
    rfl
  unfold itemLen at hdata hbuf
  have hshown : ∀ i < 2, shown (len g) (found s' (len g) (pageOf g item i)) =
      (data.drop (2048 * i)).take 2048 := by
    intro i hi
    have h := shown_of_kept hstored hitem (by omega) hcnt (hkept i hi)
      (by rw [hsize]; exact hsum i hi) hlen (by rw [hsize]; omega)
    rwa [hsize] at h
  have hdrop : buf.drop (2 * len g) = [] := drop_eq_nil_of_le (by omega)
  have hsecond : (data.drop 2048).take 2048 = data.drop 2048 :=
    take_of_length_le (by rw [length_drop]; omega)
  intro _
  calc fetched s' item buf
      = shown (len g) (found s' (len g) (pageOf g item 0)) ++
          (shown (len g) (found s' (len g) (pageOf g item 1)) ++ []) ++ buf.drop (2 * len g) := by
        rw [fetched, hcnt]
        rfl
    _ = data.take 2048 ++ data.drop 2048 := by
        rw [hshown 0 (by decide), hshown 1 (by decide), hdrop, append_nil, append_nil,
          mul_zero, drop_zero, mul_one, hsecond]
    _ = data := take_append_drop 2048 data

end

/-- When a read returns the requested item, after any complete writes and with any pages corrupted.
    An item of one page is always the requested one. For one of two pages a first copy that is
    intact and does not look empty is enough. In general it depends on the pages that the read comes
    to. -/
theorem read_requested_iff (s₀ : Storage g) (ws : List (List UInt8 × Nat × List UInt8))
    (hws : ∀ w ∈ ws, w.2.2.length = itemLen) (s : Storage g) (hs : Corrupted (run ws s₀) s)
    (e : Env) (item : Nat) (data : List UInt8) (hlast : lastWritten ws item = some data)
    (buf : List UInt8) (hbuf : buf.length = itemLen) :
    (itemLen ≤ g.pageSize → item < maxSecureStorageItem → Requested e s item buf data) ∧
    (g.pageSize = 2048 → item < maxSecureStorageItem →
      (∀ i < 2, s.main (pageOf g item i) = (run ws s₀).main (pageOf g item i)) →
      (∀ i < 2, checkSum ((data.drop (2048 * i)).take 2048) 2048 ≠ 0x1234) →
      Requested e s item buf data) ∧
    (Requested e s item buf data ↔
      (e.hwInit = true → e.malloc.isSome = true → Delivers s item buf data)) := by
  have hstored := stored_run s₀ data hlast
  have hdata := length_lastWritten hws hlast
  refine ⟨?_, ?_, requested_iff e s item buf data⟩
  · intro hsize hitem
    rw [requested_iff]
    exact fun _ _ => delivers_of_one hstored hs hsize hitem hdata hbuf
  · intro hsize hitem hkept hsum
    rw [requested_iff]
    exact fun _ _ => delivers_of_two hstored hsize hitem hdata hbuf hkept hsum

/-- A block of 64 pages of at least 2048 bytes. -/
def geometry (sectors : Nat) (hfour : 4 ≤ sectors) : Geometry where
  sectorCntPerPage := sectors
  sectorCntPerPage_pos := by omega
  pageCntPerBlk := 64
  room := by
    split
    · decide
    have h : itemLen / (sectors * 512) ≤ 2 := by
      rw [Nat.div_le_iff_le_mul_add_pred (by omega), itemLen]
      omega
    unfold maxSecureStorageItem
    omega

/-- Two erased blocks. -/
def blank (g : Geometry) : Storage g := ⟨eraseBlock g, eraseBlock g⟩

/-- Pages of 2048 bytes. -/
def smallPages : Geometry := geometry 4 (by decide)

theorem cnt_smallPages : cnt smallPages = 2 := by decide

theorem len_smallPages : len smallPages = 2048 := by decide

theorem period_smallPages : period smallPages = 64 := by decide

/-- Writes to the items 0 and 16. -/
def twoWrites : List (List UInt8 × Nat × List UInt8) :=
  [([], 0, replicate 4096 1), ([], 16, replicate 4096 2)]

/-- The blocks after that. -/
def twoItems : Storage smallPages := run twoWrites (blank smallPages)

/-- The same with page 0 of the first block erased. -/
def pageLost : Storage smallPages :=
  { twoItems with main := Function.update twoItems.main 0 (erasedPage smallPages) }

theorem pageLost_zero : pageLost.main 0 = erasedPage smallPages := by
  exact update_self (0 : Nat) (erasedPage smallPages) twoItems.main

theorem pageLost_main {p : Nat} (hp : p ≠ 0) : pageLost.main p = twoItems.main p :=
  update_of_ne hp _ _

theorem passes_erased (len : Nat) : Passes len (erasedPage g) = false := rfl

theorem pageLost_corrupted : Corrupted twoItems pageLost := by
  intro p
  refine ⟨?_, .inl rfl⟩
  by_cases hp : p = 0
  · rw [hp, pageLost_zero]
    exact .inr (passes_erased _)
  · exact .inl (pageLost_main hp)

/-- Item 16 can be read after that. -/
theorem read_requested_pageLost :
    Requested (ready []) pageLost 16 (replicate 4096 0) (replicate 4096 2) := by
  refine (read_requested_iff (blank smallPages) twoWrites ?_ pageLost
    pageLost_corrupted (ready []) 16
    _ rfl _ length_replicate).2.1 rfl (by decide) (fun i _ => pageLost_main ?_) (by decide +kernel)
  · intro w hw
    rcases mem_cons.mp hw with rfl | hw
    · exact length_replicate
    · rw [mem_singleton.mp hw]
      exact length_replicate
  · rw [pageOf, cnt_smallPages]
    omega

theorem pageLost_item (item : Nat) {p : Nat} (h : lastWritten twoWrites item = some data)
    (hp : p ≠ 0) (hlt : p < 64) (hitem : p / 2 = item) :
    pageLost.main p = itemPage smallPages data 2 2048 p := by
  have hstored : Stored twoItems item data := stored_run _ data h
  have hpage := hstored.2 p hlt (by
    rw [cnt_smallPages, period_smallPages, Nat.mod_eq_of_lt hlt, hitem])
  rw [cnt_smallPages, len_smallPages, period_smallPages, Nat.mod_eq_of_lt hlt] at hpage
  exact (pageLost_main hp).trans hpage

theorem pageLost_found_zero : found pageLost 2048 0 =
    some (itemPage smallPages (replicate 4096 2) 2 2048 32) := by
  have hpage : pageLost.main 32 = itemPage smallPages (replicate 4096 2) 2 2048 32 :=
    pageLost_item 16 rfl (by decide) (by decide) (by decide)
  have hwalk : walk smallPages 0 = [0, 32] := by decide
  have hlost : ¬ Passes 2048 (pageLost.main 0) = true := by
    rw [pageLost_zero, passes_erased]
    decide
  rw [found, hwalk, map_cons, map_cons, find?_cons_of_neg hlost,
    find?_cons_of_pos (by rw [hpage]; exact passes_itemPage), hpage]
  rfl

theorem pageLost_found_one : found pageLost 2048 1 =
    some (itemPage smallPages (replicate 4096 1) 2 2048 1) := by
  have hpage : pageLost.main 1 = itemPage smallPages (replicate 4096 1) 2 2048 1 :=
    pageLost_item 0 rfl (by decide) (by decide) (by decide)
  have hfirst := found_first (s := pageLost) (p := 1) (by decide) (by
    rw [len_smallPages, hpage]
    exact passes_itemPage)
  rwa [len_smallPages, hpage] at hfirst

/-- With page 0 of the first block lost, a read of item 0 returns 0 and a page of item 16. -/
theorem other_item_returned :
    Corrupted (run twoWrites (blank smallPages)) pageLost ∧
      lastWritten twoWrites 0 = some (replicate 4096 1) ∧
      ¬ Requested (ready []) pageLost 0 (replicate 4096 0) (replicate 4096 1) := by
  refine ⟨pageLost_corrupted, rfl, ?_⟩
  rw [requested_iff]
  intro h
  have hstatus : status (found pageLost (len smallPages)
      (pageOf smallPages 0 (cnt smallPages - 1))) = 0 := by
    rw [len_smallPages, show pageOf smallPages 0 (cnt smallPages - 1) = 1 by decide,
      pageLost_found_one]
    decide +kernel
  have hfetched := h rfl rfl hstatus
  rw [fetched, cnt_smallPages, len_smallPages, range_succ_eq_map, flatMap_cons,
    show pageOf smallPages 0 0 = 0 by decide, pageLost_found_zero, append_assoc] at hfetched
  -- the first byte of item 16 in place of the one of item 0
  have hhead := congrArg (List.getD · 0 0) hfetched
  have hlen := length_shown 2048 (by decide)
    (some (itemPage smallPages (replicate 4096 2) 2 2048 32))
  have htwo : (shown 2048 (some (itemPage smallPages (replicate 4096 2) 2 2048 32))).getD 0 0 =
      2 := by decide +kernel
  have hone : (replicate 4096 (1 : UInt8)).getD 0 0 = 1 := rfl
  have hfirst := (getD_append _ _ 0 0 (by rw [hlen]; decide)).symm.trans hhead
  rw [htwo, hone] at hfirst
  exact absurd hfirst (by decide)

end Brandy.NandSec
