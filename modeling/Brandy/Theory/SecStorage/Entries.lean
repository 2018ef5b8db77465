import Brandy.Core.SecStorage

/-!
# The Name Map as a Table of Entries

A map that the storage functions have written is the text of a table of at most 31 entries, followed
by a run of NULs, followed by bytes nobody looks at. The run of NULs keeps the three parsers out of
the junk behind it: its length is at least what the entries still to come can take, because
replacing an entry moves the run without cutting into it, and only a new entry shortens it.

## Main definitions

* `Entry`, `serialize`: An entry, and the text of a table.
* `MapText`: A buffer holds a table.

## Theorems

* `probeNameInMap_eq`, `fillNameInMap_eq`, `discardNameInMap_eq`: What the three parsers do to a
  table.
-/

namespace Brandy.SecStorage

open Memory Text Word StoreObject List Option

/-- An entry of the map. The bounds are what the parsers need to read the name and the length
    back. -/
@[ext] structure Entry where
  name : List UInt8
  len : Nat
  short : name.length < mapKeyNameSize
  noColon : colon ∉ name
  noNul : 0 ∉ name
  small : len < 2 ^ 31

/-- The bytes of an entry, with the NUL that ends it. -/
def Entry.bytes (e : Entry) : List UInt8 := entryText e.name e.len ++ [0]

/-- The text of a table. -/
def serialize (es : List Entry) : List UInt8 := es.flatMap Entry.bytes

variable (e : Entry)

theorem serialize_cons (es : List Entry) :
    serialize (e :: es) = e.bytes ++ serialize es := flatMap_cons

/-- The length of the run of NULs behind a table: 75 bytes for every entry that could still be
    added, and more. -/
def gap (es : List Entry) : Nat := mapDataSize - 75 * es.length

/-- The buffer `m` holds the table `es`. -/
structure MapText (m : List UInt8) (es : List Entry) : Prop where
  few : es.length ≤ 31
  size : m.length = secBlkSize
  text : ∃ junk, m = serialize es ++ (replicate (gap es) 0 ++ junk)

/-- The entry left behind by an erased key. -/
def dummyEntry : Entry where
  name := dummyKeyName
  len := 0
  short := by decide
  noColon := by decide
  noNul := by decide
  small := by decide

/-- Whether a lookup of `itemName` stops at an entry: the name is the same and the entry is not a
    dummy. -/
def Entry.answers (itemName : List UInt8) (e : Entry) : Prop :=
  itemName = e.name ∧ ¬ (itemName = dummyKeyName ∧ e.len = 0)

instance (itemName : List UInt8) (e : Entry) : Decidable (e.answers itemName) :=
  inferInstanceAs (Decidable (_ ∧ ¬ (_ ∧ _)))

/-- A lookup in a table whose first entry has the given index. -/
def probeEntries (itemName : List UInt8) : Nat → List Entry → Option (Nat × Int)
  | _, [] => none
  | index, e :: es =>
    if e.answers itemName then some (index, e.len) else probeEntries itemName (index + 1) es

/-- The place of a name in a table. -/
def indexOf (name : List UInt8) (es : List Entry) : Option Nat :=
  es.findIdx? (fun e => e.name = name)

/-- Storing an entry: nothing changes when the name is there; otherwise the first dummy is replaced,
    or the entry is added if there are fewer than 31. -/
def fillEntries (e : Entry) (es : List Entry) : Int × List Entry :=
  match indexOf e.name es with
  | some i => ((i + 1 : Nat), es)
  | none =>
    match indexOf dummyKeyName es with
    | some i => ((i + 1 : Nat), es.set i e)
    | none => if 31 ≤ es.length then (-1, es) else ((es.length + 1 : Nat), es ++ [e])

/-- Erasing a name: its entry becomes a dummy. -/
def discardEntries (itemName : List UInt8) (es : List Entry) : Int × List Entry :=
  match indexOf itemName es with
  | some i => ((i + 1 : Nat), es.set i dummyEntry)
  | none => (-1, es)

theorem formatInt_natCast (n : Nat) : formatInt n = decimal n := by
  have h : ¬ (n : Int) < 0 := by omega
  rw [formatInt, if_neg h, Int.toNat_natCast]

theorem Entry.bytes_append (rest : List UInt8) :
    e.bytes ++ rest = e.name ++ colon :: (decimal e.len ++ 0 :: rest) := by
  simp [Entry.bytes, entryText, formatInt_natCast]

theorem Entry.length_bytes :
    e.bytes.length = e.name.length + 1 + (decimal e.len).length + 1 := by
  simp only [Entry.bytes, entryText, formatInt_natCast, length_append, length_cons,
    length_nil]
  omega

theorem Entry.length_bytes_le : e.bytes.length ≤ 75 := by
  have hname := e.short
  have hlen := length_decimal e.len
  rw [e.length_bytes]
  unfold mapKeyNameSize at hname
  omega

theorem ne_of_mem_decimal {n : Nat} {b : UInt8} (hb : b ∈ decimal n) : b ≠ 0 ∧ b ≠ space := by
  have h := (mem_decimal hb).1
  refine ⟨?_, ?_⟩ <;> rintro rfl <;> exact absurd h (by decide)

theorem Entry.nul_notMem : 0 ∉ entryText e.name e.len := by
  intro h
  rw [entryText, formatInt_natCast] at h
  rcases mem_append.mp h with h | h
  · exact e.noNul h
  · rcases mem_cons.mp h with h | h
    · exact absurd h (by decide)
    · exact (ne_of_mem_decimal h).1 rfl

section

variable (e : Entry) (rest : List UInt8)

theorem Entry.strlen_bytes : strlen (e.bytes ++ rest) + 1 = e.bytes.length := by
  have h := strlen_append rest e.nul_notMem
  simp only [Entry.bytes, append_assoc, singleton_append, h, length_append,
    length_singleton]

theorem Entry.headD_ne : (e.bytes ++ rest).headD 0 ≠ 0 := by
  rw [e.bytes_append]
  cases hn : e.name with
  | nil => exact (by decide : colon ≠ 0)
  | cons b bs =>
    intro h
    exact e.noNul (by rw [hn, ← show b = 0 from h]; exact mem_cons_self)

theorem Entry.scan_name (stop : UInt8 → Bool) (hstop : ∀ b, stop b = true → b = colon ∨ b = 0)
    (hcolon : stop colon = true) : scan stop mapKeyNameSize (e.bytes ++ rest) = e.name := by
  rw [e.bytes_append]
  refine scan_append _ _ _ _ _ (fun b hb => ?_) hcolon e.short
  by_contra h
  rcases hstop b (by simpa using h) with rfl | rfl
  · exact e.noColon hb
  · exact e.noNul hb

theorem Entry.scan_length :
    scan (fun b => b = space || b = 0) mapKeyDataSize
      ((e.bytes ++ rest).drop (e.name.length + 1)) = decimal e.len := by
  have hdrop : (e.bytes ++ rest).drop (e.name.length + 1) = decimal e.len ++ 0 :: rest := by
    rw [e.bytes_append, ← drop_drop, drop_left]
    rfl
  rw [hdrop]
  refine scan_append _ _ _ _ _ (fun b hb => ?_) (by decide) ?_
  · have h := ne_of_mem_decimal hb
    simp [h.1, h.2]
  · have h := length_decimal e.len
    unfold mapKeyDataSize
    omega

end

theorem Entry.strtoul_len (e : Entry) : s32 (strtoul (decimal e.len)) = e.len := by
  have h := e.small
  rw [strtoul_decimal (by omega)]
  exact s32_of_range

variable {buffer rest : List UInt8} {start : Nat}

theorem drop_next {e : Entry} (h : buffer.drop start = e.bytes ++ rest) :
    buffer.drop (start + e.bytes.length) = rest := by
  rw [← drop_drop, h, drop_left]

theorem probeLoop_entry {e : Entry} (h : buffer.drop start = e.bytes ++ rest) (itemName : CString)
    (fuel index : Nat) :
    probeLoop buffer itemName (fuel + 1) start index =
      if e.answers itemName.bytes then some (index, (e.len : Int))
      else probeLoop buffer itemName fuel (start + e.bytes.length) (index + 1) := by
  have hname := e.scan_name rest (fun b => b = colon || b = 0) (by simp) (by decide)
  have hshort : ¬ mapKeyNameSize ≤ e.name.length := Nat.not_le.mpr e.short
  have hdigits := length_decimal e.len
  have hfit : ¬ ((e.bytes ++ rest).length ≤ e.name.length + 1 + (decimal e.len).length ∨
      mapKeyDataSize ≤ (decimal e.len).length) := by
    rw [length_append, e.length_bytes]
    unfold mapKeyDataSize
    omega
  rw [probeLoop]
  simp only [h, if_neg (e.headD_ne rest), hname, if_neg hshort, e.scan_length rest, if_neg hfit,
    e.strtoul_len]
  by_cases hitem : itemName.bytes = e.name
  · rw [if_pos hitem]
    by_cases hdummy : itemName.bytes = dummyKeyName ∧ (e.len : Int) = 0
    · -- a dummy is skipped from behind its name, which ends at the same place
      have hnext : start + (itemName.bytes.length + 1) +
          (strlen (buffer.drop (start + (itemName.bytes.length + 1))) + 1) =
          start + e.bytes.length := by
        have hdrop : buffer.drop (start + (itemName.bytes.length + 1)) =
            decimal e.len ++ 0 :: rest := by
          rw [← drop_drop, h, hitem, e.bytes_append, ← drop_drop, drop_left]
          rfl
        rw [hdrop, strlen_append _ (fun hz => (ne_of_mem_decimal hz).1 rfl), e.length_bytes,
          hitem]
        omega
      have hno : ¬ e.answers itemName.bytes := by
        intro hc
        exact hc.2 ⟨hdummy.1, by omega⟩
      rw [if_pos hdummy, hnext, if_neg hno]
    · have hyes : e.answers itemName.bytes := ⟨hitem, fun hc => hdummy ⟨hc.1, by omega⟩⟩
      rw [if_neg hdummy, if_pos hyes]
  · have hno : ¬ e.answers itemName.bytes := fun hc => hitem hc.1
    rw [if_neg hitem, e.strlen_bytes rest, if_neg hno]

theorem probeLoop_serialize (itemName : CString) (es : List Entry) (fuel start index : Nat)
    (hfuel : es.length ≤ fuel) (h : buffer.drop start = serialize es ++ 0 :: rest) :
    probeLoop buffer itemName fuel start index = probeEntries itemName.bytes index es := by
  induction es generalizing fuel start index with
  | nil =>
    have h : buffer.drop start = 0 :: rest := h
    cases fuel with
    | zero => rfl
    | succ fuel => simp [probeLoop, h, probeEntries]
  | cons e es ih =>
    obtain ⟨fuel, rfl⟩ : ∃ f, fuel = f + 1 := ⟨fuel - 1, by simp at hfuel; omega⟩
    rw [serialize_cons, append_assoc] at h
    rw [probeLoop_entry h, probeEntries, ih fuel _ _ (by simpa using hfuel) (drop_next h)]

theorem drop_length_le {e : Entry} (h : buffer.drop start = e.bytes ++ rest) :
    start + e.bytes.length ≤ buffer.length := by
  have hlen := congrArg length h
  rw [length_drop, length_append] at hlen
  have hpos := e.length_bytes
  omega

theorem Entry.not_dirty (e : Entry) (rest : List UInt8) :
    ¬ ((e.bytes ++ rest).length ≤ e.name.length ∨ mapKeyNameSize ≤ e.name.length) := by
  have hshort := e.short
  rw [length_append, e.length_bytes]
  omega

theorem indexOf_cons (name : List UInt8) (e : Entry) (es : List Entry) :
    indexOf name (e :: es) =
      if e.name = name then some 0 else (indexOf name es).map (fun i => i + 1) := by
  simp [indexOf, findIdx?_cons]

theorem fillLoop_serialize (itemName : CString) (es : List Entry) (fuel start index : Nat)
    (dummy : Option DummyKey) (hfuel : es.length ≤ fuel)
    (h : buffer.drop start = serialize es ++ 0 :: rest) :
    fillLoop buffer itemName fuel start index dummy =
      match indexOf itemName.bytes es with
      | some i => .found (index + i)
      | none => .done buffer (start + (serialize es).length) (index + es.length)
          (dummy.or ((indexOf dummyKeyName es).map (fun i =>
            ⟨index + i, start + (serialize (es.take i)).length,
              writeBackBuf buffer (start + (serialize (es.take (i + 1))).length)⟩))) := by
  induction es generalizing fuel start index dummy with
  | nil =>
    have h : buffer.drop start = 0 :: rest := h
    cases fuel <;> cases dummy <;> simp [fillLoop, h, indexOf, serialize]
  | cons e es ih =>
    obtain ⟨fuel, rfl⟩ : ∃ f, fuel = f + 1 := ⟨fuel - 1, by simp at hfuel; omega⟩
    rw [serialize_cons, append_assoc] at h
    have hname := e.scan_name (serialize es ++ 0 :: rest) (fun b => b = colon) (by simp) (by decide)
    have hin : ¬ buffer.length < start + e.bytes.length := Nat.not_lt.mpr (drop_length_le h)
    have hnext := fun dummy => ih fuel _ (index + 1) dummy (by simpa using hfuel) (drop_next h)
    rw [fillLoop, indexOf_cons, indexOf_cons]
    simp only [h, if_neg (e.headD_ne _), hname, if_neg (e.not_dirty _), e.strlen_bytes, if_neg hin,
      hnext]
    by_cases hitem : e.name = itemName.bytes
    · simp [hitem]
    simp only [hitem, if_false]
    cases indexOf itemName.bytes es with
    | some i => simp [add_assoc, add_comm 1 i]
    | none =>
      -- the first dummy is noted
      by_cases hd : e.name = dummyKeyName
      · cases dummy <;> simp [hd, serialize, add_assoc, add_comm 1]
      · cases indexOf dummyKeyName es <;>
          simp [hd, serialize_cons, add_assoc, add_comm 1]

theorem serialize_append (es fs : List Entry) :
    serialize (es ++ fs) = serialize es ++ serialize fs := by
  simp [serialize]

theorem serialize_singleton (e : Entry) : serialize [e] = e.bytes := by
  simp [serialize]

theorem length_serialize_le (es : List Entry) : (serialize es).length ≤ 75 * es.length := by
  induction es with
  | nil => simp [serialize]
  | cons e es ih =>
    have he := e.length_bytes_le
    rw [serialize_cons, length_append, length_cons]
    omega

variable {es : List Entry}

theorem length_serialize_add_gap (few : es.length ≤ 31) :
    (serialize es).length + gap es ≤ mapDataSize := by
  have h := length_serialize_le es
  unfold gap mapDataSize secBlkSize
  omega

variable {m : List UInt8}

theorem MapText.parsed (h : MapText m es) :
    es.length ≤ secBlkSize ∧ ∃ rest, m.drop 0 = serialize es ++ 0 :: rest := by
  obtain ⟨junk, hm⟩ := h.text
  have few := h.few
  obtain ⟨g, hg⟩ : ∃ g, gap es = g + 1 :=
    ⟨gap es - 1, by unfold gap mapDataSize secBlkSize; omega⟩
  refine ⟨few.trans (by decide), replicate g 0 ++ junk, ?_⟩
  rw [drop_zero, hm, hg, replicate_succ, cons_append]

theorem mapText_zeros : MapText (replicate secBlkSize 0) [] where
  few := by simp
  size := length_replicate
  text := ⟨replicate 8 0, by
    simp only [serialize, flatMap_nil, nil_append, replicate_append_replicate]
    rfl⟩

theorem MapText.of_take {m' : List UInt8} (h : MapText m es) (size : m'.length = secBlkSize)
    (htake : m'.take mapDataSize = m.take mapDataSize) :
    MapText m' es where
  few := h.few
  size := size
  text := by
    obtain ⟨junk, hm⟩ := h.text
    have hle := length_serialize_add_gap h.few
    have hpre : serialize es ++ replicate (gap es) 0 <+: m'.take mapDataSize := by
      rw [htake]
      refine prefix_take_iff.mpr ⟨⟨junk, by rw [hm, append_assoc]⟩, ?_⟩
      rw [length_append, length_replicate]
      exact hle
    obtain ⟨junk', hm'⟩ := hpre.trans (List.take_prefix _ m')
    exact ⟨junk', by rw [← hm', append_assoc]⟩

theorem mapText_sealMap (h : MapText m es) : MapText (sealMap m) es := by
  have hlen : (m.take mapDataSize).length = mapDataSize := by
    rw [length_take, h.size]
    rfl
  refine h.of_take ?_ ?_
  · simp only [sealMap, length_append, hlen, length_leBytes]
    rfl
  · simp only [sealMap, append_assoc]
    rw [take_append_of_le_length (by omega), take_of_length_le (by omega)]

theorem probeNameInMap_eq (h : MapText m es) (itemName : CString) :
    probeNameInMap m itemName = probeEntries itemName.bytes 1 es := by
  obtain ⟨hfuel, rest, hm⟩ := h.parsed
  exact probeLoop_serialize itemName es secBlkSize 0 1 hfuel hm

theorem replaceEntry_eq (front text old back : List UInt8) (htext : 0 ∉ text)
    (hsize : (front ++ old ++ back).length = secBlkSize)
    (hfit : front.length + (text.length + 1) ≤ secBlkSize) :
    replaceEntry (front ++ old ++ back) front.length text
        (writeBackBuf (front ++ old ++ back) (front.length + old.length)) =
      some (front ++ (text ++ [0]) ++
        (padTo secBlkSize back).take (secBlkSize - (front.length + (text.length + 1)))) := by
  have hback : (front ++ old ++ back).drop (front.length + old.length) = back := by
    rw [← length_append, drop_left]
  obtain ⟨mid, hmid⟩ : ∃ mid, patch (front ++ old ++ back) front.length (text ++ [0]) =
      some (front ++ (text ++ [0]) ++ mid) :=
    ⟨_, by
      rw [patch, if_pos (by simp only [length_append, length_singleton] at hsize ⊢; omega),
        append_assoc front old back, take_left]⟩
  have hmidlen := length_patch hmid
  rw [hsize] at hmidlen
  have hstrlen : strlen ((front ++ (text ++ [0]) ++ mid).drop front.length) = text.length := by
    rw [append_assoc, drop_left, append_assoc, singleton_append,
      strlen_append _ htext]
  rw [replaceEntry, hmid, bind_eq_bind, bind_some, hstrlen, writeBackBuf, hback]
  -- the bytes copied back are as many as there are behind the new entry
  have hend : (front ++ (text ++ [0])).length = front.length + (text.length + 1) := by simp
  have hwb : ((padTo secBlkSize back).take
      (secBlkSize - (front.length + (text.length + 1)))).length = mid.length := by
    have hb : back.length ≤ secBlkSize := by
      rw [← hsize]; simp only [length_append]; omega
    rw [length_take, length_padTo _ _ hb]
    simp only [length_append, length_singleton] at hmidlen
    omega
  have hpatch := patch_append (front ++ (text ++ [0])) mid [] _ hwb.symm
  rw [append_nil, append_nil, hend] at hpatch
  exact hpatch

theorem length_replaceEntry {text writeBack result : List UInt8}
    (h : replaceEntry buffer start text writeBack = some result) :
    result.length = buffer.length := by
  obtain ⟨mid, hmid, hres⟩ := bind_eq_some_iff.mp h
  rw [length_patch hres, length_patch hmid]

theorem MapText.replaceEntry (h : MapText m es) {i : Nat} (hi : i < es.length) (e : Entry) :
    ∃ m', replaceEntry m (serialize (es.take i)).length (entryText e.name e.len)
        (writeBackBuf m (serialize (es.take (i + 1))).length) = some m' ∧
      MapText m' (es.set i e) := by
  obtain ⟨junk, hm⟩ := h.text
  -- the table around the entry, and the text cut in the same way
  have htake : serialize (es.take (i + 1)) = serialize (es.take i) ++ es[i].bytes := by
    rw [take_succ_eq_append_getElem hi, serialize_append, serialize_singleton]
  have hes : serialize es = serialize (es.take (i + 1)) ++ serialize (es.drop (i + 1)) := by
    rw [← serialize_append, take_append_drop]
  have hset : serialize (es.set i e) =
      serialize (es.take i) ++ (e.bytes ++ serialize (es.drop (i + 1))) := by
    rw [set_eq_take_append_cons_drop, if_pos hi, serialize_append]
    rfl
  have hgap : gap (es.set i e) = gap es := by simp [gap]
  have hle : (serialize (es.set i e)).length + gap (es.set i e) ≤ mapDataSize :=
    length_serialize_add_gap (by simpa using h.few)
  rw [hset, hgap] at hle
  simp only [length_append] at hle
  have hbytes : e.bytes = entryText e.name e.len ++ [0] := rfl
  have hlen : e.bytes.length = (entryText e.name e.len).length + 1 := by
    rw [hbytes, length_append, length_singleton]
  have hcut : m = serialize (es.take i) ++ es[i].bytes ++
      (serialize (es.drop (i + 1)) ++ (replicate (gap es) 0 ++ junk)) := by
    rw [hm, hes, htake]
    simp only [append_assoc]
  have hsize := h.size
  rw [hcut] at hsize
  have hresult := replaceEntry_eq (serialize (es.take i)) (entryText e.name e.len) es[i].bytes
    (serialize (es.drop (i + 1)) ++ (replicate (gap es) 0 ++ junk)) e.nul_notMem hsize (by
      unfold mapDataSize at hle
      omega)
  rw [← hcut, ← length_append, ← htake] at hresult
  refine ⟨_, hresult, by simpa using h.few, by rw [length_replaceEntry hresult, h.size], ?_⟩
  -- the copy does not reach into the table behind the entry or its run of NULs
  obtain ⟨junk', hjunk'⟩ := take_padTo_append secBlkSize
    (secBlkSize - ((serialize (es.take i)).length + ((entryText e.name e.len).length + 1)))
    (serialize (es.drop (i + 1)) ++ replicate (gap es) 0) junk (by
      rw [length_append, length_replicate]
      unfold mapDataSize at hle
      omega)
  refine ⟨junk', ?_⟩
  rw [← append_assoc (serialize (es.drop (i + 1))), hjunk', hset, hgap, ← hbytes]
  simp only [append_assoc]

theorem indexOf_lt {name : List UInt8} {i : Nat} (h : indexOf name es = some i) :
    i < es.length := by
  obtain ⟨hi, -⟩ := findIdx?_eq_some_iff_getElem.mp h
  exact hi

theorem MapText.append (h : MapText m es) (hroom : es.length < 31) (e : Entry) :
    ∃ m', patch m (serialize es).length e.bytes = some m' ∧ MapText m' (es ++ [e]) := by
  obtain ⟨junk, hm⟩ := h.text
  have he := e.length_bytes_le
  have hgap : gap es = e.bytes.length + (gap es - e.bytes.length) := by
    unfold gap mapDataSize secBlkSize
    omega
  have hgap' : gap es - e.bytes.length = gap (es ++ [e]) + (75 - e.bytes.length) := by
    unfold gap mapDataSize secBlkSize
    rw [length_append, length_singleton]
    omega
  -- the entry takes the first bytes of the run
  have hcut : m = serialize es ++ replicate e.bytes.length 0 ++
      (replicate (gap es - e.bytes.length) 0 ++ junk) := by
    rw [hm, append_assoc, ← append_assoc (replicate e.bytes.length 0),
      replicate_append_replicate, ← hgap]
  have hpatch := patch_append (serialize es) (replicate e.bytes.length 0)
    (replicate (gap es - e.bytes.length) 0 ++ junk) e.bytes length_replicate
  rw [← hcut] at hpatch
  refine ⟨_, hpatch, by rw [length_append, length_singleton]; omega,
    by rw [length_patch hpatch, h.size], replicate (75 - e.bytes.length) 0 ++ junk, ?_⟩
  rw [serialize_append, serialize_singleton, hgap', ← replicate_append_replicate]
  simp only [append_assoc]

section

variable (h : MapText m es) (itemName : CString)
include h

theorem fillLoop_eq :
    fillLoop m itemName secBlkSize 0 1 none =
      match indexOf itemName.bytes es with
      | some i => .found (i + 1)
      | none => .done m (serialize es).length (es.length + 1)
          ((indexOf dummyKeyName es).map (fun i =>
            ⟨i + 1, (serialize (es.take i)).length,
              writeBackBuf m (serialize (es.take (i + 1))).length⟩)) := by
  obtain ⟨hfuel, rest, hm⟩ := h.parsed
  rw [fillLoop_serialize itemName es secBlkSize 0 1 none hfuel hm]
  simp only [zero_add, add_comm 1, none_or]

theorem fillNameInMap_eq (e : Entry) (he : e.name = itemName.bytes) :
    ∃ m', fillNameInMap m itemName e.len = some ((fillEntries e es).1, m') ∧
      MapText m' (fillEntries e es).2 := by
  rw [fillNameInMap, fillLoop_eq h, fillEntries, he]
  cases hitem : indexOf itemName.bytes es with
  | some i => exact ⟨m, rfl, h⟩
  | none =>
    cases hdummy : indexOf dummyKeyName es with
    | some i =>
      obtain ⟨m', hm', htext⟩ := h.replaceEntry (indexOf_lt hdummy) e
      rw [he] at hm'
      exact ⟨m', by simp only [map_some, hm'], htext⟩
    | none =>
      by_cases hfull : 31 ≤ es.length
      · have h32 : 32 ≤ es.length + 1 := by omega
        simp only [map_none, if_pos hfull, if_pos h32]
        exact ⟨m, rfl, h⟩
      obtain ⟨m', hm', htext⟩ := h.append (Nat.not_le.mp hfull) e
      have h32 : ¬ 32 ≤ es.length + 1 := by omega
      rw [Entry.bytes, he] at hm'
      simp only [map_none, if_neg hfull, if_neg h32, hm', map_some]
      exact ⟨m', rfl, htext⟩

/-- A name that does not get an index leaves the map alone, whatever the name. -/
theorem fillNameInMap_full {m' : List UInt8} (length index : Int)
    (hfill : fillNameInMap m itemName length = some (index, m')) (hneg : index < 0) : m' = m := by
  rw [fillNameInMap, fillLoop_eq h] at hfill
  cases hitem : indexOf itemName.bytes es with
  | some i =>
    rw [hitem] at hfill
    cases hfill
    rfl
  | none =>
    rw [hitem] at hfill
    cases hdummy : indexOf dummyKeyName es with
    | some i =>
      rw [hdummy] at hfill
      obtain ⟨m1, -, hm1⟩ := map_eq_some_iff.mp hfill
      cases hm1
      omega
    | none =>
      rw [hdummy] at hfill
      simp only [map_none] at hfill
      split at hfill
      · cases hfill
        rfl
      · obtain ⟨m1, -, hm1⟩ := map_eq_some_iff.mp hfill
        cases hm1
        omega

end

theorem discardLoop_serialize (itemName : CString) (es : List Entry) (fuel start index : Nat)
    (hfuel : es.length ≤ fuel) (h : buffer.drop start = serialize es ++ 0 :: rest) :
    discardLoop buffer itemName fuel start index =
      match indexOf itemName.bytes es with
      | some i => (replaceEntry buffer (start + (serialize (es.take i)).length)
          (entryText dummyKeyName 0)
          (writeBackBuf buffer (start + (serialize (es.take (i + 1))).length))).map
            (fun buffer => ((index + i : Nat), buffer))
      | none => some (-1, buffer) := by
  induction es generalizing fuel start index with
  | nil =>
    have h : buffer.drop start = 0 :: rest := h
    cases fuel with
    | zero => rfl
    | succ fuel => simp [discardLoop, h, indexOf]
  | cons e es ih =>
    obtain ⟨fuel, rfl⟩ : ∃ f, fuel = f + 1 := ⟨fuel - 1, by simp at hfuel; omega⟩
    rw [serialize_cons, append_assoc] at h
    have hname := e.scan_name (serialize es ++ 0 :: rest) (fun b => b = colon) (by simp) (by decide)
    have hin : ¬ buffer.length < start + e.bytes.length := Nat.not_lt.mpr (drop_length_le h)
    rw [discardLoop, indexOf_cons]
    simp only [h, if_neg (e.headD_ne _), hname, if_neg (e.not_dirty _), e.strlen_bytes, if_neg hin]
    by_cases hitem : e.name = itemName.bytes
    · simp [hitem, serialize]
    · rw [if_neg hitem, if_neg hitem, ih fuel _ _ (by simpa using hfuel) (drop_next h)]
      cases indexOf itemName.bytes es with
      | none => rfl
      | some i => simp [serialize_cons, add_assoc, add_comm 1 i]

theorem discardNameInMap_eq (h : MapText m es) (itemName : CString) :
    ∃ m', discardNameInMap m itemName = some ((discardEntries itemName.bytes es).1, m') ∧
      MapText m' (discardEntries itemName.bytes es).2 := by
  obtain ⟨hfuel, rest, hm⟩ := h.parsed
  rw [discardNameInMap, discardLoop_serialize itemName es secBlkSize 0 1 hfuel hm, discardEntries]
  cases hitem : indexOf itemName.bytes es with
  | none => exact ⟨m, rfl, h⟩
  | some i =>
    obtain ⟨m', hm', htext⟩ := h.replaceEntry (indexOf_lt hitem) dummyEntry
    refine ⟨m', ?_, htext⟩
    simp only [zero_add, add_comm 1 i]
    rw [show entryText dummyKeyName 0 = entryText dummyEntry.name dummyEntry.len from rfl, hm']
    rfl

end Brandy.SecStorage
