import Brandy.Theory.SecStorage.Storage
import Mathlib.Data.Finset.Card

/-!
# The Secure Storage as a Key/Value Store

What the secure storage is for: a finite map from keys to values. A key is a name of 1 to 63 bytes
without colon that is not the dummy's, and a value has 1 to 4096 bytes. There is room for 31 keys,
and a value may only be replaced by one of the same length.

## Main definitions

* `Store`, `Store.serve`: The finite map, and a request to it.
* `Refines`: The storage holds exactly what the map holds.

## Theorems

* `serveKey_refines`: One request.
* `serveKeys_refines`: As long as slot writes succeed the storage gives the replies of the map,
  across restarts.
-/

namespace Brandy.SecStorage

open Memory Text Word StoreObject List Option Function

/-- A name that may be used for a key. -/
@[ext] structure Key where
  name : CString
  nonempty : name.bytes ≠ []
  short : name.bytes.length ≤ 63
  noColon : colon ∉ name.bytes
  notReserved : name.bytes ≠ dummyKeyName
  deriving DecidableEq

/-- What may be stored under a key. -/
structure Value where
  bytes : List UInt8
  nonempty : 1 ≤ bytes.length
  short : bytes.length ≤ secBlkSize

/-- A finite map from keys to values: the keys in use, and their values. -/
structure Store where
  live : Finset Key
  value : Key → Value

/-- A request, with `reinit` for `sunxi_secure_storage_exit` followed by
    `sunxi_secure_storage_init`. -/
inductive KeyRequest where
  | write (k : Key) (v : Value)
  | erase (k : Key)
  | read (k : Key)
  | reinit

/-- A return code, or the bytes and the length of a successful read. -/
inductive Reply where
  | code (ret : Int)
  | data (bytes : List UInt8) (len : Int)

/-- A request to the finite map. -/
def Store.serve (s : Store) : KeyRequest → Reply × Store
  | .write k v =>
    if k ∈ s.live then
      if (s.value k).bytes.length = v.bytes.length then
        (.code 0, { s with value := update s.value k v })
      else (.code (-1), s)
    else if s.live.card < 31 then
      (.code 0, { live := insert k s.live, value := update s.value k v })
    else (.code (-1), s)
  | .erase k =>
    if k ∈ s.live then (.code 0, { s with live := s.live.erase k }) else (.code (-2), s)
  | .read k =>
    if k ∈ s.live then (.data (s.value k).bytes (s.value k).bytes.length, s)
    else (.code (-2), s)
  | .reinit => (.code 0, s)

/-- A run of requests to the finite map. -/
def Store.serveAll : Store → List KeyRequest → List Reply × Store
  | s, [] => ([], s)
  | s, r :: rs =>
    let (reply, s) := s.serve r
    let (replies, s) := s.serveAll rs
    (reply :: replies, s)

/-- Slot writes that all succeed. -/
def allOk : Nat → Bool := fun _ => true

/-- A request to the storage. -/
def serveKey (st : State) : KeyRequest → Option (Reply × State)
  | .write k v =>
    (sunxiSecureStorageWrite allOk st k.name v.bytes v.bytes.length).map
      (fun r => (.code r.1, r.2))
  | .erase k => (sunxiSecureStorageErase allOk st k.name).map (fun r => (.code r.1, r.2))
  | .read k =>
    match sunxiSecureStorageRead st k.name secBlkSize with
    | .error ret => some (.code ret, st)
    | .ok (bytes, len) => some (.data bytes len, st)
  | .reinit =>
    let (ret, st) := sunxiSecureStorageExit allOk st
    if ret ≠ 0 then some (.code ret, st)
    else
      let (ret, st) := sunxiSecureStorageInit st
      some (.code ret, st)

/-- A run of requests to the storage. -/
def serveKeys : State → List KeyRequest → Option (List Reply × State)
  | st, [] => some ([], st)
  | st, r :: rs => do
    let (reply, st) ← serveKey st r
    let (replies, st) ← serveKeys st rs
    some (reply :: replies, st)

/-- The slot of a key. -/
def slotIndex (st : State) (k : Key) : Option Nat :=
  (probeNameInMap st.map k.name).map Prod.fst

/-- An entry that is not a dummy. -/
def Entry.isKey (e : Entry) : Bool := e.name ≠ dummyKeyName

/-- The storage holds exactly what the map holds: in the table `es` every entry is a dummy or stands
    for a live key, whose value is in its slot. Slot 0 has the map unless it counts as changed. -/
structure Refines (st : State) (s : Store) (es : List Entry) : Prop where
  inited : st.inited = true
  text : MapText st.map es
  distinct : Distinct es
  saved : st.mapDirty = false → MapText (loadMap (st.slots 0)) es
  entries : ∀ (i : Nat) (e : Entry), es[i]? = some e → e = dummyEntry ∨
    ∃ k ∈ s.live, e.name = k.name.bytes ∧ e.len = (s.value k).bytes.length ∧
      (st.slots (i + 1)).take e.len = (s.value k).bytes
  live : ∀ k ∈ s.live, ∃ (i : Nat) (e : Entry), es[i]? = some e ∧ e.name = k.name.bytes
  count : s.live.card = es.countP Entry.isKey

theorem Key.wellNamed (k : Key) : WellNamed k.name :=
  ⟨Nat.lt_succ_of_le k.short, k.noColon⟩

variable {k : Key}

theorem Key.ext_bytes {k' : Key} (h : k.name.bytes = k'.name.bytes) : k = k' := by
  have hname : k.name = k'.name := by
    cases hk : k.name
    cases hk' : k'.name
    rw [hk, hk'] at h
    simpa using h
  exact Key.ext hname

section

variable {st : State} {s : Store} {es : List Entry} {e : Entry}

section

variable (h : Refines st s es)
include h

theorem Refines.entry {i : Nat} (he : es[i]? = some e) (hname : e.name = k.name.bytes) :
    k ∈ s.live ∧ e.len = (s.value k).bytes.length ∧
      (st.slots (i + 1)).take e.len = (s.value k).bytes := by
  rcases h.entries i e he with rfl | ⟨k', hk', hname', hlen, hslot⟩
  · exact absurd hname.symm k.notReserved
  · have hkk : k' = k := Key.ext_bytes (hname'.symm.trans hname)
    subst hkk
    exact ⟨hk', hlen, hslot⟩

theorem Refines.probe_live (hk : k ∈ s.live) :
    ∃ (i : Nat) (e : Entry), es[i]? = some e ∧ e.name = k.name.bytes ∧
      probeNameInMap st.map k.name = some (i + 1, (e.len : Int)) := by
  obtain ⟨i, e, he, hname⟩ := h.live k hk
  refine ⟨i, e, he, hname, ?_⟩
  rw [probeNameInMap_eq h.text]
  exact (probeEntries_eq_some_iff h.distinct k.notReserved 1 (i + 1) e.len).mpr
    ⟨i, e, by omega, he, hname, rfl⟩

theorem Refines.name_ne (hk : k ∉ s.live) : ∀ e ∈ es, e.name ≠ k.name.bytes := by
  intro e hmem hname
  obtain ⟨i, he⟩ := mem_iff_getElem?.mp hmem
  exact hk (h.entry he hname).1

theorem Refines.probe_dead (hk : k ∉ s.live) : probeNameInMap st.map k.name = none := by
  rw [probeNameInMap_eq h.text]
  exact probeEntries_none_iff.mpr (fun e he hans => h.name_ne hk e he hans.1.symm)

theorem read_refines (k : Key) : serveKey st (.read k) = some ((s.serve (.read k)).1, st) := by
  have hnot : ¬ (!st.inited) = true := by rw [h.inited]; decide
  rw [serveKey, sunxiSecureStorageRead, if_neg hnot, Store.serve]
  by_cases hk : k ∈ s.live
  · obtain ⟨i, e, he, hname, hprobe⟩ := h.probe_live hk
    obtain ⟨-, hlen, hslot⟩ := h.entry he hname
    have hshort := (s.value k).short
    have hn : ¬ ((secBlkSize : Nat) : Int) < e.len := by omega
    simp only [hprobe, if_neg hn, Int.toNat_natCast, hslot, if_pos hk]
    rw [hlen]
  · simp only [h.probe_dead hk, if_neg hk]

end

theorem storeData_allOk (st : State) (index : Nat) (v : Value) :
    ∃ st', storeData allOk st index v.bytes v.bytes.length = some (0, st') ∧
      Touches index st st' ∧ st'.mapDirty = true ∧
      (st'.slots index).take v.bytes.length = v.bytes := by
  have hshort := v.short
  have hbig : ¬ (secBlkSize : Int) < (v.bytes.length : Int) := by omega
  have hneg : ¬ (v.bytes.length : Int) < 0 := by omega
  have htouch := sunxiSecstorageWrite_touches allOk st index (padTo secBlkSize v.bytes)
  rw [storeData, if_neg hbig, if_neg hneg, Int.toNat_natCast, take_length]
  rw [sunxiSecstorageWrite, allOk, if_pos rfl] at htouch ⊢
  refine ⟨_, rfl, touches_dirty htouch true, rfl, ?_⟩
  simp only [if_true]
  rw [padTo, take_left]

theorem Refines.of_placed (h : Refines st s es) {v : Value} {st' : State} {es' : List Entry}
    {j : Nat} (htext : MapText st'.map es') (hplaced : Placed k.name.bytes es j es')
    (htouch : Touches (j + 1) { st with map := st'.map } st') (hdirty : st'.mapDirty = true)
    (hslot : (st'.slots (j + 1)).take v.bytes.length = v.bytes)
    (hlen : ∀ e, es'[j]? = some e → e.len = v.bytes.length)
    (hcount : (insert k s.live).card = es'.countP Entry.isKey) :
    Refines st' { live := insert k s.live, value := update s.value k v } es' where
  inited := htouch.inited.trans h.inited
  text := htext
  distinct := hplaced.distinct h.distinct
  saved := by
    intro hclean
    rw [hdirty] at hclean
    cases hclean
  entries := by
    intro i e he
    by_cases hij : i = j
    · -- the place of the key
      subst hij
      obtain ⟨e', he', hname⟩ := hplaced.self
      rw [he, some.injEq] at he'
      subst he'
      refine .inr ⟨k, Finset.mem_insert_self k s.live, hname, ?_, ?_⟩
      · simp only [update_self, hlen e he]
      · simp only [update_self, hlen e he, hslot]
    · -- an old place: its slot is not the one written
      rcases h.entries i e (hplaced.old he hij) with rfl | ⟨k', hk', hname', hlen', hslot'⟩
      · exact .inl rfl
      have hne : k' ≠ k := by
        rintro rfl
        obtain ⟨e', he', hname⟩ := hplaced.self
        exact hij (hplaced.distinct h.distinct i j e e' he he' (hname'.trans hname.symm)
          (hname' ▸ k'.notReserved))
      refine .inr ⟨k', Finset.mem_insert_of_mem hk', hname', ?_, ?_⟩
      · rw [hlen']
        simp only [update_of_ne hne]
      · have hother := htouch.slots (i + 1) (by omega)
        rw [hother]
        simp only [hslot', update_of_ne hne]
  live := by
    intro k' hk'
    rcases Finset.mem_insert.mp hk' with rfl | hk'
    · obtain ⟨e, he, hname⟩ := hplaced.self
      exact ⟨j, e, he, hname⟩
    obtain ⟨i, e, he, hname⟩ := h.live k' hk'
    by_cases hkk : k' = k
    · subst hkk
      obtain ⟨e, he, hname⟩ := hplaced.self
      exact ⟨j, e, he, hname⟩
    · have hne : e.name ≠ k.name.bytes := fun hc => hkk (Key.ext_bytes (hname.symm.trans hc))
      exact ⟨i, e, (hplaced.other he hne (hname ▸ k'.notReserved)).2, hname⟩
  count := hcount

theorem Refines.write_live (h : Refines st s es) (hk : k ∈ s.live) (v : Value) :
    ∃ st' es', serveKey st (.write k v) = some ((s.serve (.write k v)).1, st') ∧
      Refines st' (s.serve (.write k v)).2 es' ∧ Stable es es' := by
  obtain ⟨i, e, he, hname, hprobe⟩ := h.probe_live hk
  obtain ⟨-, hlen, hslot⟩ := h.entry he hname
  rw [serveKey, write_of_live allOk h.inited hprobe, Store.serve, if_pos hk, hlen]
  by_cases hsame : (s.value k).bytes.length = v.bytes.length
  · have hnot : ¬ (((s.value k).bytes.length : Int) ≠ v.bytes.length) := by omega
    have herase : (sunxiSecureStorageEraseDataOnly allOk st k.name).1 = 0 := by
      have hin : ¬ (!st.inited) = true := by rw [h.inited]; decide
      rw [sunxiSecureStorageEraseDataOnly, if_neg hin, hprobe]
      simp only [sunxiSecstorageWrite, allOk, if_true, lt_irrefl, if_false]
    have htouch := eraseDataOnly_touches allOk st k.name (i + 1) e.len hprobe
    obtain ⟨st', hst', htouch', hdirty, hslot'⟩ :=
      storeData_allOk (sunxiSecureStorageEraseDataOnly allOk st k.name).2 (i + 1) v
    have hall := htouch.trans htouch'
    rw [if_neg hnot, herase, if_neg (by omega), hst', if_pos hsame]
    refine ⟨st', es, rfl, ?_, h.distinct⟩
    have hins : insert k s.live = s.live := Finset.insert_eq_of_mem hk
    rw [← hins]
    refine h.of_placed (by rw [hall.map]; exact h.text) (.found e he hname)
      (by rw [hall.map]; exact hall) hdirty hslot' ?_ (by rw [hins]; exact h.count)
    intro e' he'
    rw [he, some.injEq] at he'
    rw [← he', hlen, hsame]
  · have hne : ((s.value k).bytes.length : Int) ≠ v.bytes.length := by omega
    rw [if_pos hne, if_neg hsame]
    exact ⟨st, es, rfl, h, h.distinct⟩

variable {es : List Entry}

theorem fillEntries_countP (he : e.isKey = true) (hnew : indexOf e.name es = none)
    (hplace : (fillEntries e es).1 ≠ -1) :
    (fillEntries e es).2.countP Entry.isKey = es.countP Entry.isKey + 1 := by
  rw [fillEntries, hnew] at hplace ⊢
  cases hdummy : indexOf dummyKeyName es with
  | some i =>
    have hi := indexOf_lt hdummy
    obtain ⟨f, hf, hname⟩ := indexOf_some hdummy
    have hfi : es[i].isKey = false := by
      rw [getElem?_eq_getElem hi, some.injEq] at hf
      simp [Entry.isKey, hf, hname]
    simp only [countP_set hi, hfi, he, if_true, Bool.false_eq_true, if_false, Nat.sub_zero]
  | none =>
    rw [hdummy] at hplace
    by_cases hfull : 31 ≤ es.length
    · simp only [if_pos hfull] at hplace
      exact absurd rfl hplace
    · simp only [if_neg hfull, countP_append, countP_singleton, he, if_true]

theorem fillEntries_getElem? (hnew : indexOf e.name es = none) {j : Nat}
    (hj : (fillEntries e es).1 = (j + 1 : Nat)) : (fillEntries e es).2[j]? = some e := by
  rw [fillEntries, hnew] at hj ⊢
  cases hdummy : indexOf dummyKeyName es with
  | some i =>
    rw [hdummy] at hj
    have hij : i = j := by simp only at hj; omega
    subst hij
    exact getElem?_set_self (indexOf_lt hdummy)
  | none =>
    rw [hdummy] at hj
    by_cases hfull : 31 ≤ es.length
    · simp only [if_pos hfull] at hj
      omega
    · simp only [if_neg hfull] at hj ⊢
      have hij : j = es.length := by omega
      rw [hij, getElem?_concat_length]

theorem fillEntries_full_iff (few : es.length ≤ 31) (hnew : indexOf e.name es = none) :
    (fillEntries e es).1 = -1 ↔ ¬ es.countP Entry.isKey < 31 := by
  rw [fillEntries, hnew]
  cases hdummy : indexOf dummyKeyName es with
  | some i =>
    -- the dummy is an entry that is not a key
    obtain ⟨f, hf, hname⟩ := indexOf_some hdummy
    have hlt : es.countP Entry.isKey < es.length := by
      refine lt_of_le_of_ne countP_le_length (fun hc => ?_)
      have hall := countP_eq_length.mp hc f (mem_of_getElem? hf)
      simp [Entry.isKey, hname] at hall
    simp only
    omega
  | none =>
    have hall : es.countP Entry.isKey = es.length :=
      countP_eq_length.mpr (fun f hf => by
        simpa [Entry.isKey] using indexOf_none_iff.mp hdummy f hf)
    by_cases hfull : 31 ≤ es.length
    · simp only [if_pos hfull, true_iff]
      omega
    · simp only [if_neg hfull]
      omega

section

variable (h : Refines st s es)
include h

theorem Refines.write_dead (hk : k ∉ s.live) (v : Value) :
    ∃ st' es', serveKey st (.write k v) = some ((s.serve (.write k v)).1, st') ∧
      Refines st' (s.serve (.write k v)).2 es' ∧ Stable es es' := by
  have hsmall : v.bytes.length < 2 ^ 31 := lt_of_le_of_lt v.short (by decide)
  have hnew : indexOf k.name.bytes es = none := indexOf_none_iff.mpr (h.name_ne hk)
  obtain ⟨m', hfill, htext⟩ :=
    fillNameInMap_eq h.text k.name (k.wellNamed.entry v.bytes.length hsmall) rfl
  have hfull := fillEntries_full_iff (e := k.wellNamed.entry v.bytes.length hsmall) h.text.few hnew
  have hcount := fillEntries_countP (e := k.wellNamed.entry v.bytes.length hsmall)
    (decide_eq_true k.notReserved) hnew
  rw [serveKey, write_of_new allOk h.inited (h.probe_dead hk) v.bytes.length hfill,
    Store.serve, if_neg hk, h.count]
  rcases fillEntries_placed (k.wellNamed.entry v.bytes.length hsmall) es with hno | ⟨j, hj, hplaced⟩
  · rw [hno] at hfill hfull ⊢
    have hm' : m' = st.map := fillNameInMap_full h.text k.name _ (-1) hfill (by omega)
    rw [if_neg (hfull.mp rfl), hm']
    exact ⟨st, es, rfl, h, h.distinct⟩
  have hne : (fillEntries (k.wellNamed.entry v.bytes.length hsmall) es).1 ≠ -1 := by
    rw [hj]; omega
  have hpos : ¬ ((j + 1 : Nat) : Int) < 0 := by omega
  obtain ⟨st', hst', htouch, hdirty, hslot⟩ := storeData_allOk { st with map := m' } (j + 1) v
  rw [if_pos (not_not.mp (fun hc => hne (hfull.mpr hc))), hj, if_neg hpos, Int.toNat_natCast, hst']
  refine ⟨st', _, rfl, h.of_placed (by rw [htouch.map]; exact htext) hplaced
    (by rw [htouch.map]; exact htouch) hdirty hslot ?_ ?_, hplaced.stable h.distinct⟩
  · intro e he
    rw [fillEntries_getElem? hnew hj, some.injEq] at he
    rw [← he]
    rfl
  · rw [Finset.card_insert_of_notMem hk, h.count, hcount hne]

theorem Refines.indexOf_live (hk : k ∈ s.live) :
    ∃ i e, indexOf k.name.bytes es = some i ∧ es[i]? = some e ∧ e.name = k.name.bytes := by
  cases hidx : indexOf k.name.bytes es with
  | none =>
    obtain ⟨i, e, he, hname⟩ := h.live k hk
    exact absurd hname (indexOf_none_iff.mp hidx e (mem_of_getElem? he))
  | some i =>
    obtain ⟨e, he, hname⟩ := indexOf_some hidx
    exact ⟨i, e, rfl, he, hname⟩

theorem Refines.of_discarded (hk : k ∈ s.live) {i : Nat} (he : es[i]? = some e)
    (hname : e.name = k.name.bytes) {st' : State} (htext : MapText st'.map (es.set i dummyEntry))
    (htouch : Touches (i + 1) { st with map := st'.map } st') (hdirty : st'.mapDirty = true) :
    Refines st' { s with live := s.live.erase k } (es.set i dummyEntry) where
  inited := htouch.inited.trans h.inited
  text := htext
  distinct := h.distinct.set_dummy i
  saved := by
    intro hclean
    rw [hdirty] at hclean
    cases hclean
  entries := by
    intro a f hf
    by_cases hai : i = a
    · subst hai
      have hi : i < es.length := (List.getElem?_eq_some_iff.mp he).1
      rw [getElem?_set_self hi, some.injEq] at hf
      exact .inl hf.symm
    rw [getElem?_set_ne hai] at hf
    rcases h.entries a f hf with rfl | ⟨k', hk', hname', hlen', hslot'⟩
    · exact .inl rfl
    have hne : k' ≠ k := by
      rintro rfl
      exact hai (h.distinct i a e f he hf (hname.trans hname'.symm) (hname ▸ k'.notReserved))
    refine .inr ⟨k', Finset.mem_erase.mpr ⟨hne, hk'⟩, hname', hlen', ?_⟩
    rw [htouch.slots (a + 1) (by omega)]
    exact hslot'
  live := by
    intro k' hk'
    obtain ⟨hne, hk'⟩ := Finset.mem_erase.mp hk'
    obtain ⟨a, f, hf, hname'⟩ := h.live k' hk'
    have hai : i ≠ a := by
      rintro rfl
      rw [he, some.injEq] at hf
      exact hne (Key.ext_bytes (hname'.symm.trans (hf ▸ hname)))
    exact ⟨a, f, by rw [getElem?_set_ne hai, hf], hname'⟩
  count := by
    have hi : i < es.length := (List.getElem?_eq_some_iff.mp he).1
    have hkey : es[i].isKey = true := by
      rw [getElem?_eq_getElem hi, some.injEq] at he
      rw [he]
      exact decide_eq_true (hname ▸ k.notReserved)
    have hdummy : dummyEntry.isKey = false := by decide
    rw [Finset.card_erase_of_mem hk, h.count, countP_set hi, hkey, hdummy]
    rfl

theorem erase_refines (k : Key) :
    ∃ st' es', serveKey st (.erase k) = some ((s.serve (.erase k)).1, st') ∧
      Refines st' (s.serve (.erase k)).2 es' ∧ Stable es es' := by
  have hin : ¬ (!st.inited) = true := by rw [h.inited]; decide
  obtain ⟨m', hm', htext⟩ := discardNameInMap_eq h.text k.name
  rw [serveKey, sunxiSecureStorageErase, if_neg hin, Store.serve, hm']
  unfold discardEntries at htext ⊢
  by_cases hk : k ∈ s.live
  · obtain ⟨i, e, hidx, he, hname⟩ := h.indexOf_live hk
    rw [hidx] at htext
    have hpos : ¬ ((i + 1 : Nat) : Int) < 0 := by omega
    have htouch := sunxiSecstorageWrite_touches allOk { st with map := m' } (i + 1)
      (replicate secBlkSize 0xff)
    simp only [hidx, if_neg hpos, Int.toNat_natCast, if_pos hk]
    rw [sunxiSecstorageWrite, allOk, if_pos rfl] at htouch ⊢
    exact ⟨_, _, rfl, h.of_discarded hk he hname htext (touches_dirty htouch true) rfl,
      h.distinct.stable_set_dummy i⟩
  · have hidx : indexOf k.name.bytes es = none := indexOf_none_iff.mpr (h.name_ne hk)
    rw [hidx] at htext
    simp only [hidx, if_neg hk]
    refine ⟨{ st with map := m' }, es, rfl, ?_, h.distinct⟩
    exact ⟨h.inited, htext, h.distinct, h.saved, h.entries, h.live, h.count⟩

end

theorem checkSecureStorageMap_sealMap {m : List UInt8} (hm : m.length = secBlkSize) :
    checkSecureStorageMap (sealMap m) = 0 := by
  have hdata : (m.take mapDataSize).length = mapDataSize := by
    rw [length_take, hm]
    rfl
  have hbody : (m.take mapDataSize ++ leBytes 4 storeObjectMagic).length = mapDataSize + 4 := by
    rw [length_append, hdata, length_leBytes]
  have hmagic : field (sealMap m) mapDataSize = storeObjectMagic := by
    rw [field, sealMap, append_assoc]
    nth_rewrite 1 [← hdata]
    rw [drop_left, take_left' (length_leBytes _), leValue_leBytes _ (by decide)]
  have hcrc : field (sealMap m) (mapDataSize + 4) =
      (crc32 0 ((sealMap m).take (mapDataSize + 4))).toNat := by
    have hlt := (crc32 0 (m.take mapDataSize ++ leBytes 4 storeObjectMagic)).toNat_lt
    rw [field, sealMap, take_left' hbody, drop_left' hbody,
      take_of_length_le (by rw [length_leBytes]), leValue_leBytes _ (by simpa using hlt)]
  rw [checkSecureStorageMap, if_neg (not_not.mpr hmagic), if_neg (not_not.mpr hcrc)]

theorem loadMap_sealMap {m : List UInt8} (hm : m.length = secBlkSize) :
    loadMap (sealMap m) = sealMap m := by
  rw [loadMap, if_neg (fun h => h.1 (checkSecureStorageMap_sealMap hm))]

theorem Refines.reloaded (h : Refines st s es) {st' : State} (hin : st'.inited = true)
    (hmap : st'.map = loadMap (st'.slots 0)) (htext : MapText (loadMap (st'.slots 0)) es)
    (hslots : ∀ i, st'.slots (i + 1) = st.slots (i + 1)) : Refines st' s es where
  inited := hin
  text := by rw [hmap]; exact htext
  distinct := h.distinct
  saved := fun _ => htext
  entries := by
    intro i e he
    rw [hslots]
    exact h.entries i e he
  live := h.live
  count := h.count

theorem reinit_refines (h : Refines st s es) :
    ∃ st', serveKey st .reinit = some (.code 0, st') ∧ Refines st' s es := by
  have hin : ¬ (!st.inited) = true := by rw [h.inited]; decide
  rw [serveKey, sunxiSecureStorageExit, if_neg hin]
  cases hdirty : st.mapDirty with
  | true =>
    -- the map is filled in and saved, and what is saved is loaded again
    refine ⟨_, rfl, h.reloaded rfl rfl ?_ (fun i => rfl)⟩
    exact (loadMap_sealMap h.text.size).symm ▸ mapText_sealMap h.text
  | false => exact ⟨_, rfl, h.reloaded rfl rfl (h.saved hdirty) (fun _ => rfl)⟩

theorem serveKey_refines (h : Refines st s es) (r : KeyRequest) :
    ∃ st' es', serveKey st r = some ((s.serve r).1, st') ∧ Refines st' (s.serve r).2 es' ∧
      Stable es es' := by
  cases r with
  | write k v =>
    by_cases hk : k ∈ s.live
    · exact h.write_live hk v
    · exact h.write_dead hk v
  | erase k => exact erase_refines h k
  | read k =>
    refine ⟨st, es, read_refines h k, ?_, h.distinct⟩
    rw [Store.serve]
    split <;> exact h
  | reinit =>
    obtain ⟨st', hst', hrefines⟩ := reinit_refines h
    exact ⟨st', es, hst', hrefines, h.distinct⟩

end

theorem Refines.serveKeys (rs : List KeyRequest) : ∀ {st : State} {s : Store} {es : List Entry},
    Refines st s es → ∃ st' es', serveKeys st rs = some ((s.serveAll rs).1, st') ∧
      Refines st' (s.serveAll rs).2 es' := by
  induction rs with
  | nil =>
    intro st s es h
    exact ⟨st, es, rfl, h⟩
  | cons r rs ih =>
    intro st s es h
    obtain ⟨st1, es1, hserve, h1, -⟩ := serveKey_refines h r
    obtain ⟨st2, es2, hrest, h2⟩ := ih h1
    refine ⟨st2, es2, ?_, h2⟩
    simp only [SecStorage.serveKeys, hserve, bind_eq_bind, bind_some, hrest]
    rfl

theorem Refines.slotIndex_eq {st st' : State} {s s' : Store} {es es' : List Entry}
    (h : Refines st s es) (h' : Refines st' s' es') (hstable : Stable es es') {i j : Nat}
    (hi : slotIndex st k = some i) (hj : slotIndex st' k = some j) : i = j := by
  rw [slotIndex, map_eq_some_iff, probeNameInMap_eq h.text] at hi
  rw [slotIndex, map_eq_some_iff, probeNameInMap_eq h'.text] at hj
  obtain ⟨⟨_, _⟩, hi, rfl⟩ := hi
  obtain ⟨⟨_, _⟩, hj, rfl⟩ := hj
  obtain ⟨a, e, rfl, he, hans, -⟩ := probeEntries_some hi
  obtain ⟨b, f, rfl, hf, hans', -⟩ := probeEntries_some hj
  have hab : a = b := hstable a b e f he hf (hans.1.symm.trans hans'.1) (hans.1 ▸ k.notReserved)
  exact congrArg (fun x => 1 + x) hab

/-- An initialised storage that holds nothing: the table in memory is empty, and so is the one in
    slot 0, unless it is yet to be saved. -/
structure Fresh (st : State) : Prop where
  inited : st.inited = true
  map : MapText st.map []
  saved : st.mapDirty = false → MapText (loadMap (st.slots 0)) []

/-- The map without keys. -/
def Store.empty : Store where
  live := ∅
  value := fun _ => ⟨[0], by decide, by decide⟩

theorem Fresh.refines {st : State} (h : Fresh st) : Refines st .empty [] where
  inited := h.inited
  text := h.map
  distinct := distinct_nil
  saved := h.saved
  entries := by
    intro i e he
    simp at he
  live := by
    intro k hk
    simp [Store.empty] at hk
  count := rfl

/-- From an empty storage, every run of requests gets the replies of the finite map, and a request
    after it moves no key that stays alive. -/
theorem serveKeys_refines {st : State} (h : Fresh st) (rs : List KeyRequest) :
    ∃ st', serveKeys st rs = some ((Store.empty.serveAll rs).1, st') ∧
      ∀ r, ∃ reply st'', serveKey st' r = some (reply, st'') ∧
        ∀ k i j, slotIndex st' k = some i → slotIndex st'' k = some j → i = j := by
  obtain ⟨st', es, hrun, href⟩ := h.refines.serveKeys rs
  refine ⟨st', hrun, fun r => ?_⟩
  obtain ⟨st'', es', hserve, href', hstable⟩ := serveKey_refines href r
  exact ⟨_, st'', hserve, fun k i j hi hj => href.slotIndex_eq href' hstable hi hj⟩

/-- Slots as the factory leaves them. -/
def erasedSlots : Nat → List UInt8 := fun _ => replicate secBlkSize 0xff

/-- The storage after its first `sunxi_secure_storage_init`. -/
def freshState : State where
  inited := true
  mapDirty := false
  map := replicate secBlkSize 0
  slots := erasedSlots
  writes := 0

theorem check_erasedSlots (i : Nat) : checkSecureStorageMap (erasedSlots i) ≠ 0 := by
  have hmagic : field (erasedSlots i) mapDataSize ≠ storeObjectMagic := by
    simp only [field, erasedSlots, drop_replicate, take_replicate]
    decide
  rw [checkSecureStorageMap, if_pos hmagic]
  decide

theorem loadMap_erasedSlots (i : Nat) :
    loadMap (erasedSlots i) = replicate secBlkSize 0 :=
  if_pos ⟨check_erasedSlots i, .inl rfl⟩

/-- The key `k`. -/
def keyK : Key where
  name := ⟨[107], by decide⟩
  nonempty := by decide
  short := by decide
  noColon := by decide
  notReserved := by decide

theorem serveKeys_freshState : Fresh freshState ∧
    ∃ st', serveKeys freshState [.write keyK ⟨[7], by decide, by decide⟩, .reinit, .read keyK] =
        some ((Store.empty.serveAll
          [.write keyK ⟨[7], by decide, by decide⟩, .reinit, .read keyK]).1, st') ∧
      ∀ r, ∃ reply st'', serveKey st' r = some (reply, st'') ∧
        ∀ k i j, slotIndex st' k = some i → slotIndex st'' k = some j → i = j := by
  have hfresh : Fresh freshState :=
    ⟨rfl, mapText_zeros, fun _ => loadMap_erasedSlots 0 ▸ mapText_zeros⟩
  exact ⟨hfresh, serveKeys_refines hfresh _⟩

end Brandy.SecStorage
