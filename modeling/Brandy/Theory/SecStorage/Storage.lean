import Brandy.Theory.SecStorage.Entries

/-!
# Runs of the Secure Storage

What every state has in common, whatever the requests were and whichever slot writes failed: the map
in memory and the map in slot 0 both hold tables, and in a table no name but the dummy's occurs
twice. This needs the names written to be *well named*, at most 63 bytes without a colon: the
parsers read back exactly those.

## Main definitions

* `Placed`: A name got a place in a table.
* `Reachable`, `Sound`: The states of runs, and the invariant.

## Theorems

* `serve_sound`: One request.
* `Reachable.sound`: Every state of a run.
-/

namespace Brandy.SecStorage

open Memory Text Word StoreObject List Option

/-- No name but the dummy's occurs twice. -/
def Distinct (es : List Entry) : Prop :=
  ∀ (i j : Nat) (e f : Entry), es[i]? = some e → es[j]? = some f → e.name = f.name →
    e.name ≠ dummyKeyName → i = j

theorem distinct_nil : Distinct [] := by
  intro i j e f he
  simp at he

variable {es : List Entry}

theorem mem_of_getElem? {i : Nat} {e : Entry} (h : es[i]? = some e) : e ∈ es :=
  List.mem_of_getElem? h

variable {name : List UInt8}

theorem probeEntries_some {index k : Nat} {len : Int}
    (h : probeEntries name index es = some (k, len)) :
    ∃ i e, k = index + i ∧ es[i]? = some e ∧ e.answers name ∧ len = e.len := by
  induction es generalizing index with
  | nil => cases h
  | cons e es ih =>
    rw [probeEntries] at h
    split at h
    case isTrue hans =>
      cases h
      exact ⟨0, e, rfl, rfl, hans, rfl⟩
    case isFalse =>
      obtain ⟨i, f, hk, hf, hans, hlen⟩ := ih h
      exact ⟨i + 1, f, by omega, by simpa using hf, hans, hlen⟩

theorem probeEntries_none_iff {index : Nat} :
    probeEntries name index es = none ↔ ∀ e ∈ es, ¬ e.answers name := by
  induction es generalizing index with
  | nil => simp [probeEntries]
  | cons e es ih =>
    rw [probeEntries]
    by_cases hans : e.answers name
    · simp [hans]
    · simp [hans, ih]

theorem probeEntries_eq_some_iff (hd : Distinct es) (hname : name ≠ dummyKeyName) (index k : Nat)
    (len : Int) :
    probeEntries name index es = some (k, len) ↔
      ∃ i e, k = index + i ∧ es[i]? = some e ∧ e.name = name ∧ len = e.len := by
  constructor
  · intro h
    obtain ⟨i, e, hk, he, hans, hlen⟩ := probeEntries_some h
    exact ⟨i, e, hk, he, hans.1.symm, hlen⟩
  · rintro ⟨i, e, rfl, he, rfl, rfl⟩
    have hans : e.answers e.name := ⟨rfl, fun hc => hname hc.1⟩
    cases hp : probeEntries e.name index es with
    | none => exact absurd hans (probeEntries_none_iff.mp hp e (mem_of_getElem? he))
    | some r =>
      obtain ⟨i', e', hk, he', hans', hlen⟩ := probeEntries_some (show _ = some (r.1, r.2) from hp)
      have hi : i = i' := hd i i' e e' he he' hans'.1 hname
      subst hi
      rw [he, some.injEq] at he'
      subst he'
      exact congrArg some (Prod.ext hk hlen)

theorem indexOf_some {i : Nat} (h : indexOf name es = some i) :
    ∃ e, es[i]? = some e ∧ e.name = name := by
  obtain ⟨hi, hname, -⟩ := findIdx?_eq_some_iff_getElem.mp h
  exact ⟨es[i], getElem?_eq_getElem hi, by simpa using hname⟩

theorem indexOf_none_iff : indexOf name es = none ↔ ∀ e ∈ es, e.name ≠ name := by
  simp [indexOf, findIdx?_eq_none_iff]

/-- `name` got place `j` from table `es` to `es'`: it was there, or a dummy was, or it is a new
    place at the end. -/
inductive Placed (name : List UInt8) (es : List Entry) (j : Nat) : List Entry → Prop
  | found (e : Entry) (he : es[j]? = some e) (hname : e.name = name) : Placed name es j es
  | reused (e f : Entry) (hnew : ∀ g ∈ es, g.name ≠ name) (hf : es[j]? = some f)
      (hdummy : f.name = dummyKeyName) (hname : e.name = name) : Placed name es j (es.set j e)
  | added (e : Entry) (hnew : ∀ g ∈ es, g.name ≠ name) (hj : j = es.length)
      (hname : e.name = name) : Placed name es j (es ++ [e])

variable {es' : List Entry}

section

variable {j : Nat} (h : Placed name es j es')
include h

theorem Placed.other {i : Nat} {f : Entry} (hf : es[i]? = some f) (hname : f.name ≠ name)
    (hdummy : f.name ≠ dummyKeyName) : i ≠ j ∧ es'[i]? = some f := by
  cases h with
  | found e he hen =>
    refine ⟨?_, hf⟩
    rintro rfl
    rw [hf, some.injEq] at he
    exact hname (he ▸ hen)
  | reused e g hnew hg hgd hen =>
    have hij : i ≠ j := by
      rintro rfl
      rw [hf, some.injEq] at hg
      exact hdummy (hg ▸ hgd)
    exact ⟨hij, by rw [getElem?_set_ne (Ne.symm hij), hf]⟩
  | added e hnew hj hen =>
    have hi : i < es.length := (List.getElem?_eq_some_iff.mp hf).1
    exact ⟨by omega, by rw [getElem?_append_left hi, hf]⟩

theorem Placed.self : ∃ e, es'[j]? = some e ∧ e.name = name := by
  cases h with
  | found e he hen => exact ⟨e, he, hen⟩
  | reused e g hnew hg hgd hen =>
    have hj : j < es.length := (List.getElem?_eq_some_iff.mp hg).1
    exact ⟨e, by rw [getElem?_set_self hj], hen⟩
  | added e hnew hj hen => exact ⟨e, by rw [hj]; simp, hen⟩

theorem Placed.old {i : Nat} {f : Entry} (hf : es'[i]? = some f) (hij : i ≠ j) :
    es[i]? = some f := by
  cases h with
  | found e he hen => exact hf
  | reused e g hnew hg hgd hen => rwa [getElem?_set_ne (Ne.symm hij)] at hf
  | added e hnew hj hen =>
    have hi : i < (es ++ [e]).length := (List.getElem?_eq_some_iff.mp hf).1
    rw [length_append, length_singleton] at hi
    rwa [getElem?_append_left (by omega)] at hf

theorem Placed.distinct (hd : Distinct es) : Distinct es' := by
  obtain ⟨e0, he0, hname0⟩ := h.self
  -- an old entry elsewhere does not have the name, unless nothing was changed
  have hkey : ∀ i f, es'[i]? = some f → f.name = name → f.name ≠ dummyKeyName → i = j := by
    intro i f hf hfn hfd
    by_contra hij
    have hold := h.old hf hij
    cases h with
    | found e he hen => exact hij (hd i j f e hold he (hfn.trans hen.symm) hfd)
    | reused e g hnew hg hgd hen => exact hnew f (mem_of_getElem? hold) hfn
    | added e hnew hj hen => exact hnew f (mem_of_getElem? hold) hfn
  intro a b e f he hf hef hed
  by_cases hen : e.name = name
  · rw [hkey a e he hen hed, hkey b f hf (hef ▸ hen) (hef ▸ hed)]
  have ha : a ≠ j := by
    rintro rfl
    rw [he, some.injEq] at he0
    exact hen (he0 ▸ hname0)
  have hb : b ≠ j := by
    rintro rfl
    rw [hf, some.injEq] at he0
    exact hen (hef.trans (he0 ▸ hname0))
  exact hd a b e f (h.old he ha) (h.old hf hb) hef hed

end

/-- No name but the dummy's changes its place from one table to the next. -/
def Stable (es es' : List Entry) : Prop :=
  ∀ (i j : Nat) (e f : Entry), es[i]? = some e → es'[j]? = some f → e.name = f.name →
    e.name ≠ dummyKeyName → i = j

theorem Placed.stable {j : Nat} (h : Placed name es j es') (hd : Distinct es) : Stable es es' := by
  intro a b e f he hf hef hed
  by_cases hen : e.name = name
  · -- the name was there before, so the table has not changed
    cases h with
    | found g hg hgn => exact hd a b e f he hf hef hed
    | reused g g' hnew hg hgd hgn => exact absurd hen (hnew e (mem_of_getElem? he))
    | added g hnew hj hgn => exact absurd hen (hnew e (mem_of_getElem? he))
  · obtain ⟨-, he'⟩ := h.other he hen hed
    exact h.distinct hd a b e f he' hf hef hed

theorem fillEntries_placed (e : Entry) (es : List Entry) :
    fillEntries e es = (-1, es) ∨
      ∃ j, (fillEntries e es).1 = (j + 1 : Nat) ∧ Placed e.name es j (fillEntries e es).2 := by
  rw [fillEntries]
  cases hitem : indexOf e.name es with
  | some i =>
    obtain ⟨f, hf, hname⟩ := indexOf_some hitem
    exact .inr ⟨i, rfl, .found f hf hname⟩
  | none =>
    have hnew := indexOf_none_iff.mp hitem
    cases hdummy : indexOf dummyKeyName es with
    | some i =>
      obtain ⟨f, hf, hname⟩ := indexOf_some hdummy
      exact .inr ⟨i, rfl, .reused e f hnew hf hname rfl⟩
    | none =>
      by_cases hfull : 31 ≤ es.length
      · exact .inl (by simp only [if_pos hfull])
      · exact .inr ⟨es.length, by simp only [if_neg hfull],
          by simpa only [if_neg hfull] using .added e hnew rfl rfl⟩

theorem getElem?_set_dummy {i j : Nat} {e : Entry} (he : (es.set i dummyEntry)[j]? = some e)
    (hne : e.name ≠ dummyKeyName) : es[j]? = some e := by
  rw [getElem?_set] at he
  split at he
  · split at he
    · rw [some.injEq] at he
      exact absurd (congrArg Entry.name he.symm) hne
    · cases he
  · exact he

theorem Distinct.set_dummy (hd : Distinct es) (i : Nat) : Distinct (es.set i dummyEntry) := by
  intro a b e f he hf hef hed
  exact hd a b e f (getElem?_set_dummy he hed) (getElem?_set_dummy hf (hef ▸ hed)) hef hed

theorem Distinct.stable_set_dummy (hd : Distinct es) (i : Nat) :
    Stable es (es.set i dummyEntry) := by
  intro a b e f he hf hef hed
  exact hd a b e f he (getElem?_set_dummy hf (hef ▸ hed)) hef hed

theorem discardEntries_distinct (hd : Distinct es) (name : List UInt8) :
    Distinct (discardEntries name es).2 := by
  rw [discardEntries]
  cases indexOf name es with
  | some i => exact hd.set_dummy i
  | none => exact hd

/-- `st'` differs from `st` in one slot at most, and in whether the map counts as changed. -/
structure Touches (item : Nat) (st st' : State) : Prop where
  inited : st'.inited = st.inited
  map : st'.map = st.map
  slots : ∀ i, i ≠ item → st'.slots i = st.slots i

theorem Touches.refl (item : Nat) (st : State) : Touches item st st :=
  ⟨rfl, rfl, fun _ _ => rfl⟩

variable {st : State}

theorem Touches.trans {item : Nat} {st' st'' : State} (h : Touches item st st')
    (h' : Touches item st' st'') : Touches item st st'' :=
  ⟨h'.inited.trans h.inited, h'.map.trans h.map,
    fun i hi => (h'.slots i hi).trans (h.slots i hi)⟩

variable (ok : Nat → Bool)

theorem sunxiSecstorageWrite_touches (st : State) (item : Nat)
    (buf : List UInt8) : Touches item st (sunxiSecstorageWrite ok st item buf).2 := by
  unfold sunxiSecstorageWrite
  split
  · exact ⟨rfl, rfl, fun i hi => if_neg hi⟩
  · exact ⟨rfl, rfl, fun _ _ => rfl⟩

theorem touches_dirty {item : Nat} {st' : State} (h : Touches item st st') (b : Bool) :
    Touches item st { st' with mapDirty := b } :=
  ⟨h.inited, h.map, h.slots⟩

theorem storeData_touches (st : State) (index : Nat) (buffer : List UInt8)
    (length : Int) (hlen : 0 ≤ length) :
    ∃ ret st', storeData ok st index buffer length = some (ret, st') ∧ Touches index st st' := by
  unfold storeData
  by_cases hbig : (secBlkSize : Int) < length
  · exact ⟨-1, st, by rw [if_pos hbig], .refl index st⟩
  have hneg : ¬ length < 0 := by omega
  have ht := sunxiSecstorageWrite_touches ok st index (padTo secBlkSize (buffer.take length.toNat))
  rw [if_neg hbig, if_neg hneg]
  by_cases hret : (sunxiSecstorageWrite ok st index
      (padTo secBlkSize (buffer.take length.toNat))).1 < 0
  · exact ⟨-1, _, by simp only [if_pos hret], ht⟩
  · exact ⟨0, _, by simp only [if_neg hret], touches_dirty ht true⟩

theorem eraseDataOnly_touches (st : State) (itemName : CString) (index : Nat)
    (len : Int) (h : probeNameInMap st.map itemName = some (index, len)) :
    Touches index st (sunxiSecureStorageEraseDataOnly ok st itemName).2 := by
  have ht := sunxiSecstorageWrite_touches ok st index (replicate secBlkSize 0xff)
  unfold sunxiSecureStorageEraseDataOnly
  cases hin : st.inited with
  | false => exact .refl index st
  | true =>
    simp only [Bool.not_true, Bool.false_eq_true, if_false, h]
    split
    · exact ht
    · exact touches_dirty ht true

/-- A name the parsers read back. -/
def WellNamed (n : CString) : Prop := n.bytes.length < mapKeyNameSize ∧ colon ∉ n.bytes

/-- The entry of a well-named key. -/
def WellNamed.entry {n : CString} (h : WellNamed n) (len : Nat) (hlen : len < 2 ^ 31) : Entry where
  name := n.bytes
  len := len
  short := h.1
  noColon := h.2
  noNul := n.noNul
  small := hlen

variable {n : CString}

section

variable (ok : Nat → Bool) (hin : st.inited = true)
include hin

theorem write_of_live {index : Nat} {len : Int}
    (hprobe : probeNameInMap st.map n = some (index, len)) (buffer : List UInt8) (length : Int) :
    sunxiSecureStorageWrite ok st n buffer length =
      if len ≠ length then some (-1, st)
      else if (sunxiSecureStorageEraseDataOnly ok st n).1 < 0 then
        some (-1, (sunxiSecureStorageEraseDataOnly ok st n).2)
      else storeData ok (sunxiSecureStorageEraseDataOnly ok st n).2 index buffer length := by
  have hnot : ¬ (!st.inited) = true := by rw [hin]; decide
  rw [sunxiSecureStorageWrite, if_neg hnot, hprobe]

theorem write_of_new (hprobe : probeNameInMap st.map n = none) (length : Int) {index : Int}
    {m' : List UInt8} (hfill : fillNameInMap st.map n length = some (index, m'))
    (buffer : List UInt8) :
    sunxiSecureStorageWrite ok st n buffer length =
      if index < 0 then some (-1, { st with map := m' })
      else storeData ok { st with map := m' } index.toNat buffer length := by
  have hnot : ¬ (!st.inited) = true := by rw [hin]; decide
  rw [sunxiSecureStorageWrite, if_neg hnot, hprobe]
  simp only [hfill]

theorem write_placed (h : MapText st.map es) (hn : WellNamed n) {buffer : List UInt8} {len : Nat}
    (hlen : len < 2 ^ 31) :
    ∃ ret st', sunxiSecureStorageWrite ok st n buffer len = some (ret, st') ∧
      (st' = st ∨ ∃ es' j, MapText st'.map es' ∧ Placed n.bytes es j es' ∧
        Touches (j + 1) { st with map := st'.map } st') := by
  cases hprobe : probeNameInMap st.map n with
  | some r =>
    obtain ⟨index, l⟩ := r
    rw [write_of_live ok hin hprobe]
    have hprobe' := hprobe
    rw [probeNameInMap_eq h] at hprobe'
    obtain ⟨j, e, hj, he, hans, -⟩ := probeEntries_some hprobe'
    have hidx : index = j + 1 := by omega
    subst hidx
    have herase := eraseDataOnly_touches ok st n (j + 1) l hprobe
    have hsame : Placed n.bytes es j es := .found e he hans.1.symm
    -- the map is untouched, and only the slot of the name is written
    have hdone : ∀ st', Touches (j + 1) st st' → ∃ es' j, MapText st'.map es' ∧
        Placed n.bytes es j es' ∧ Touches (j + 1) { st with map := st'.map } st' := by
      intro st' ht
      refine ⟨es, j, ?_, hsame, ?_⟩
      · rw [ht.map]; exact h
      · rw [ht.map]; exact ht
    split
    · exact ⟨-1, st, rfl, .inl rfl⟩
    split
    · exact ⟨-1, _, rfl, .inr (hdone _ herase)⟩
    · obtain ⟨ret, st', hst', hstore⟩ := storeData_touches ok
        (sunxiSecureStorageEraseDataOnly ok st n).2 (j + 1) buffer len (by omega)
      exact ⟨ret, st', hst', .inr (hdone _ (herase.trans hstore))⟩
  | none =>
    obtain ⟨m', hfill, htext⟩ := fillNameInMap_eq h n (hn.entry len hlen) rfl
    rw [write_of_new ok hin hprobe len hfill]
    rcases fillEntries_placed (hn.entry len hlen) es with hfull | ⟨j, hj, hplaced⟩
    · rw [hfull] at hfill ⊢
      have hm' : m' = st.map := fillNameInMap_full h n len (-1) hfill (by omega)
      exact ⟨-1, st, by rw [hm']; rfl, .inl rfl⟩
    obtain ⟨ret, st', hst', hstore⟩ :=
      storeData_touches ok { st with map := m' } (j + 1) buffer len (by omega)
    have hpos : ¬ ((j + 1 : Nat) : Int) < 0 := by omega
    refine ⟨ret, st', ?_, .inr ⟨_, j, ?_, hplaced, ?_⟩⟩
    · rw [hj, if_neg hpos, Int.toNat_natCast, hst']
    · rw [hstore.map]; exact htext
    · rw [hstore.map]; exact hstore

end

/-- The calls of the interface that change something. -/
inductive Request where
  | init
  | exit
  | write (name : CString) (buffer : List UInt8) (length : Int)
  | erase (name : CString)
  | eraseDataOnly (name : CString)
  | eraseAll

/-- What a call returns and leaves behind. -/
def serve (ok : Nat → Bool) (st : State) : Request → Option (Int × State)
  | .init => some (sunxiSecureStorageInit st)
  | .exit => some (sunxiSecureStorageExit ok st)
  | .write name buffer length => sunxiSecureStorageWrite ok st name buffer length
  | .erase name => sunxiSecureStorageErase ok st name
  | .eraseDataOnly name => some (sunxiSecureStorageEraseDataOnly ok st name)
  | .eraseAll => some (sunxiSecureStorageEraseAll ok st)

/-- A request that writes writes a well-named key, of a length an `int` can hold and `memcpy` can
    copy. -/
def Request.WellNamed : Request → Prop
  | .write name _ length => SecStorage.WellNamed name ∧ 0 ≤ length ∧ length < 2 ^ 31
  | _ => True

/-- Power-on: nothing is loaded, and slot 0 would load an empty table. -/
structure Boot (st : State) : Prop where
  inited : st.inited = false
  map : st.map = replicate secBlkSize 0
  saved : MapText (loadMap (st.slots 0)) []

/-- The states runs of well-named requests lead to. -/
inductive Reachable (ok : Nat → Bool) : State → Prop
  | boot (st : State) (h : Boot st) : Reachable ok st
  | step (st st' : State) (r : Request) (ret : Int) (h : Reachable ok st) (hr : r.WellNamed)
      (hserve : serve ok st r = some (ret, st')) : Reachable ok st'

/-- A buffer that holds a table of distinct names. -/
def IsTable (m : List UInt8) : Prop := ∃ es, MapText m es ∧ Distinct es

/-- Both maps hold tables: the one in memory and the one slot 0 would load. -/
structure Sound (st : State) : Prop where
  map : IsTable st.map
  saved : IsTable (loadMap (st.slots 0))

theorem isTable_zeros : IsTable (replicate secBlkSize 0) := ⟨[], mapText_zeros, distinct_nil⟩

theorem Boot.sound (h : Boot st) : Sound st where
  map := by rw [h.map]; exact isTable_zeros
  saved := ⟨[], h.saved, distinct_nil⟩

variable {m : List UInt8}

theorem IsTable.loadMap (h : IsTable m) : IsTable (loadMap m) := by
  unfold SecStorage.loadMap
  split
  · exact isTable_zeros
  · exact h

theorem IsTable.sealMap (h : IsTable m) : IsTable (sealMap m) := by
  obtain ⟨es, htext, hd⟩ := h
  exact ⟨es, mapText_sealMap htext, hd⟩

theorem Sound.touches {st' : State} {item : Nat} (hmap : IsTable st'.map)
    (hsaved : IsTable (loadMap (st.slots 0)))
    (h : Touches (item + 1) { st with map := st'.map } st') : Sound st' where
  map := hmap
  saved := by
    rw [h.slots 0 (by omega)]
    exact hsaved

theorem Sound.write_map (ok : Nat → Bool) (h : Sound st) (hm : IsTable m) :
    Sound (sunxiSecstorageWrite ok { st with map := m } 0 m).2 := by
  unfold sunxiSecstorageWrite
  split
  · exact ⟨hm, hm.loadMap⟩
  · exact ⟨hm, h.saved⟩

theorem init_sound (h : Sound st) : Sound (sunxiSecureStorageInit st).2 := by
  unfold sunxiSecureStorageInit
  split
  · exact h
  · exact ⟨h.saved, h.saved⟩

section

variable (ok : Nat → Bool) (h : Sound st)
include h

theorem exit_sound : Sound (sunxiSecureStorageExit ok st).2 := by
  have hw := h.write_map ok h.map.sealMap
  unfold sunxiSecureStorageExit
  split
  · exact h
  split
  · dsimp only
    split
    · exact hw
    · exact ⟨hw.map, hw.saved⟩
  · exact ⟨h.map, h.saved⟩

theorem eraseAll_sound : Sound (sunxiSecureStorageEraseAll ok st).2 := by
  have hw := (init_sound h).write_map ok isTable_zeros
  unfold sunxiSecureStorageEraseAll
  dsimp only
  split <;> exact hw

theorem eraseDataOnly_sound (n : CString) : Sound (sunxiSecureStorageEraseDataOnly ok st n).2 := by
  cases hprobe : probeNameInMap st.map n with
  | none =>
    unfold sunxiSecureStorageEraseDataOnly
    split
    · exact h
    · simp only [hprobe]
      exact h
  | some r =>
    obtain ⟨es, htext, hd⟩ := h.map
    have ht := eraseDataOnly_touches ok st n r.1 r.2 hprobe
    rw [probeNameInMap_eq htext] at hprobe
    obtain ⟨i, e, hi, -⟩ := probeEntries_some (show _ = some (r.1, r.2) from hprobe)
    rw [show r.1 = i + 1 by omega] at ht
    exact .touches (by rw [ht.map]; exact h.map) h.saved (by rw [ht.map]; exact ht)

theorem erase_sound (n : CString) :
    ∃ ret st', sunxiSecureStorageErase ok st n = some (ret, st') ∧ Sound st' := by
  unfold sunxiSecureStorageErase
  split
  · exact ⟨-1, st, rfl, h⟩
  obtain ⟨es, htext, hd⟩ := h.map
  obtain ⟨m', hm', htext'⟩ := discardNameInMap_eq htext n
  have hd' := discardEntries_distinct hd n.bytes
  rw [hm']
  unfold discardEntries at htext' hd' ⊢
  cases hidx : indexOf n.bytes es with
  | none =>
    rw [hidx] at htext' hd'
    exact ⟨-2, _, rfl, ⟨_, htext', hd'⟩, h.saved⟩
  | some i =>
    rw [hidx] at htext' hd'
    have ht := sunxiSecstorageWrite_touches ok { st with map := m' } (i + 1)
      (replicate secBlkSize 0xff)
    have hpos : ¬ ((i + 1 : Nat) : Int) < 0 := by omega
    simp only [if_neg hpos, Int.toNat_natCast]
    have hs : Sound (sunxiSecstorageWrite ok { st with map := m' } (i + 1)
        (replicate secBlkSize 0xff)).2 :=
      .touches (by rw [ht.map]; exact ⟨_, htext', hd'⟩) h.saved (by rw [ht.map]; exact ht)
    split
    · exact ⟨-1, _, rfl, hs⟩
    · exact ⟨0, _, rfl, hs.map, hs.saved⟩

theorem write_sound (hn : WellNamed n) {buffer : List UInt8} {len : Nat} (hlen : len < 2 ^ 31) :
    ∃ ret st', sunxiSecureStorageWrite ok st n buffer len = some (ret, st') ∧ Sound st' := by
  cases hin : st.inited with
  | false => exact ⟨-1, st, by simp [sunxiSecureStorageWrite, hin], h⟩
  | true =>
    obtain ⟨es, htext, hd⟩ := h.map
    obtain ⟨ret, st', hwrite, hst'⟩ := write_placed ok hin htext hn hlen
    refine ⟨ret, st', hwrite, ?_⟩
    rcases hst' with rfl | ⟨es', j, htext', hplaced, ht⟩
    · exact h
    · exact .touches ⟨es', htext', hplaced.distinct hd⟩ h.saved ht

theorem serve_sound (r : Request) (hr : r.WellNamed) :
    ∃ ret st', serve ok st r = some (ret, st') ∧ Sound st' := by
  cases r with
  | init => exact ⟨_, _, rfl, init_sound h⟩
  | exit => exact ⟨_, _, rfl, exit_sound ok h⟩
  | write name buffer length =>
    obtain ⟨hn, hlo, hhi⟩ := hr
    obtain ⟨len, rfl⟩ : ∃ len : Nat, length = len := ⟨length.toNat, by omega⟩
    exact write_sound ok h hn (by omega)
  | erase name => exact erase_sound ok h name
  | eraseDataOnly name => exact ⟨_, _, rfl, eraseDataOnly_sound ok h name⟩
  | eraseAll => exact ⟨_, _, rfl, eraseAll_sound ok h⟩

end

theorem Reachable.sound {ok : Nat → Bool} (h : Reachable ok st) : Sound st := by
  induction h with
  | boot st h => exact h.sound
  | step st st' r ret _ hr hserve ih =>
    obtain ⟨ret', st'', hserve', hsound⟩ := serve_sound ok ih r hr
    rw [hserve, some.injEq, Prod.mk.injEq] at hserve'
    rw [hserve'.2]
    exact hsound

end Brandy.SecStorage
