import Brandy.Theory.SecStorage.Refine

/-!
# What a Write Leaves Alone

A write of one key does no harm to another that is well named. But a name of 64 bytes or more makes
the next write empty the map.

A write that fails leaves no trace only when the failure comes before anything was done. A new name
gets its entry before the length is checked and before the slot is written; a live key has its slot
erased before either.

## Main definitions

* `SameAnswers`: Every lookup and every read gives the same in two states.
* `FailsClean`: A write that changes something does not fail.

## Theorems

* `read_after_writes`: A key after writes to other keys.
* `write_fails_clean_iff`: When a write that fails leaves no trace.
-/

namespace Brandy.SecStorage

open Memory Text Word StoreObject List Option

/-- The arguments of a write. -/
structure WriteCall where
  name : CString
  buffer : List UInt8
  length : Nat

/-- A run of writes, whatever they return. -/
def writeAll (ok : Nat → Bool) : State → List WriteCall → Option State
  | st, [] => some st
  | st, w :: ws => do
    let (_, st) ← sunxiSecureStorageWrite ok st w.name w.buffer w.length
    writeAll ok st ws

variable {st : State} {n : CString} {index : Nat}

theorem read_of_probe (hin : st.inited = true) {len : Int}
    (hprobe : probeNameInMap st.map n = some (index, len)) (bufferLen : Int) :
    sunxiSecureStorageRead st n bufferLen =
      .ok ((st.slots index).take (if bufferLen < len then bufferLen else len).toNat, len) := by
  have hnot : ¬ (!st.inited) = true := by rw [hin]; decide
  rw [sunxiSecureStorageRead, if_neg hnot, hprobe]

theorem probe_of_read {bufferLen : Int} {r : List UInt8 × Int}
    (h : sunxiSecureStorageRead st n bufferLen = .ok r) :
    st.inited = true ∧ ∃ index len, probeNameInMap st.map n = some (index, len) := by
  unfold sunxiSecureStorageRead at h
  cases hin : st.inited with
  | false => simp [hin] at h
  | true =>
    refine ⟨rfl, ?_⟩
    cases hprobe : probeNameInMap st.map n with
    | none => simp [hin, hprobe] at h
    | some p => exact ⟨p.1, p.2, rfl⟩

theorem write_keeps (ok : Nat → Bool) (h : Sound st) {k : CString} (hk : k.bytes ≠ dummyKeyName)
    {bufferLen : Int} {r : List UInt8 × Int} (hread : sunxiSecureStorageRead st k bufferLen = .ok r)
    (hne : n ≠ k) (hn : WellNamed n) (buffer : List UInt8) {len : Nat} (hlen : len < 2 ^ 31) :
    ∃ ret st', sunxiSecureStorageWrite ok st n buffer len = some (ret, st') ∧ Sound st' ∧
      sunxiSecureStorageRead st' k bufferLen = .ok r := by
  obtain ⟨ret, st', hwrite, hsound⟩ := write_sound ok h hn hlen
  refine ⟨ret, st', hwrite, hsound, ?_⟩
  obtain ⟨hin, index, l, hprobe⟩ := probe_of_read hread
  obtain ⟨es, htext, hd⟩ := h.map
  obtain ⟨ret', st'', hwrite', hplaced⟩ := write_placed ok hin htext hn hlen
  rw [hwrite, some.injEq, Prod.mk.injEq] at hwrite'
  obtain ⟨-, rfl⟩ := hwrite'
  rcases hplaced with rfl | ⟨es', j, htext', hplaced, htouch⟩
  · exact hread
  -- the entry of the other key is where it was, and its slot is not the one written
  have hprobe' := hprobe
  rw [probeNameInMap_eq htext, probeEntries_eq_some_iff hd hk] at hprobe'
  obtain ⟨i, e, rfl, he, hname, rfl⟩ := hprobe'
  have hother : e.name ≠ n.bytes := by
    intro hc
    apply hne
    cases n; cases k
    simp only at hc hname
    simp [← hc, hname]
  obtain ⟨hij, he'⟩ := hplaced.other he hother (hname ▸ hk)
  have hprobe' : probeNameInMap st'.map k = some (1 + i, (e.len : Int)) := by
    rw [probeNameInMap_eq htext', probeEntries_eq_some_iff (hplaced.distinct hd) hk]
    exact ⟨i, e, rfl, he', hname, rfl⟩
  have hslot : st'.slots (1 + i) = st.slots (1 + i) := htouch.slots (1 + i) (by omega)
  rw [read_of_probe (htouch.inited.trans hin) hprobe', hslot, ← read_of_probe hin hprobe, hread]

/-- In every state that well-named requests lead to, writes to other well-named keys, whatever the
    slot writes do, keep what a key reads. -/
theorem read_after_writes {ok : Nat → Bool} {st : State} (h : Reachable ok st) {k : CString}
    (hk : k.bytes ≠ dummyKeyName) {bufferLen : Int} {r : List UInt8 × Int}
    (hread : sunxiSecureStorageRead st k bufferLen = .ok r) (ws : List WriteCall)
    (hws : ∀ w ∈ ws, w.name ≠ k ∧ WellNamed w.name ∧ w.length ≤ 4096) :
    ∃ st', writeAll ok st ws = some st' ∧ sunxiSecureStorageRead st' k bufferLen = .ok r := by
  have hsound := h.sound
  clear h
  induction ws generalizing st with
  | nil => exact ⟨st, rfl, hread⟩
  | cons w ws ih =>
    obtain ⟨hne, hn, hlen⟩ := hws w mem_cons_self
    obtain ⟨ret, st', hwrite, hsound', hread'⟩ :=
      write_keeps ok hsound hk hread hne hn w.buffer (show w.length < 2 ^ 31 by omega)
    obtain ⟨st'', hrest, hread''⟩ :=
      ih hread' (fun w' hw' => hws w' (mem_cons_of_mem w hw')) hsound'
    refine ⟨st'', ?_, hread''⟩
    simp only [writeAll, hwrite, bind_eq_bind, bind_some, hrest]

/-- The storage at power-on, on slots as the factory leaves them. -/
def bootState : State := { freshState with inited := false }

theorem bootState_boot : Boot bootState :=
  ⟨rfl, rfl, loadMap_erasedSlots 0 ▸ mapText_zeros⟩

theorem reachable_freshState {ok : Nat → Bool} : Reachable ok freshState := by
  refine .step bootState freshState .init 0 (.boot bootState bootState_boot) trivial ?_
  have hload : loadMap (bootState.slots 0) = replicate secBlkSize 0 := loadMap_erasedSlots 0
  simp only [serve, sunxiSecureStorageInit, hload]
  rfl

/-- A name of 64 bytes. -/
def longName : CString := ⟨replicate 64 110, by decide⟩

/-- The storage with a seven stored under `k`. -/
def stateK : State :=
  ((sunxiSecureStorageWrite allOk freshState keyK.name [7] 1).getD (0, freshState)).2

theorem write_keyK :
    sunxiSecureStorageWrite allOk freshState keyK.name [7] 1 = some (0, stateK) := by
  have hret : (sunxiSecureStorageWrite allOk freshState keyK.name [7] 1).map Prod.fst = some 0 := by
    decide +kernel
  obtain ⟨⟨ret, st⟩, hst, hfst⟩ := map_eq_some_iff.mp hret
  rw [stateK, hst, getD_some, ← hfst]

theorem reachable_stateK : Reachable allOk stateK :=
  .step freshState stateK (.write keyK.name [7] 1) 0 reachable_freshState
    ⟨keyK.wellNamed, by decide, by decide⟩ write_keyK

theorem read_stateK : sunxiSecureStorageRead stateK keyK.name 4096 = .ok ([7], 1) := by
  decide +kernel

/-- Writing a name of 64 bytes twice empties the map. -/
theorem read_after_long_name : Reachable allOk stateK ∧
    sunxiSecureStorageRead stateK keyK.name 4096 = .ok ([7], 1) ∧ longName ≠ keyK.name ∧
    (writeAll allOk stateK [⟨longName, [1], 1⟩, ⟨longName, [1], 1⟩]).map
      (fun st => sunxiSecureStorageRead st keyK.name 4096) = some (.error (-2)) :=
  ⟨reachable_stateK, read_stateK, by decide, by decide +kernel⟩

/-- The key `kk`. -/
def nameKK : CString := ⟨[107, 107], by decide⟩

theorem read_after_writes_stateK : Reachable allOk stateK ∧
    sunxiSecureStorageRead stateK keyK.name 4096 = .ok ([7], 1) ∧
    ∃ st', writeAll allOk stateK [⟨nameKK, [1, 2], 2⟩, ⟨nameKK, [3], 1⟩] = some st' ∧
      sunxiSecureStorageRead st' keyK.name 4096 = .ok ([7], 1) := by
  refine ⟨reachable_stateK, read_stateK,
    read_after_writes reachable_stateK keyK.notReserved read_stateK _ ?_⟩
  have hname : nameKK ≠ keyK.name ∧ WellNamed nameKK := ⟨by decide, by decide, by decide⟩
  intro w hw
  rcases mem_cons.mp hw with rfl | hw
  · exact ⟨hname.1, hname.2, by decide⟩
  · rw [mem_singleton.mp hw]
    exact ⟨hname.1, hname.2, by decide⟩

/-- Every lookup and every read gives the same in both states. -/
def SameAnswers (st st' : State) : Prop :=
  ∀ (m : CString) (bufferLen : Int),
    sunxiSecureStorageProbe st' m = sunxiSecureStorageProbe st m ∧
      sunxiSecureStorageRead st' m bufferLen = sunxiSecureStorageRead st m bufferLen

/-- A write that gets as far as changing something does not fail afterwards. For a new name with an
    entry the length passes the check and the slot write succeeds; so it is for a live key whose
    slot was erased, unless the slot looked erased before. -/
structure FailsClean (ok : Nat → Bool) (st : State) (n : CString) (length : Int) : Prop where
  new : ∀ index m', st.inited = true → probeNameInMap st.map n = none →
    fillNameInMap st.map n length = some (index, m') → 0 ≤ index →
    length ≤ secBlkSize ∧ ok st.writes = true
  live : ∀ index, st.inited = true → probeNameInMap st.map n = some (index, length) →
    ok st.writes = true → (length ≤ secBlkSize ∧ ok (st.writes + 1) = true) ∨
      (st.slots index).take length.toNat = (replicate secBlkSize 0xff).take length.toNat

variable {st' : State}

theorem SameAnswers.of_eq (hin : st'.inited = st.inited) (hmap : st'.map = st.map)
    (hslots : st'.slots = st.slots) : SameAnswers st st' := by
  intro m bufferLen
  unfold sunxiSecureStorageProbe sunxiSecureStorageRead
  rw [hin, hmap, hslots]
  exact ⟨rfl, rfl⟩

variable {length : Int}

variable {ok : Nat → Bool}

/-- How the end of a write can fail: the state is as before, but for the count of slot writes. -/
theorem storeData_fails {buffer : List UInt8}
    (h : storeData ok st index buffer length = some (-1, st')) :
    ¬ (length ≤ secBlkSize ∧ ok st.writes = true) ∧ st'.inited = st.inited ∧
      st'.map = st.map ∧ st'.slots = st.slots := by
  unfold storeData at h
  by_cases hbig : (secBlkSize : Int) < length
  · rw [if_pos hbig, some.injEq, Prod.mk.injEq] at h
    obtain ⟨-, rfl⟩ := h
    exact ⟨fun hc => by omega, rfl, rfl, rfl⟩
  rw [if_neg hbig] at h
  by_cases hneg : length < 0
  · rw [if_pos hneg] at h
    cases h
  rw [if_neg hneg, sunxiSecstorageWrite] at h
  cases hok : ok st.writes with
  | true => simp [hok] at h
  | false =>
    simp only [hok, Bool.false_eq_true, if_false] at h
    cases h
    exact ⟨fun hc => by simp at hc, rfl, rfl, rfl⟩

theorem storeData_of_fails (ok : Nat → Bool) (st : State) (index : Nat) (buffer : List UInt8)
    (hlen : 0 ≤ length) (h : ¬ (length ≤ secBlkSize ∧ ok st.writes = true)) :
    ∃ st', storeData ok st index buffer length = some (-1, st') := by
  unfold storeData
  by_cases hbig : (secBlkSize : Int) < length
  · exact ⟨st, if_pos hbig⟩
  have hok : ok st.writes = false := by
    cases hok : ok st.writes with
    | false => rfl
    | true => exact absurd ⟨not_lt.mp hbig, hok⟩ h
  rw [if_neg hbig, if_neg (not_lt.mpr hlen), sunxiSecstorageWrite, hok]
  exact ⟨_, rfl⟩

theorem eraseDataOnly_of_live (ok : Nat → Bool) (hin : st.inited = true) {len : Int}
    (hprobe : probeNameInMap st.map n = some (index, len)) :
    sunxiSecureStorageEraseDataOnly ok st n =
      if ok st.writes then
        (0, { st with
          mapDirty := true
          slots := fun i => if i = index then replicate secBlkSize 0xff else st.slots i
          writes := st.writes + 1 })
      else (-1, { st with writes := st.writes + 1 }) := by
  have hnot : ¬ (!st.inited) = true := by rw [hin]; decide
  rw [sunxiSecureStorageEraseDataOnly, if_neg hnot, hprobe]
  cases hok : ok st.writes with
  | true => simp [sunxiSecstorageWrite, hok]
  | false => simp [sunxiSecstorageWrite, hok]

theorem SameAnswers.of_erased {es : List Entry} (htext : MapText st.map es)
    (hin : st'.inited = st.inited) (hmap : st'.map = st.map) {len : Int}
    (hprobe : probeNameInMap st.map n = some (index, len))
    (hslot : (st'.slots index).take len.toNat = (st.slots index).take len.toNat)
    (hother : ∀ i, i ≠ index → st'.slots i = st.slots i) : SameAnswers st st' := by
  intro m bufferLen
  unfold sunxiSecureStorageProbe sunxiSecureStorageRead
  rw [hin, hmap]
  refine ⟨rfl, ?_⟩
  split
  · rfl
  cases hprobe' : probeNameInMap st.map m with
  | none => rfl
  | some r =>
    obtain ⟨index', len'⟩ := r
    by_cases hidx : index' = index
    · -- the same entry, so the same length
      subst hidx
      rw [probeNameInMap_eq htext] at hprobe hprobe'
      obtain ⟨i, e, hi, he, -, rfl⟩ := probeEntries_some hprobe
      obtain ⟨i', e', hi', he', -, rfl⟩ := probeEntries_some hprobe'
      have hii : i' = i := by omega
      rw [hii, he, some.injEq] at he'
      subst he'
      have htake : ∀ c : Nat, c ≤ e.len →
          (st'.slots index').take c = (st.slots index').take c := by
        intro c hc
        have h := congrArg (take c) hslot
        rwa [take_take, take_take, Int.toNat_natCast, min_eq_left hc] at h
      simp only
      rw [htake]
      split <;> omega
    · simp only
      rw [hother index' hidx]

theorem FailsClean.sameAnswers (h : Sound st) {buffer : List UInt8}
    (hclean : FailsClean ok st n length)
    (hwrite : sunxiSecureStorageWrite ok st n buffer length = some (-1, st')) :
    SameAnswers st st' := by
  obtain ⟨es, htext, hd⟩ := h.map
  cases hin : st.inited with
  | false =>
    simp only [sunxiSecureStorageWrite, hin, Bool.not_false, if_true, some.injEq,
      Prod.mk.injEq, true_and] at hwrite
    subst hwrite
    exact .of_eq rfl rfl rfl
  | true =>
    cases hprobe : probeNameInMap st.map n with
    | some r =>
      obtain ⟨index, len⟩ := r
      rw [write_of_live ok hin hprobe] at hwrite
      split at hwrite
      · cases hwrite
        exact .of_eq rfl rfl rfl
      case isFalse hlen =>
        have hlen : len = length := not_not.mp hlen
        subst hlen
        rw [eraseDataOnly_of_live ok hin hprobe] at hwrite
        cases hok : ok st.writes with
        | false =>
          simp only [hok, Bool.false_eq_true, if_false] at hwrite
          cases hwrite
          exact .of_eq rfl rfl rfl
        | true =>
          simp only [hok, if_true, lt_irrefl, if_false] at hwrite
          obtain ⟨hfail, hin', hmap', hslots'⟩ := storeData_fails hwrite
          rcases hclean.live index hin hprobe hok with hgood | hsame
          · exact absurd hgood hfail
          refine .of_erased htext hin' hmap' hprobe ?_ ?_
          · rw [hslots', hsame]
            simp only [if_true]
          · intro i hi
            rw [hslots']
            exact if_neg hi
    | none =>
      cases hfill : fillNameInMap st.map n length with
      | none => simp [sunxiSecureStorageWrite, hin, hprobe, hfill] at hwrite
      | some r =>
        obtain ⟨index, m'⟩ := r
        rw [write_of_new ok hin hprobe _ hfill] at hwrite
        split at hwrite
        case isTrue hneg =>
          cases hwrite
          exact .of_eq rfl (fillNameInMap_full htext n length index hfill hneg) rfl
        case isFalse hpos =>
          obtain ⟨hfail, -⟩ := storeData_fails hwrite
          exact absurd (hclean.new index m' hin hprobe hfill (not_lt.mp hpos)) hfail

/-- A write of a well-named key that does not meet it fails and leaves a trace. -/
theorem not_sameAnswers_of_not_failsClean (h : Sound st) (hn : WellNamed n)
    (hdummy : n.bytes ≠ dummyKeyName) (buffer : List UInt8) (hlo : 0 ≤ length)
    (hhi : length < 2 ^ 31) (hclean : ¬ FailsClean ok st n length) :
    ∃ st', sunxiSecureStorageWrite ok st n buffer length = some (-1, st') ∧
      ¬ SameAnswers st st' := by
  obtain ⟨es, htext, hd⟩ := h.map
  obtain ⟨len, rfl⟩ : ∃ len : Nat, length = len := ⟨length.toNat, by omega⟩
  have hlen : len < 2 ^ 31 := by omega
  have hin : st.inited = true := by
    by_contra hin
    exact hclean ⟨fun _ _ hc => absurd hc hin, fun _ hc => absurd hc hin⟩
  have hnot : ¬ (!st.inited) = true := by rw [hin]; decide
  cases hprobe : probeNameInMap st.map n with
  | none =>
    obtain ⟨m', hfill, htext'⟩ := fillNameInMap_eq htext n (hn.entry len hlen) rfl
    have hfill : fillNameInMap st.map n len = some ((fillEntries (hn.entry len hlen) es).1, m') :=
      hfill
    rw [write_of_new ok hin hprobe _ hfill]
    rcases fillEntries_placed (hn.entry len hlen) es with hfull | ⟨j, hj, hplaced⟩
    · -- no place for the name: nothing was changed
      refine absurd ⟨?_, ?_⟩ hclean
      · intro index m'' _ _ hfill' hpos
        rw [hfill, hfull, some.injEq, Prod.mk.injEq] at hfill'
        omega
      · intro index _ hlive
        rw [hprobe] at hlive
        cases hlive
    · have hpos : ¬ ((j + 1 : Nat) : Int) < 0 := by omega
      have hfails : ¬ ((len : Int) ≤ secBlkSize ∧ ok st.writes = true) := by
        intro hgood
        refine hclean ⟨fun _ _ _ _ _ _ => hgood, ?_⟩
        intro index _ hlive
        rw [hprobe] at hlive
        cases hlive
      obtain ⟨st', hst'⟩ := storeData_of_fails ok { st with map := m' } (j + 1) buffer
        hlo hfails
      obtain ⟨-, hin', hmap', -⟩ := storeData_fails hst'
      refine ⟨st', by rw [hj, if_neg hpos, Int.toNat_natCast, hst'], fun hsame => ?_⟩
      -- the name is found now
      obtain ⟨e, he, hname⟩ := hplaced.self
      have hfound : probeNameInMap st'.map n ≠ none := by
        rw [hmap', probeNameInMap_eq htext', Ne, probeEntries_none_iff]
        intro hall
        exact hall e (mem_of_getElem? he) ⟨hname.symm, fun hc => hdummy hc.1⟩
      have hnot' : ¬ (!st'.inited) = true := by rw [hin', hin]; decide
      have hp := (hsame n 0).1
      rw [sunxiSecureStorageProbe, sunxiSecureStorageProbe, if_neg hnot, if_neg hnot', hprobe] at hp
      cases hq : probeNameInMap st'.map n with
      | none => exact hfound hq
      | some r => simp [hq] at hp
  | some r =>
    obtain ⟨index, l⟩ := r
    -- the failing case is the one in which the slot was erased
    have hcase : l = len ∧ ok st.writes = true ∧
        ¬ ((len : Int) ≤ secBlkSize ∧ ok (st.writes + 1) = true) ∧
        (st.slots index).take len ≠ (replicate secBlkSize 0xff).take len := by
      by_contra hno
      refine hclean ⟨?_, ?_⟩
      · intro index' m' _ hnew
        rw [hprobe] at hnew
        cases hnew
      · intro index' _ hlive hok
        rw [hprobe, some.injEq, Prod.mk.injEq] at hlive
        obtain ⟨rfl, rfl⟩ := hlive
        by_contra hbad
        rw [not_or, Int.toNat_natCast] at hbad
        exact hno ⟨rfl, hok, hbad⟩
    obtain ⟨rfl, hok, hfails, hdata⟩ := hcase
    rw [write_of_live ok hin hprobe, eraseDataOnly_of_live ok hin hprobe, hok]
    simp only [ne_eq, not_true_eq_false, if_false, if_true, lt_irrefl]
    obtain ⟨st', hst'⟩ := storeData_of_fails ok { st with
          mapDirty := true
          slots := fun i => if i = index then replicate secBlkSize 0xff else st.slots i
          writes := st.writes + 1 } index buffer hlo hfails
    obtain ⟨-, hin', hmap', hslots'⟩ := storeData_fails hst'
    refine ⟨st', hst', fun hsame => hdata ?_⟩
    have hprobe' : probeNameInMap st'.map n = some (index, (len : Int)) := by rw [hmap', hprobe]
    have hr := (hsame n len).2
    rw [read_of_probe hin hprobe, read_of_probe (hin'.trans hin) hprobe', hslots'] at hr
    simp only [if_true, lt_irrefl, if_false, Int.toNat_natCast, Except.ok.injEq, Prod.mk.injEq,
      and_true] at hr
    exact hr.symm

/-- In every state that well-named requests lead to, a write that meets the condition leaves no
    trace when it fails; for a well-named key the condition is exact. -/
theorem write_fails_clean_iff {ok : Nat → Bool} {st : State} (h : Reachable ok st)
    (n : CString) (buffer : List UInt8) (length : Int) :
    (FailsClean ok st n length →
      ∀ st', sunxiSecureStorageWrite ok st n buffer length = some (-1, st') → SameAnswers st st') ∧
    (WellNamed n → n.bytes ≠ dummyKeyName → 0 ≤ length → length < 2 ^ 31 →
      ((∀ st', sunxiSecureStorageWrite ok st n buffer length = some (-1, st') →
        SameAnswers st st') ↔ FailsClean ok st n length)) := by
  have hclean : FailsClean ok st n length → ∀ st',
      sunxiSecureStorageWrite ok st n buffer length = some (-1, st') → SameAnswers st st' :=
    fun hclean st' hwrite => hclean.sameAnswers h.sound hwrite
  refine ⟨hclean, fun hn hdummy hlo hhi => ⟨fun hsame => ?_, hclean⟩⟩
  by_contra hnot
  obtain ⟨st', hwrite, htrace⟩ :=
    not_sameAnswers_of_not_failsClean h.sound hn hdummy buffer hlo hhi hnot
  exact htrace (hsame st' hwrite)

/-- A new key of 4097 bytes is refused, but from then on it is in the map. -/
theorem write_too_long_leaves_entry : Reachable allOk freshState ∧
    (sunxiSecureStorageWrite allOk freshState keyK.name [7] 4097).map
      (fun r => (r.1, sunxiSecureStorageProbe freshState keyK.name,
        sunxiSecureStorageProbe r.2 keyK.name)) = some (-1, -1, 0) :=
  ⟨reachable_freshState, by decide +kernel⟩

/-- A key is refused with another length than it has, without a trace. -/
theorem write_fails_clean_stateK :
    ∃ st', sunxiSecureStorageWrite allOk stateK keyK.name [7, 8] 2 = some (-1, st') ∧
      SameAnswers stateK st' := by
  have hret : (sunxiSecureStorageWrite allOk stateK keyK.name [7, 8] 2).map Prod.fst =
      some (-1) := by decide +kernel
  have hclean : FailsClean allOk stateK keyK.name 2 :=
    ⟨fun _ _ _ _ _ _ => ⟨by decide, rfl⟩, fun _ _ _ _ => .inl ⟨by decide, rfl⟩⟩
  obtain ⟨⟨ret, st'⟩, hst', rfl⟩ := map_eq_some_iff.mp hret
  exact ⟨st', hst',
    (write_fails_clean_iff reachable_stateK keyK.name [7, 8] 2).1 hclean st' hst'⟩

end Brandy.SecStorage
