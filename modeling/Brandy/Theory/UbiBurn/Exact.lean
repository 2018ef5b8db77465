import Brandy.Library.Simulation
import Brandy.Theory.UbiBurn.Burning

/-!
# Every Volume Gets Its Planned Size

A download goes wrong without a sign where the gap of a volume is filled: first up to the end of an
erase block, and a plan does not have to end with one.

## Main definitions

* `Orderly`: The condition on a call.
* `Running`: The invariant of a run.
* `Exact`: A volume has got exactly its plan.

## Theorems

* `writeStep_running`: One call.
* `burn_exact`: The volumes after orderly calls.
-/

namespace Brandy.UbiBurn

open Memory Text Word Simulation List

/-- The state after the partition table, the buffer and the partition of a call. -/
def located (w : World) (s : St) (c : Call) : Option (St × Mem × Nat) :=
  match mbrStage w s c with
  | (false, _, _) => none
  | (true, s, buffer) =>
    if c.sectors = 0 then none
    else (getPartnoByAddr s c.start c.sectors).map fun num => (s, buffer, num)

/-- What a call hands over for a volume. -/
def handover (w : World) (s : St) (c : Call) : List (Nat × List UInt8) :=
  match located w s c with
  | none => []
  | some (s, buffer, num) =>
    match getMtdNumByName s (nandVol s num).name with
    | some _ => []
    | none => [(num, read buffer 0 (c.sectors * 512))]

/-- A call for partition `num` is orderly. The names are different and not empty, and a call for a
    volume lies in its address range. A volume is started once, with a plan that has room for it and
    fits a 32-bit number of bytes, and then the gap of the volume before can be filled. -/
@[mk_iff]
structure Orderly (w : World) (s : St) (c : Call) (num : Nat) : Prop where
  nodup : (s.nandMbr.map (·.name)).Nodup
  named : emptyName ∉ s.nandMbr.map (·.name)
  range : getMtdNumByName s (nandVol s num).name = none →
    (nandVol s num).addr ≤ c.start ∧ c.start + c.sectors < 2 ^ 32 ∧
      (nandVol s num).addr + (nandVol s num).sects < 2 ^ 32 ∧ (nandVol s num).sects < 2 ^ 23
  start : getMtdNumByName s (nandVol s num).name = none → c.start = (nandVol s num).addr →
    cmdsFor s num = [] ∧ (nandVol s num).sects ≤ planOf s num ∧ planOf s num < 2 ^ 23
  next : getMtdNumByName s (nandVol s num).name = none → s.lastPartno ≠ num →
    FillOk w (checkVolumeExistedDo w (startVolume s num) (nandVol s num).name).2

/-- A call is orderly, and a partition table comes only at the beginning. -/
def Meets (w : World) (s : St) (c : Call) : Prop :=
  (c.start = 0 ∧ c.sectors = mbrSectors → s.log = []) ∧
    ∀ x ∈ located w s c, Orderly w x.1 c x.2.2

section

variable {hs : List (Nat × List UInt8)} {w : World} {s : St} {c : Call} {num : Nat}

variable {buffer : Mem}

theorem write_zero (h : c.sectors = 0) : (spinandMtdWriteUbi w s c).2 = s := by
  have hmbr : c.sectors ≠ mbrSectors := by
    rw [h]
    decide
  unfold spinandMtdWriteUbi mbrStage
  by_cases hstart : c.start = 0 ∧ c.sectors ≤ mbrSectors
  · rw [if_pos hstart, if_pos hmbr]
  rw [if_neg hstart]
  dsimp only
  cases getPartnoByAddr s c.start c.sectors with
  | none => rfl
  | some n =>
    dsimp only
    rw [if_pos h]

variable {s' : St}

/-- The state in which the partition is looked up is the one before the call, or the one after the
    partition table. -/
theorem mbrStage_cases (h : mbrStage w s c = (true, s', buffer)) :
    (c.start = 0 ∧ c.sectors = mbrSectors) ∧ initUbi w s c.buffer = (0, s') ∨ s' = s := by
  unfold mbrStage at h
  split at h
  case isFalse =>
    cases h
    exact .inr rfl
  case isTrue hmbr =>
    split at h
    · cases h
    next hfull =>
      rcases hinit : initUbi w s c.buffer with ⟨ret, s1⟩
      rw [hinit] at h
      dsimp only at h
      split at h
      · cases h
      next hret =>
        cases h
        rw [not_not.mp hret]
        exact .inl ⟨⟨hmbr.1, not_not.mp hfull⟩, rfl⟩

/-- A call that finds no partition is refused, and any other one is a write to its partition. -/
theorem located_cases (w : World) (s : St) (c : Call) :
    (located w s c = none ∧ (spinandMtdWriteUbi w s c).1 = 0) ∨
      ∃ s' buffer num, located w s c = some (s', buffer, num) ∧
        spinandMtdWriteUbi w s c = writePartition w s' num c.start c.sectors buffer ∧
        c.sectors ≠ 0 ∧ getPartnoByAddr s' c.start c.sectors = some num ∧
        ((c.start = 0 ∧ c.sectors = mbrSectors) ∧ initUbi w s c.buffer = (0, s') ∨ s' = s) := by
  unfold located spinandMtdWriteUbi
  rcases hstage : mbrStage w s c with ⟨- | -, s', buffer⟩
  · exact .inl ⟨rfl, rfl⟩
  dsimp only
  rcases hpart : getPartnoByAddr s' c.start c.sectors with - | num
  · refine .inl ⟨?_, rfl⟩
    split <;> rfl
  dsimp only
  split_ifs with hzero
  · exact .inl ⟨rfl, rfl⟩
  · exact .inr ⟨s', buffer, num, rfl, rfl, hzero, hpart, mbrStage_cases hstage⟩

theorem partnoLoop_some {offset secCnt : Nat} (vs : List NandVol) (i : Nat)
    (h : partnoLoop offset secCnt vs i = some num) : i ≤ num ∧ ∃ v, vs[num - i]? = some v ∧
      offset < (v.addr + v.sects) % 2 ^ 32 ∧
      (offset + secCnt) % 2 ^ 32 ≤ (v.addr + v.sects) % 2 ^ 32 := by
  induction vs generalizing i with
  | nil => cases h
  | cons v vs ih =>
    unfold partnoLoop at h
    split_ifs at h with hbelow hover
    · rcases ih (i + 1) h with ⟨hle, v', hv', hfacts⟩
      refine ⟨by omega, v', ?_, hfacts⟩
      rw [show num - i = num - (i + 1) + 1 by omega, getElem?_cons_succ, hv']
    · cases h
      refine ⟨le_rfl, v, ?_, by omega, by omega⟩
      rw [Nat.sub_self, getElem?_cons_zero]

theorem getPartnoByAddr_some {offset secCnt : Nat}
    (h : getPartnoByAddr s offset secCnt = some num) : num < s.nandMbr.length ∧
      (offset + secCnt) % 2 ^ 32 ≤ ((nandVol s num).addr + (nandVol s num).sects) % 2 ^ 32 := by
  rcases partnoLoop_some s.nandMbr 0 h with ⟨-, v, hv, -, hle⟩
  rw [Nat.sub_zero] at hv
  rcases List.getElem?_eq_some_iff.mp hv with ⟨hlt, heq⟩
  refine ⟨hlt, ?_⟩
  rw [nandVol_eq_getElem hlt, heq]
  exact hle

/-- Nothing has been written since the tables were made. -/
structure Fresh (s : St) : Prop where
  log : s.log ≠ []
  lastName : s.lastName = emptyName
  lastPartno : s.lastPartno = -1
  counters : ∀ k, (s.vols k).planWrSects = 0 ∧ (s.vols k).writtenSects = 0
  cmds : ∀ name, partCmds name s.log = []

theorem Fresh.quiet (h : Fresh s) (hquiet : Quiet s s') : Fresh s' where
  log := hquiet.log h.log
  lastName := hquiet.lastName.trans h.lastName
  lastPartno := hquiet.lastPartno.trans h.lastPartno
  counters := by
    rw [hquiet.vols]
    exact h.counters
  cmds name := (hquiet.cmds name).trans (h.cmds name)

theorem Fresh.setState (h : Fresh s) (i : Nat) {state : VolState} :
    Fresh (s.setVol i { s.vols i with state := state }) where
  log := h.log
  lastName := h.lastName
  lastPartno := h.lastPartno
  counters k := by
    by_cases hk : k = i
    · rw [hk, setVol_vols_self]
      exact h.counters i
    · rw [setVol_vols_of_ne _ _ _ hk]
      exact h.counters k
  cmds := h.cmds

theorem Fresh.ite {P : Prop} [Decidable P] (h : Fresh s) (h' : Fresh s') :
    Fresh (if P then s else s') := by
  by_cases hP : P
  · rwa [if_pos hP]
  · rwa [if_neg hP]

theorem createLoop_fresh (vols : List UbiVol) (i : Nat) (h : Fresh s) :
    Fresh (createLoop w vols i s).2 := by
  induction vols generalizing i s with
  | nil => exact h
  | cons vol vols ih =>
    have hcreate := h.quiet (createUbiVolumeDo_quiet w s vol)
    simp only [createLoop, apply_ite Prod.snd]
    exact .ite hcreate (ih (i + 1) (hcreate.setState i))

theorem Fresh.tables {nandMbr : List NandVol} {ubiMbr : List UbiVol} {lastVolSects : Nat}
    (h : Fresh s) :
    Fresh { s with nandMbr := nandMbr, ubiMbr := ubiMbr, lastVolSects := lastVolSects } :=
  ⟨h.log, h.lastName, h.lastPartno, h.counters, h.cmds⟩

theorem checkAndAdjust_fresh (name : CString) (h : Fresh s) : Fresh (checkAndAdjust w s name) := by
  have hget : ∀ {s : St}, Fresh s → Fresh (ask w s (.get name)).2 :=
    fun h => h.quiet (ask_quiet fun _ => rfl)
  unfold checkAndAdjust
  refine .ite ?_ (.tables ?_)
  all_goals exact hget (.ite (hget h) (.tables (hget h)))

theorem createUbiVolume_fresh (h : Fresh s) : Fresh (createUbiVolume w s).2 := by
  unfold createUbiVolume
  cases s.ubiMbr.getLast? with
  | none => exact h
  | some last =>
    rcases w.attach with - | ⟨mtdName, mtdBytes⟩
    · exact h
    have hpart : Fresh (ask w s (.part mtdName)).2 := h.quiet (ask_quiet fun _ => rfl)
    have hloop := createLoop_fresh (w := w) (ask w s (.part mtdName)).2.ubiMbr 0 hpart
    have hadjust := checkAndAdjust_fresh (w := w) last.name hloop
    simp only [apply_ite Prod.snd]
    refine .ite h (.ite hpart (.ite hloop ?_))
    split
    · exact hadjust.tables
    · exact hadjust

theorem initUbi_fresh (h : initUbi w St.zero buffer = (0, s')) : Fresh s' := by
  have hask : ask w St.zero .mtdparts =
      (w.answer [] .mtdparts, { St.zero with log := [.mtdparts] }) := rfl
  unfold initUbi at h
  rw [hask] at h
  obtain ⟨-, h⟩ := ret_eq_zero h
  unfold initUbiInfo at h
  rcases hinfo : w.mtdInfo with - | mtdParts
  · rw [hinfo] at h
    cases h
  rw [hinfo] at h
  rcases hdecode : w.decode buffer with - | parts
  · rw [hdecode] at h
    cases h
  rw [hdecode] at h
  obtain ⟨-, h⟩ := ret_eq_zero h
  obtain rfl : _ = s' := congrArg Prod.snd h
  exact createUbiVolume_fresh ⟨cons_ne_nil _ _, rfl, rfl, fun _ => ⟨rfl, rfl⟩, fun _ => rfl⟩

theorem Fresh.burning (h : Fresh s) (hnodup : (s.nandMbr.map (·.name)).Nodup)
    (hnamed : emptyName ∉ s.nandMbr.map (·.name)) : Burning [] s where
  log := h.log
  nodup := hnodup
  named := hnamed
  fits k := by rw [(h.counters k).1, (h.counters k).2]
  inside := fun x hx => absurd hx not_mem_nil
  last := .inl ⟨h.lastPartno, h.lastName⟩
  rest num _ _ := .inl ⟨h.cmds _, fun x hx => absurd hx not_mem_nil, (h.counters num).2⟩

theorem startVolume_same {k : Nat} (hk : k ≠ num) : Same s (startVolume s num) k where
  vol := rfl
  mtdParts := rfl
  plan := congrArg _ (setVol_vols_of_ne _ _ _ hk)
  written := congrArg _ (setVol_vols_of_ne _ _ _ hk)
  cmds := rfl

theorem Burning.start (h : Burning hs s) (hne : s.lastPartno ≠ num)
    (hnew : Untouched hs s num) :
    Burning hs (startVolume s num) ∧ Untouched hs (startVolume s num) num ∧
      ((startVolume s num).vols num).planWrSects = planOf s num := by
  have hself : (startVolume s num).vols num =
      { s.vols num with planWrSects := planOf s num, writtenSects := 0 } := setVol_vols_self ..
  have hnew' : Untouched hs (startVolume s num) num := by
    refine ⟨hnew.cmds, hnew.data, ?_⟩
    rw [hself]
  refine ⟨⟨⟨h.log, h.nodup, h.named, fun k => ?_, h.inside⟩, ?_, fun k hk hkne => ?_⟩, hnew', ?_⟩
  · by_cases hk : k = num
    · rw [hk, hself]
      exact Nat.zero_le _
    · rw [(startVolume_same hk).written, (startVolume_same hk).plan]
      exact h.fits k
  · rcases h.last with hnone | ⟨k, hk, hlast, hopen⟩
    · exact .inl hnone
    · have hkn : k ≠ num := by
        intro heq
        exact hne (by rw [hlast, heq])
      exact .inr ⟨k, hk, hlast, hopen.same (startVolume_same hkn) rfl rfl⟩
  · by_cases hkn : k = num
    · rw [hkn]
      exact .inl hnew'
    · rcases h.rest k hk hkne with hold | hold
      · exact .inl (hold.same (startVolume_same hkn) fun x hx _ => hx)
      · exact .inr (hold.same (startVolume_same hkn) rfl)
  · rw [hself]

section

variable (h : Burning hs s) (hlt : num < s.nandMbr.length)
include h hlt

/-- A volume is untouched, or it has commands and is no MTD device. -/
theorem Burning.touched : (s.lastPartno ≠ num ∧ Untouched hs s num) ∨
    (getMtdNumByName s (nandVol s num).name = none ∧ fullSizes (cmdsFor s num) ≠ []) := by
  by_cases hlast : s.lastPartno = num
  · have hopen := h.opened hlast
    exact .inr ⟨hopen.notMtd, by rw [hopen.fulls]; exact cons_ne_nil _ _⟩
  · rcases h.rest num hlt hlast with hnew | hclosed
    · exact .inl ⟨hlast, hnew⟩
    · exact .inr ⟨hclosed.notMtd, by rw [hclosed.fulls]; exact cons_ne_nil _ _⟩

theorem writePartition_mtd {mtdNum start sectors : Nat}
    (hmtd : getMtdNumByName s (nandVol s num).name = some mtdNum) :
    Burning hs (writePartition w s num start sectors buffer).2 := by
  rcases h.touched hlt with ⟨hne, hnew⟩ | ⟨hno, -⟩
  case inr =>
    rw [hmtd] at hno
    cases hno
  unfold writePartition
  dsimp only
  by_cases hoffset : offsetOnPart s num start = 0
  · rw [if_pos hoffset]
    have hmtd' : getMtdNumByName (startVolume s num) (nandVol (startVolume s num) num).name =
        some mtdNum := hmtd
    rw [hmtd']
    exact (ask_quiet (w := w) fun _ => rfl).burning
      (h.start hne hnew).1
  · rw [if_neg hoffset, hmtd]
    exact (ask_quiet (w := w) fun _ => rfl).burning h

section

variable (hend : (c.start + c.sectors) % 2 ^ 32 ≤
  ((nandVol s num).addr + (nandVol s num).sects) % 2 ^ 32)
include hend

theorem writePartition_volume (hmtd : getMtdNumByName s (nandVol s num).name = none)
    (hord : Orderly w s c num) (hpos : c.sectors ≠ 0)
    (hret : (writePartition w s num c.start c.sectors buffer).1 = c.sectors) :
    Burning (hs ++ [(num, read buffer 0 (c.sectors * 512))])
      (writePartition w s num c.start c.sectors buffer).2 := by
  rcases hord.range hmtd with ⟨hbegin, hcall, hvolume, hsmall⟩
  have hoffset : offsetOnPart s num c.start = c.start - (nandVol s num).addr := by
    exact u32_of_range _ (by omega) (by omega)
  unfold writePartition at hret ⊢
  dsimp only at hret ⊢
  rw [hoffset] at hret ⊢
  by_cases hzero : c.start - (nandVol s num).addr = 0
  · -- the volume is started
    rcases hord.start hmtd (by omega) with ⟨hnone, hsects, hplan⟩
    rw [if_pos hzero] at hret ⊢
    have hname : nandVol (startVolume s num) num = nandVol s num := rfl
    have hmtd' : getMtdNumByName (startVolume s num) (nandVol s num).name = none := hmtd
    rw [hname, hmtd'] at hret ⊢
    rcases h.touched hlt with ⟨hlast, hnew⟩ | ⟨-, hcmds⟩
    case inr =>
      rw [hnone] at hcmds
      exact absurd rfl hcmds
    rcases h.start hlast hnew with ⟨hstart, hnew', hplan'⟩
    have hfill := hord.next hmtd hlast
    have hquiet := checkVolumeExistedDo_quiet w (startVolume s num) (nandVol s num).name
    generalize checkVolumeExistedDo w (startVolume s num) (nandVol s num).name = r
      at hret hfill hquiet ⊢
    have hlast' : r.2.lastPartno ≠ num := by
      rw [hquiet.lastPartno]
      exact hlast
    have hlen : r.2.nandMbr = s.nandMbr := hquiet.nandMbr
    rw [if_neg hlast', if_neg (not_not.mpr hzero), hzero] at hret ⊢
    split_ifs at hret ⊢
    · exact absurd hret.symm hpos
    rcases (hquiet.burning hstart).fill hfill with ⟨hsettled, htable, hsame⟩
    have hnum := (hsame num (by rw [hlen]; exact hlt) hlast')
    generalize (fillGap w r.2 r.2.lastPartno) = r' at hret hsettled htable hnum ⊢
    have hvol : nandVol r'.2 num = nandVol s num := hnum.vol.trans (hquiet.same num).vol
    have hplan'' : (r'.2.vols num).planWrSects = planOf s num := by
      rw [hnum.plan, (hquiet.same num).plan, hplan']
    refine hsettled.burn ?_ ?_ ?_ ?_ ?_ ?_ hpos hret
    · rw [htable, hlen]
      exact hlt
    · exact (hnew'.same (hquiet.same num) fun x hx _ => hx).same hnum fun x hx _ => hx
    · unfold getMtdNumByName
      rw [hvol, hnum.mtdParts, hquiet.mtdParts]
      exact hmtd
    · rw [hvol, hplan'']
      exact hsects
    · rw [hplan'']
      exact hplan
    · rw [hvol]
      omega
  · -- the volume goes on
    rw [if_neg hzero, hmtd] at hret ⊢
    dsimp only at hret ⊢
    have hquiet := checkVolumeExistedDo_quiet w s (nandVol s num).name
    generalize checkVolumeExistedDo w s (nandVol s num).name = r at hret hquiet ⊢
    split_ifs at hret ⊢ with hcheck hlast hoff
    · exact absurd hret.symm hpos
    · exact absurd hret.symm hpos
    · rw [not_not.mp hoff] at hret ⊢
      refine (hquiet.burning h).append ?_ hlast ?_ hpos hret
      · rw [hquiet.nandMbr]
        exact hlt
      · rw [(hquiet.same num).vol]
        omega
    · exfalso
      omega

end

end

/-- The invariant of a run: nothing has happened, or a download is going on. -/
def Running (hs : List (Nat × List UInt8)) (s : St) : Prop := s = St.zero ∧ hs = [] ∨ Burning hs s

theorem writeStep_running (h : Running hs s) (hmeets : Meets w s c)
    (hret : (writeStep w s c).1 = true) :
    Running (hs ++ handover w s c) (writeStep w s c).2 := by
  have haccepted : (spinandMtdWriteUbi w s c).1 = c.sectors := of_decide_eq_true hret
  change Running (hs ++ handover w s c) (spinandMtdWriteUbi w s c).2
  unfold handover
  rcases located_cases w s c with
    ⟨hloc, hzero⟩ | ⟨s', buffer, num, hloc, hwrite, hpos, hpartno, hstage⟩
  · rw [haccepted] at hzero
    rw [write_zero hzero, hloc, append_nil]
    exact h
  rw [hwrite] at haccepted ⊢
  rw [hloc]
  rcases getPartnoByAddr_some hpartno with ⟨hlt, hend⟩
  have hord : Orderly w s' c num := hmeets.2 (s', buffer, num) hloc
  have hburn : Burning hs s' := by
    rcases hstage with ⟨hmbr, hinit⟩ | rfl
    · have hlog := hmeets.1 hmbr
      rcases h with ⟨rfl, rfl⟩ | hold
      · exact (initUbi_fresh hinit).burning hord.nodup hord.named
      · exact absurd hlog hold.log
    · rcases h with ⟨rfl, -⟩ | hold
      · exact absurd hlt (Nat.not_lt_zero num)
      · exact hold
  refine .inr ?_
  dsimp only
  rcases hmtd : getMtdNumByName s' (nandVol s' num).name with - | mtdNum
  · exact writePartition_volume hburn hlt hend hmtd hord hpos haccepted
  · rw [append_nil]
    exact writePartition_mtd hburn hlt hmtd

/-- The state after a download: all calls, and the flush. -/
def download (w : World) (calls : List Call) : St :=
  spinandMtdFlushLastVolume w (after (writeStep w) St.zero calls)

/-- What a download hands over for the volumes. -/
def handed (w : World) (calls : List Call) : List (Nat × List UInt8) :=
  collect (writeStep w) (handover w) St.zero calls

/-- A volume has got one full size, which is its plan, exactly so many bytes, and first the data
    that was handed over. -/
structure Exact (hs : List (Nat × List UInt8)) (s : St) (num : Nat) : Prop where
  fulls : fullSizes (cmdsFor s num) = [(s.vols num).planWrSects * 512]
  total : totalBytes (cmdsFor s num) = (s.vols num).planWrSects * 512
  data : dataOf num hs <+: content (cmdsFor s num)

theorem running_after {calls : List Call} (hmeets : Along (writeStep w) (Meets w) St.zero calls)
    (haccepted : ∀ r ∈ replies (writeStep w) St.zero calls, r = true) :
    Running (handed w calls) (after (writeStep w) St.zero calls) :=
  after_of_collect (I := Running) (Q := fun r => r = true) (fun _ _ _ => writeStep_running) []
    St.zero (.inl ⟨rfl, rfl⟩) hmeets haccepted

theorem Running.fits (h : Running hs s) (k : Nat) :
    (s.vols k).writtenSects ≤ (s.vols k).planWrSects := by
  rcases h with ⟨rfl, -⟩ | hburn
  · exact Nat.zero_le _
  · exact hburn.fits k

/-- Along orderly calls that are all accepted no counter exceeds its plan. With the flush that fills
    the last gap every volume that was started is exact. -/
theorem burn_exact {calls : List Call}
    (hmeets : Along (writeStep w) (Meets w) St.zero calls)
    (haccepted : ∀ r ∈ replies (writeStep w) St.zero calls, r = true) :
    (∀ done, done <+: calls → ∀ k, ((after (writeStep w) St.zero done).vols k).writtenSects ≤
      ((after (writeStep w) St.zero done).vols k).planWrSects) ∧
    (FillOk w (after (writeStep w) St.zero calls) →
      (∀ k, ((download w calls).vols k).writtenSects ≤ ((download w calls).vols k).planWrSects) ∧
      ∀ x ∈ handed w calls, Exact (handed w calls) (download w calls) x.1) := by
  constructor
  · rintro done ⟨rest, rfl⟩ k
    refine (running_after hmeets.of_append fun r hr => haccepted r ?_).fits k
    rw [replies_append]
    exact mem_append_left _ hr
  intro hfill
  have hrun := running_after hmeets haccepted
  unfold download
  generalize after (writeStep w) St.zero calls = s at hrun hfill ⊢
  generalize handed w calls = hs at hrun ⊢
  rcases hrun with ⟨rfl, rfl⟩ | hburn
  · exact ⟨fun _ => le_rfl, fun x hx => absurd hx not_mem_nil⟩
  have hsettled := (hburn.fill hfill).1
  refine ⟨hsettled.fits, fun x hx => ?_⟩
  rcases hsettled.rest x.1 (hsettled.inside x hx) with hnew | hclosed
  · exact absurd rfl (hnew.data x hx)
  · exact ⟨hclosed.fulls, hclosed.total, hclosed.data⟩

end

instance (w : World) (s : St) : Decidable (FillOk w s) :=
  inferInstanceAs (Decidable (_ → _))

instance (w : World) (s : St) (c : Call) (num : Nat) : Decidable (Orderly w s c num) :=
  decidable_of_iff _ (orderly_iff w s c num).symm

instance (w : World) (s : St) (c : Call) : Decidable (Meets w s c) :=
  inferInstanceAs (Decidable (_ ∧ _))

/-- A chip with 248 sectors to an erase block, on which everything succeeds. The table has `boot`
    with the given size, and `UDISK`. -/
def smallChip (sects : Nat) : World where
  answer _ e := match e with
    | .malloc _ => 1
    | _ => 0
  decode _ := some [⟨⟨[0x62, 0x6f, 0x6f, 0x74], by decide⟩, 248, sects, 0⟩,
    ⟨⟨[0x55, 0x44, 0x49, 0x53, 0x4b], by decide⟩, 248 + sects, 0, 0⟩]
  adjust buffer _ := buffer
  workModeBoot := false
  mtdInfo := some []
  attach := some (⟨[0x73, 0x79, 0x73], by decide⟩, 134217728)
  blockSects := 248
  lebSects := 248
  availSects _ := 0

/-- The partition table, and eight sectors of `boot`. -/
def bootCalls : List Call := [⟨0, 128, fun _ => 7⟩, ⟨248, 8, fun _ => 1⟩]

/-- A partition with the size of an erase block. -/
theorem burn_exact_aligned :
    Exact (handed (smallChip 248) bootCalls) (download (smallChip 248) bootCalls) 1 := by
  have hmeets : Along (writeStep (smallChip 248)) (Meets (smallChip 248)) St.zero bootCalls :=
    ⟨by decide +kernel, by decide +kernel, trivial⟩
  have hexact := ((burn_exact hmeets (by decide +kernel)).2 (by decide +kernel)).2
  have hstarted : 1 ∈ (handed (smallChip 248) bootCalls).map Prod.fst := by decide +kernel
  rcases List.mem_map.mp hstarted with ⟨x, hx, hone⟩
  rw [← hone]
  exact hexact x hx

/-- A partition of 100 sectors: both calls are accepted, the second piece of the gap has over four
    billion bytes, and 248 sectors are counted. -/
theorem gap_beyond_plan :
    replies (writeStep (smallChip 100)) St.zero bootCalls = [true, true] ∧
      ((download (smallChip 100) bootCalls).vols 1).planWrSects = 100 ∧
      ((download (smallChip 100) bootCalls).vols 1).writtenSects = 248 ∧
      (cmdsFor (download (smallChip 100) bootCalls) 1).map (·.bytes) =
      [4096, 47104, 4294948864] := by
  decide +kernel

end Brandy.UbiBurn
