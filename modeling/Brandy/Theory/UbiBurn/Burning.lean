import Brandy.Theory.UbiBurn.Commands
import Mathlib.Data.List.GetD

/-!
# Volumes Being Burnt

A volume is untouched, or it is complete, or it is the one that is written at the moment. For the
last one the counters, the commands and the caller's data agree; a complete one has got all its
bytes, and they begin with the caller's data.

## Main definitions

* `Untouched`, `Closed`, `Open`: The three states of a volume.
* `Burning`: The invariant of a download.

## Theorems

* `Burning.fill`: The gap of the open volume is filled.
* `burn_opens`, `Burning.append`: A volume is begun or continued.
-/

namespace Brandy.UbiBurn

open Memory Text Word List Option

/-- The data that was handed over for a volume. -/
def dataOf (num : Nat) (hs : List (Nat × List UInt8)) : List UInt8 :=
  hs.flatMap fun h => if h.1 = num then h.2 else []

variable {num : Nat}

theorem dataOf_append_of_ne {k : Nat} (hk : k ≠ num) (hs : List (Nat × List UInt8))
    (d : List UInt8) : dataOf k (hs ++ [(num, d)]) = dataOf k hs := by
  unfold dataOf
  rw [flatMap_append, flatMap_singleton, if_neg hk.symm, append_nil]

variable {hs : List (Nat × List UInt8)}

theorem dataOf_eq_nil (h : ∀ x ∈ hs, x.1 ≠ num) : dataOf num hs = [] :=
  flatMap_eq_nil_iff.mpr fun x hx => if_neg (h x hx)

/-- The commands for a volume. -/
def cmdsFor (s : St) (num : Nat) : List Cmd := partCmds (nandVol s num).name s.log

/-- No byte has been handed over for the volume. -/
structure Untouched (hs : List (Nat × List UInt8)) (s : St) (num : Nat) : Prop where
  cmds : cmdsFor s num = []
  data : ∀ x ∈ hs, x.1 ≠ num
  written : (s.vols num).writtenSects = 0

/-- The volume is not an MTD partition, and its full size has been announced once. -/
structure Announced (s : St) (num : Nat) : Prop where
  notMtd : getMtdNumByName s (nandVol s num).name = none
  fulls : fullSizes (cmdsFor s num) = [(s.vols num).planWrSects * 512]

/-- The volume has got all its bytes. -/
structure Closed (hs : List (Nat × List UInt8)) (s : St) (num : Nat) : Prop
    extends Announced s num where
  total : totalBytes (cmdsFor s num) = (s.vols num).planWrSects * 512
  data : dataOf num hs <+: content (cmdsFor s num)

/-- The volume is the one that is being written. -/
structure Open (hs : List (Nat × List UInt8)) (s : St) (num : Nat) : Prop
    extends Announced s num where
  lastName : s.lastName = (nandVol s num).name
  lastOffset : s.lastOffset = (s.vols num).writtenSects
  pos : 0 < (s.vols num).writtenSects
  written : (s.vols num).writtenSects ≤ (nandVol s num).sects
  sects : (nandVol s num).sects ≤ (s.vols num).planWrSects
  plan : (s.vols num).planWrSects < 2 ^ 23
  total : totalBytes (cmdsFor s num) = (s.vols num).writtenSects * 512
  data : content (cmdsFor s num) = dataOf num hs

/-- The tables and counters of a download that has begun. -/
structure Base (hs : List (Nat × List UInt8)) (s : St) : Prop where
  log : s.log ≠ []
  nodup : (s.nandMbr.map (·.name)).Nodup
  named : emptyName ∉ s.nandMbr.map (·.name)
  fits : ∀ k, (s.vols k).writtenSects ≤ (s.vols k).planWrSects
  inside : ∀ x ∈ hs, x.1 < s.nandMbr.length

/-- Between two calls. -/
structure Burning (hs : List (Nat × List UInt8)) (s : St) : Prop extends Base hs s where
  last : s.lastPartno = -1 ∧ s.lastName = emptyName ∨
    ∃ num < s.nandMbr.length, s.lastPartno = num ∧ Open hs s num
  rest : ∀ num < s.nandMbr.length, s.lastPartno ≠ num → Untouched hs s num ∨ Closed hs s num

/-- No volume is being written. -/
structure Settled (hs : List (Nat × List UInt8)) (s : St) : Prop extends Base hs s where
  last : s.lastName = emptyName ∨
    ∃ num < s.nandMbr.length, s.lastName = (nandVol s num).name ∧ Closed hs s num
  rest : ∀ num < s.nandMbr.length, Untouched hs s num ∨ Closed hs s num

/-- Nothing has changed for a volume. -/
structure Same (s s' : St) (num : Nat) : Prop where
  vol : nandVol s' num = nandVol s num
  mtdParts : s'.mtdParts = s.mtdParts
  plan : (s'.vols num).planWrSects = (s.vols num).planWrSects
  written : (s'.vols num).writtenSects = (s.vols num).writtenSects
  cmds : cmdsFor s' num = cmdsFor s num

variable {s' : St} {s : St}

theorem nandVol_congr (h : s'.nandMbr = s.nandMbr) (num : Nat) :
    nandVol s' num = nandVol s num := by
  unfold nandVol
  rw [h]

theorem notMtd_congr (hvol : nandVol s' num = nandVol s num) (hparts : s'.mtdParts = s.mtdParts) :
    getMtdNumByName s' (nandVol s' num).name =
      getMtdNumByName s (nandVol s num).name := by
  unfold getMtdNumByName
  rw [hvol, hparts]

variable {hs' : List (Nat × List UInt8)}

theorem Untouched.same (h : Untouched hs s num) (hsame : Same s s' num)
    (hhs : ∀ x ∈ hs', x.1 = num → x ∈ hs) :
    Untouched hs' s' num where
  cmds := hsame.cmds.trans h.cmds
  data x hx hnum := h.data x (hhs x hx hnum) hnum
  written := hsame.written.trans h.written

theorem Announced.same (h : Announced s num) (hsame : Same s s' num) :
    Announced s' num where
  notMtd := (notMtd_congr hsame.vol hsame.mtdParts).trans h.notMtd
  fulls := by rw [hsame.cmds, hsame.plan, h.fulls]

theorem Closed.same (h : Closed hs s num) (hsame : Same s s' num)
    (hhs : dataOf num hs' = dataOf num hs) :
    Closed hs' s' num where
  toAnnounced := h.toAnnounced.same hsame
  total := by rw [hsame.cmds, hsame.plan, h.total]
  data := by
    rw [hsame.cmds, hhs]
    exact h.data

theorem Open.same (h : Open hs s num) (hsame : Same s s' num) (hname : s'.lastName = s.lastName)
    (hoffset : s'.lastOffset = s.lastOffset) :
    Open hs s' num where
  toAnnounced := h.toAnnounced.same hsame
  lastName := by rw [hname, hsame.vol, h.lastName]
  lastOffset := by rw [hoffset, hsame.written, h.lastOffset]
  pos := by
    rw [hsame.written]
    exact h.pos
  written := by
    rw [hsame.written, hsame.vol]
    exact h.written
  sects := by
    rw [hsame.plan, hsame.vol]
    exact h.sects
  plan := by
    rw [hsame.plan]
    exact h.plan
  total := by rw [hsame.cmds, hsame.written, h.total]
  data := by rw [hsame.cmds, h.data]

theorem Quiet.same (h : Quiet s s') (num : Nat) : Same s s' num where
  vol := nandVol_congr h.nandMbr num
  mtdParts := h.mtdParts
  plan := by rw [h.vols]
  written := by rw [h.vols]
  cmds := by
    unfold cmdsFor
    rw [nandVol_congr h.nandMbr, h.cmds]

theorem Base.congr (hbase : Base hs s) (htable : s'.nandMbr = s.nandMbr)
    (hlog : s.log ≠ [] → s'.log ≠ [])
    (hfits : ∀ k, (s'.vols k).writtenSects ≤ (s'.vols k).planWrSects)
    (hinside : ∀ x ∈ hs', x.1 < s.nandMbr.length) : Base hs' s' where
  log := hlog hbase.log
  nodup := by
    rw [htable]
    exact hbase.nodup
  named := by
    rw [htable]
    exact hbase.named
  fits := hfits
  inside := by
    rw [htable]
    exact hinside

theorem Quiet.burning (h : Quiet s s') (hburn : Burning hs s) : Burning hs s' where
  toBase := hburn.toBase.congr h.nandMbr h.log (by rw [h.vols]; exact hburn.fits) hburn.inside
  last := by
    rw [h.lastPartno, h.lastName, h.nandMbr]
    rcases hburn.last with hnone | ⟨num, hlt, hlast, hopen⟩
    · exact .inl hnone
    · exact .inr ⟨num, hlt, hlast, hopen.same (h.same num) h.lastName h.lastOffset⟩
  rest num hlt hne := by
    rw [h.nandMbr] at hlt
    rw [h.lastPartno] at hne
    rcases hburn.rest num hlt hne with hnew | hclosed
    · exact .inl (hnew.same (h.same num) fun x hx _ => hx)
    · exact .inr (hclosed.same (h.same num) rfl)

section

variable {hs : List (Nat × List UInt8)} {w : World} {s : St} {num : Nat}

theorem nandVol_eq_getElem (h : num < s.nandMbr.length) : nandVol s num = s.nandMbr[num] :=
  getD_eq_getElem _ _ h

section

variable (hbase : Base hs s) (h : num < s.nandMbr.length)
include hbase h

theorem Base.name_ne {k : Nat} (hk : k < s.nandMbr.length) (hne : k ≠ num) :
    (nandVol s k).name ≠ (nandVol s num).name := by
  rw [nandVol_eq_getElem h, nandVol_eq_getElem hk]
  intro heq
  refine hne ((getElem?_inj (by rwa [length_map]) hbase.nodup).mp ?_)
  rw [getElem?_map, getElem?_map, getElem?_eq_getElem h, getElem?_eq_getElem hk,
    map_some, map_some, heq]

theorem Base.name_ne_empty : emptyName ≠ (nandVol s num).name := by
  rw [nandVol_eq_getElem h]
  intro heq
  exact hbase.named (List.mem_map.mpr ⟨_, getElem_mem h, heq.symm⟩)

/-- With different names the search for the name of a volume finds the volume. -/
theorem Base.volnum : getVolnumByNandMbrName s (nandVol s num).name = some num := by
  unfold getVolnumByNandMbrName
  rw [findIdx?_eq_some_iff_getElem]
  refine ⟨h, ?_, fun j hj => ?_⟩
  · rw [nandVol_eq_getElem h, decide_eq_true_eq]
  · have hne := hbase.name_ne h (hj.trans h) (Nat.ne_of_lt hj)
    rw [nandVol_eq_getElem (hj.trans h)] at hne
    rw [decide_eq_true_eq]
    exact hne

end

variable {cmds : List Cmd}

theorem Wrote.same {n k : Nat} {name : CString} (h : Wrote num n name cmds s s') (hk : k ≠ num)
    (hname : (nandVol s k).name ≠ name) :
    Same s s' k where
  vol := nandVol_congr h.nandMbr k
  mtdParts := h.mtdParts
  plan := by rw [h.others k hk]
  written := by rw [h.others k hk]
  cmds := by
    unfold cmdsFor
    rw [nandVol_congr h.nandMbr, h.cmds_other _ hname]

theorem Wrote.cmdsFor {n : Nat} (h : Wrote num n (nandVol s num).name cmds s s') :
    UbiBurn.cmdsFor s' num = UbiBurn.cmdsFor s num ++ cmds := by
  unfold UbiBurn.cmdsFor
  rw [nandVol_congr h.nandMbr]
  exact h.cmds_self

theorem Wrote.base {n : Nat} {name : CString} (h : Wrote num n name cmds s s') (hbase : Base hs s)
    (hfit : (s.vols num).writtenSects + n ≤ (s.vols num).planWrSects)
    (hinside : ∀ x ∈ hs', x.1 < s.nandMbr.length) : Base hs' s' := by
  refine hbase.congr h.nandMbr h.log (fun k => ?_) hinside
  by_cases hk : k = num
  · rw [hk, h.written, h.plan]
    exact hfit
  · rw [h.others k hk]
    exact hbase.fits k

/-- The gap of the volume that is being written can be filled: the code reports no error, and the
    rest of the erase block that it computes is inside the gap. -/
def FillOk (w : World) (s : St) : Prop :=
  0 ≤ s.lastPartno → (fillGap w s s.lastPartno).1 = 0 ∧
    (gapOf (s.vols s.lastPartno.toNat) ≠ 0 →
      ∀ k ∈ getVolnumByName s (nandVol s s.lastPartno.toNat).name,
        gapRemain w s k ≤ gapOf (s.vols s.lastPartno.toNat))

theorem Burning.fill (h : Burning hs s) (hfill : FillOk w s) :
    Settled hs (fillGap w s s.lastPartno).2 ∧
      (fillGap w s s.lastPartno).2.nandMbr = s.nandMbr ∧
      ∀ k < s.nandMbr.length, s.lastPartno ≠ k → Same s (fillGap w s s.lastPartno).2 k := by
  rcases h.last with ⟨hlast, hname⟩ | ⟨num, hlt, hlast, hopen⟩
  · have hnone : fillGap w s s.lastPartno = (0, s) := by
      unfold fillGap
      rw [if_pos (by omega)]
    rw [hnone]
    refine ⟨⟨h.toBase, .inl hname, fun num hlt => h.rest num hlt (by omega)⟩, rfl, fun k _ _ => ?_⟩
    exact (Quiet.refl s).same k
  · rcases hfill (by omega) with ⟨hret, hremain⟩
    rw [hlast] at hret hremain ⊢
    rw [Int.toNat_natCast, ← hopen.lastName] at hremain
    have hvolnum := h.toBase.volnum hlt
    rw [← hopen.lastName] at hvolnum
    have hle := h.fits num
    rcases fillGap_filled (k := num) rfl hopen.lastName.symm hvolnum hle hopen.plan
      hremain hret with ⟨cmds, hwrote, htotal, hfulls⟩
    rw [hopen.lastName] at hwrote
    generalize (fillGap w s num).2 = s' at hwrote ⊢
    have hsame : ∀ k < s.nandMbr.length, k ≠ num → Same s s' k := fun k hk hne =>
      hwrote.same hne (h.toBase.name_ne hlt hk hne)
    have hvol := nandVol_congr hwrote.nandMbr num
    have hcmds := hwrote.cmdsFor
    have hclosed : Closed hs s' num :=
      { notMtd := (notMtd_congr hvol hwrote.mtdParts).trans hopen.notMtd
        fulls := by
          rw [hcmds, fullSizes_append, hfulls, append_nil, hwrote.plan]
          exact hopen.fulls
        total := by
          rw [hcmds, totalBytes_append, htotal, hopen.total, hwrote.plan, ← add_mul]
          congr 1
          omega
        data := by
          rw [hcmds, content_append, hopen.data]
          exact prefix_append _ _ }
    refine ⟨⟨hwrote.base h.toBase (by omega) h.inside, .inr ⟨num, ?_, ?_, hclosed⟩, ?_⟩,
      hwrote.nandMbr, fun k hk hne => hsame k hk (by omega)⟩
    · rw [hwrote.nandMbr]
      exact hlt
    · rw [hwrote.lastName, hvol]
    · rw [hwrote.nandMbr]
      intro k hk
      by_cases hne : k = num
      · rw [hne]
        exact .inr hclosed
      · rcases h.rest k hk (by omega) with hnew | hold
        · exact .inl (hnew.same (hsame k hk hne) fun x hx _ => hx)
        · exact .inr (hold.same (hsame k hk hne) rfl)

variable {d : List UInt8}

theorem Wrote.rest {n : Nat} {k : Nat}
    (h : Wrote num n (nandVol s num).name cmds s s') (hbase : Base hs s)
    (hlt : num < s.nandMbr.length) (hk : k < s.nandMbr.length) (hne : k ≠ num)
    (hrest : Untouched hs s k ∨ Closed hs s k) :
    Untouched (hs ++ [(num, d)]) s' k ∨ Closed (hs ++ [(num, d)]) s' k := by
  have hsame : Same s s' k := h.same hne (hbase.name_ne hlt hk hne)
  rcases hrest with hnew | hold
  · refine .inl (hnew.same hsame fun x hx hxk => ?_)
    rcases mem_append.mp hx with hx | hx
    · exact hx
    · rw [mem_singleton.mp hx] at hxk
      exact absurd hxk hne.symm
  · exact .inr (hold.same hsame (dataOf_append_of_ne hne hs d))

theorem inside_append {l : Nat} (h : ∀ x ∈ hs, x.1 < l) (hlt : num < l) :
    ∀ x ∈ hs ++ [(num, d)], x.1 < l := by
  intro x hx
  rcases mem_append.mp hx with hx | hx
  · exact h x hx
  · rw [mem_singleton.mp hx]
    exact hlt

theorem Base.moveTo (h : Base hs s) (off : Nat) : Base hs (s.moveTo num off) :=
  ⟨h.log, h.nodup, h.named, h.fits, h.inside⟩

theorem moveTo_same (s : St) (num off k : Nat) : Same s (s.moveTo num off) k :=
  ⟨rfl, rfl, rfl, rfl, rfl⟩

theorem Wrote.burning {n off : Nat}
    (h : Wrote num n (nandVol s num).name cmds (s.moveTo num off) s') (hbase : Base hs s)
    (hlt : num < s.nandMbr.length) (hfit : (s.vols num).writtenSects + n ≤ (s.vols num).planWrSects)
    (hopen : Open (hs ++ [(num, d)]) s' num)
    (hrest : ∀ k < s.nandMbr.length, k ≠ num → Untouched hs s k ∨ Closed hs s k) :
    Burning (hs ++ [(num, d)]) s' where
  toBase := h.base (hbase.moveTo off) hfit (inside_append hbase.inside hlt)
  last := by
    refine .inr ⟨num, ?_, h.lastPartno, hopen⟩
    rw [h.nandMbr]
    exact hlt
  rest k hk hne := by
    rw [h.nandMbr] at hk
    rw [h.lastPartno] at hne
    have hkn : k ≠ num := fun heq => hne (by rw [heq]; rfl)
    refine Wrote.rest h (hbase.moveTo off) hlt hk hkn ?_
    rcases hrest k hk hkn with hnew | hold
    · exact .inl (hnew.same (moveTo_same ..) fun x hx _ => hx)
    · exact .inr (hold.same (moveTo_same ..) rfl)

variable {buffer : Mem} {sectors : Nat}

/-- A write that goes on where the commands of the volume end makes it the open one. -/
theorem burn_opens (hbase : Base hs s) (hlt : num < s.nandMbr.length)
    (hmtd : getMtdNumByName s (nandVol s num).name = none)
    (hsects : (nandVol s num).sects ≤ (s.vols num).planWrSects)
    (hplan : (s.vols num).planWrSects < 2 ^ 23)
    (hle : (s.vols num).writtenSects + sectors ≤ (nandVol s num).sects)
    (htotal : totalBytes (cmdsFor s num) = (s.vols num).writtenSects * 512)
    (hdata : content (cmdsFor s num) = dataOf num hs)
    (hfulls : fullSizes (cmdsFor s num ++ [⟨buffer, sectors * 512,
      if s.lastName = (nandVol s num).name then 0 else (s.vols num).planWrSects * 512⟩]) =
        [(s.vols num).planWrSects * 512])
    (hrest : ∀ k < s.nandMbr.length, k ≠ num → Untouched hs s k ∨ Closed hs s k)
    (hpos : sectors ≠ 0)
    (hret : (burn w s num (s.vols num).writtenSects sectors buffer).1 = sectors) :
    Burning (hs ++ [(num, read buffer 0 (sectors * 512))])
      (burn w s num (s.vols num).writtenSects sectors buffer).2 := by
  have hfit : (s.vols num).writtenSects + sectors ≤ (s.vols num).planWrSects := by omega
  have hwrote : Wrote num sectors (nandVol s num).name _ (s.moveTo num _) (burn w s num _ _ _).2 :=
    writeUbiVolume_wrote sectors buffer ((hbase.moveTo _).volnum hlt) hfit hplan <| by
      by_contra h
      unfold burn at hret
      dsimp only at hret
      rw [if_pos h] at hret
      exact hpos hret.symm
  generalize (burn w s num (s.vols num).writtenSects sectors buffer).2 = s' at hwrote
  have hvol : nandVol s' num = nandVol s num := nandVol_congr hwrote.nandMbr num
  have hplan' : (s'.vols num).planWrSects = (s.vols num).planWrSects := hwrote.plan
  have hwritten' : (s'.vols num).writtenSects = (s.vols num).writtenSects + sectors :=
    hwrote.written
  have hcmds : cmdsFor s' num = cmdsFor s num ++ _ :=
    Wrote.cmdsFor (s := s.moveTo num ((s.vols num).writtenSects + sectors)) hwrote
  refine hwrote.burning hbase hlt hfit ?_ hrest
  exact
    { notMtd := (notMtd_congr hvol hwrote.mtdParts).trans hmtd
      fulls := by
        rw [hcmds, hplan']
        exact hfulls
      lastName := by rw [hwrote.lastName, hvol]
      lastOffset := by
        rw [hwrote.lastOffset, hwritten']
        unfold St.moveTo
        dsimp only
        omega
      pos := by omega
      written := by rwa [hwritten', hvol]
      sects := by rwa [hplan', hvol]
      plan := by rwa [hplan']
      total := by
        rw [hcmds, totalBytes_append, htotal, hwritten', add_mul]
        unfold totalBytes
        rw [map_singleton, sum_singleton]
      data := by
        rw [hcmds, content_append, hdata]
        unfold content dataOf
        rw [flatMap_append, flatMap_singleton, flatMap_singleton, if_pos rfl] }

theorem Settled.burn (h : Settled hs s) (hlt : num < s.nandMbr.length)
    (hnew : Untouched hs s num) (hmtd : getMtdNumByName s (nandVol s num).name = none)
    (hsects : (nandVol s num).sects ≤ (s.vols num).planWrSects)
    (hplan : (s.vols num).planWrSects < 2 ^ 23) (hle : sectors ≤ (nandVol s num).sects)
    (hpos : sectors ≠ 0) (hret : (burn w s num 0 sectors buffer).1 = sectors) :
    Burning (hs ++ [(num, read buffer 0 (sectors * 512))]) (burn w s num 0 sectors buffer).2 := by
  have hlast : s.lastName ≠ (nandVol s num).name := by
    rcases h.last with hempty | ⟨k, hk, hname, hclosed⟩
    · rw [hempty]
      exact h.toBase.name_ne_empty hlt
    rw [hname]
    refine h.toBase.name_ne hlt hk fun heq => ?_
    have hfulls := hclosed.fulls
    rw [heq, hnew.cmds] at hfulls
    cases hfulls
  have hfull : (s.vols num).planWrSects * 512 ≠ 0 := by omega
  rw [← hnew.written] at hret ⊢
  refine burn_opens h.toBase hlt hmtd hsects hplan (by rwa [hnew.written, zero_add]) ?_ ?_ ?_
    (fun k hk _ => h.rest k hk) hpos hret
  · rw [hnew.cmds, hnew.written]
    rfl
  · rw [hnew.cmds, dataOf_eq_nil hnew.data]
    rfl
  · rw [hnew.cmds, if_neg hlast]
    exact filter_cons_of_pos (decide_eq_true hfull)

theorem Burning.opened (h : Burning hs s) (hlast : s.lastPartno = num) : Open hs s num := by
  rcases h.last with ⟨hnone, -⟩ | ⟨k, -, hk, hopen⟩
  · omega
  · obtain rfl : k = num := by omega
    exact hopen

theorem Burning.append (h : Burning hs s) (hlt : num < s.nandMbr.length)
    (hlast : s.lastPartno = num) (hle : s.lastOffset + sectors ≤ (nandVol s num).sects)
    (hpos : sectors ≠ 0) (hret : (burn w s num s.lastOffset sectors buffer).1 = sectors) :
    Burning (hs ++ [(num, read buffer 0 (sectors * 512))])
      (burn w s num s.lastOffset sectors buffer).2 := by
  have hopen := h.opened hlast
  rw [hopen.lastOffset] at hle hret ⊢
  refine burn_opens h.toBase hlt hopen.notMtd hopen.sects hopen.plan hle hopen.total hopen.data ?_
    (fun k hk hkn => h.rest k hk (by omega)) hpos hret
  rw [if_pos hopen.lastName, fullSizes_append, hopen.fulls]
  rfl

end

end Brandy.UbiBurn
