import Brandy.Core.UbiBurn
import Mathlib.Tactic

/-!
# The Commands a Volume Gets

A write that fits the plan adds one command with all its bytes. The filling of a gap adds commands
that together have exactly the bytes of the gap, as long as the rest of the last erase block is
inside the gap.

## Main definitions

* `Cmd`, `partCmds`: A `write.part` command, and those of a volume.
* `Quiet`, `Wrote`, `Filled`: No command, some data, and a part of a gap.

## Theorems

* `writeUbiVolume_wrote`: A write.
* `fillGap_filled`: The filling of a gap.
-/

namespace Brandy.UbiBurn

open Memory Text Word List Function

/-- A `write.part` command. -/
structure Cmd where
  buf : Mem
  bytes : Nat
  fullBytes : Nat

/-- The `write.part` command for a volume, if that is what the event is. -/
def partCmd (name : CString) : Event → Option Cmd
  | .writePart n buf bytes fullBytes => if n = name then some ⟨buf, bytes, fullBytes⟩ else none
  | _ => none

/-- The `write.part` commands of a volume. -/
def partCmds (name : CString) (log : List Event) : List Cmd := log.filterMap (partCmd name)

/-- The full sizes that were announced. -/
def fullSizes (cmds : List Cmd) : List Nat := (cmds.map (·.fullBytes)).filter (· ≠ 0)

/-- The bytes of all commands. -/
def totalBytes (cmds : List Cmd) : Nat := (cmds.map (·.bytes)).sum

/-- The bytes that the commands hand over. -/
def content (cmds : List Cmd) : List UInt8 := cmds.flatMap fun c => read c.buf 0 c.bytes

theorem partCmds_append (name : CString) (l l' : List Event) :
    partCmds name (l ++ l') = partCmds name l ++ partCmds name l' :=
  filterMap_append

variable (l l' : List Cmd)

theorem fullSizes_append : fullSizes (l ++ l') = fullSizes l ++ fullSizes l' := by
  unfold fullSizes
  rw [map_append, filter_append]

theorem totalBytes_append :
    totalBytes (l ++ l') = totalBytes l + totalBytes l' := by
  unfold totalBytes
  rw [map_append, sum_append]

theorem content_append : content (l ++ l') = content l ++ content l' :=
  flatMap_append

section

variable (s : St) (num : Nat) (v : VolStatus)

@[simp] theorem setVol_log : (s.setVol num v).log = s.log := rfl

@[simp] theorem setVol_vols_self : (s.setVol num v).vols num = v := by
  exact update_self ..

theorem setVol_vols_of_ne {k : Nat} (hk : k ≠ num) : (s.setVol num v).vols k = s.vols k := by
  exact update_of_ne hk ..

end

/-- Two states that differ in the log, without a `write.part` command, and in the known size of the
    last volume. -/
structure Quiet (s s' : St) : Prop where
  nandMbr : s'.nandMbr = s.nandMbr
  ubiMbr : s'.ubiMbr = s.ubiMbr
  mtdParts : s'.mtdParts = s.mtdParts
  vols : s'.vols = s.vols
  lastName : s'.lastName = s.lastName
  lastPartno : s'.lastPartno = s.lastPartno
  lastOffset : s'.lastOffset = s.lastOffset
  cmds : ∀ name, partCmds name s'.log = partCmds name s.log
  log : s.log ≠ [] → s'.log ≠ []

theorem Quiet.refl (s : St) : Quiet s s := ⟨rfl, rfl, rfl, rfl, rfl, rfl, rfl, fun _ => rfl, id⟩

theorem Quiet.trans {s s' s'' : St} (h : Quiet s s') (h' : Quiet s' s'') : Quiet s s'' where
  nandMbr := h'.nandMbr.trans h.nandMbr
  ubiMbr := h'.ubiMbr.trans h.ubiMbr
  mtdParts := h'.mtdParts.trans h.mtdParts
  vols := h'.vols.trans h.vols
  lastName := h'.lastName.trans h.lastName
  lastPartno := h'.lastPartno.trans h.lastPartno
  lastOffset := h'.lastOffset.trans h.lastOffset
  cmds name := (h'.cmds name).trans (h.cmds name)
  log := h'.log ∘ h.log

theorem Quiet.ite {P : Prop} [Decidable P] {s a b : St} (ha : Quiet s a) (hb : Quiet s b) :
    Quiet s (if P then a else b) := by
  split_ifs
  · exact ha
  · exact hb

theorem volnum_congr {s s' : St} (h : s'.nandMbr = s.nandMbr) {name : CString} :
    getVolnumByNandMbrName s' name = getVolnumByNandMbrName s name := by
  unfold getVolnumByNandMbrName
  rw [h]

section

variable {w : World} {s : St}

/-- The answer, and the log with the question. Only the size that is known of the last volume may
    change besides. -/
theorem ask_log (w : World) (s : St) {e : Event} :
    ∃ n, ask w s e = (w.answer s.log e, { s with log := s.log ++ [e], lastVolSects := n }) := by
  unfold ask
  split
  · exact ⟨_, rfl⟩
  · exact ⟨s.lastVolSects, rfl⟩

theorem ask_quiet {e : Event} (he : ∀ name, partCmd name e = none) : Quiet s (ask w s e).2 := by
  rcases ask_log w s with ⟨n, hask⟩
  rw [hask]
  refine ⟨rfl, rfl, rfl, rfl, rfl, rfl, rfl, fun name => ?_, fun _ =>
    append_ne_nil_of_right_ne_nil _ (cons_ne_nil _ _)⟩
  rw [partCmds_append]
  unfold partCmds
  rw [filterMap_cons_none (he name), filterMap_nil, append_nil]

theorem checkVolumeExistedDo_quiet (w : World) (s : St) (name : CString) :
    Quiet s (checkVolumeExistedDo w s name).2 := by
  unfold checkVolumeExistedDo
  cases getVolnumByName s name with
  | none => exact .refl s
  | some num => exact ask_quiet fun _ => rfl

theorem createUbiVolumeDo_quiet (w : World) (s : St) (vol : UbiVol) :
    Quiet s (createUbiVolumeDo w s vol).2 := by
  have hcheck := checkVolumeExistedDo_quiet w s vol.name
  simp only [createUbiVolumeDo, apply_ite Prod.snd]
  exact .ite hcheck (hcheck.trans (ask_quiet fun _ => rfl))

theorem ensureVolume_quiet (w : World) (s : St) (name : CString) (num : Nat) :
    Quiet s (ensureVolume w s name num).2 := by
  have hcheck := checkVolumeExistedDo_quiet w s name
  unfold ensureVolume
  cases getVolnumByName s name with
  | none =>
    simp only [apply_ite Prod.snd]
    exact .ite (.refl s) (.refl s)
  | some volNum =>
    simp only [apply_ite Prod.snd]
    exact .ite (.refl s) (.ite hcheck (hcheck.trans (createUbiVolumeDo_quiet ..)))

end

/-- Between the two states `sectors` sectors have been added to the volume `name` with number `num`,
    by the commands `cmds`. -/
structure Wrote (num sectors : Nat) (name : CString) (cmds : List Cmd) (s s' : St) : Prop where
  nandMbr : s'.nandMbr = s.nandMbr
  ubiMbr : s'.ubiMbr = s.ubiMbr
  mtdParts : s'.mtdParts = s.mtdParts
  lastName : s'.lastName = name
  lastPartno : s'.lastPartno = s.lastPartno
  lastOffset : s'.lastOffset = s.lastOffset
  plan : (s'.vols num).planWrSects = (s.vols num).planWrSects
  written : (s'.vols num).writtenSects = (s.vols num).writtenSects + sectors
  others : ∀ k ≠ num, s'.vols k = s.vols k
  cmds_self : partCmds name s'.log = partCmds name s.log ++ cmds
  cmds_other : ∀ n ≠ name, partCmds n s'.log = partCmds n s.log
  log : s.log ≠ [] → s'.log ≠ []

variable {name : CString} {s s' s'' : St}

theorem Wrote.trans {num m n : Nat} {cmds cmds' : List Cmd}
    (h : Wrote num m name cmds s s') (h' : Wrote num n name cmds' s' s'') :
    Wrote num (m + n) name (cmds ++ cmds') s s'' where
  nandMbr := h'.nandMbr.trans h.nandMbr
  ubiMbr := h'.ubiMbr.trans h.ubiMbr
  mtdParts := h'.mtdParts.trans h.mtdParts
  lastName := h'.lastName
  lastPartno := h'.lastPartno.trans h.lastPartno
  lastOffset := h'.lastOffset.trans h.lastOffset
  plan := h'.plan.trans h.plan
  written := by rw [h'.written, h.written, add_assoc]
  others k hk := (h'.others k hk).trans (h.others k hk)
  cmds_self := by rw [h'.cmds_self, h.cmds_self, append_assoc]
  cmds_other n hn := (h'.cmds_other n hn).trans (h.cmds_other n hn)
  log := h'.log ∘ h.log

theorem Quiet.wrote {num n : Nat} {cmds : List Cmd}
    (h : Quiet s s') (h' : Wrote num n name cmds s' s'') : Wrote num n name cmds s s'' := by
  have hnone : Wrote num 0 name [] s { s' with lastName := name } :=
    ⟨h.nandMbr, h.ubiMbr, h.mtdParts, rfl, h.lastPartno, h.lastOffset, by rw [h.vols],
      by rw [h.vols]; rfl, fun k _ => congrFun h.vols k, by rw [append_nil]; exact h.cmds name,
      fun n _ => h.cmds n, h.log⟩
  have hwrote := hnone.trans { h' with }
  rwa [zero_add, nil_append] at hwrote

/-- So many sectors have been added, and no full size was announced. -/
def Filled (num sectors : Nat) (name : CString) (s s' : St) : Prop :=
  ∃ cmds, Wrote num sectors name cmds s s' ∧ totalBytes cmds = sectors * 512 ∧ fullSizes cmds = []

theorem Filled.refl (s : St) (num : Nat) : Filled num 0 s.lastName s s :=
  ⟨[], ⟨rfl, rfl, rfl, rfl, rfl, rfl, rfl, rfl, fun _ _ => rfl, (append_nil _).symm,
    fun _ _ => rfl, id⟩, rfl, rfl⟩

theorem Filled.trans {num m n : Nat} (h : Filled num m name s s')
    (h' : Filled num n name s' s'') : Filled num (m + n) name s s'' := by
  rcases h with ⟨cmds, hwrote, htotal, hfulls⟩
  rcases h' with ⟨cmds', hwrote', htotal', hfulls'⟩
  refine ⟨cmds ++ cmds', hwrote.trans hwrote', ?_, ?_⟩
  · rw [totalBytes_append, htotal, htotal', add_mul]
  · rw [fullSizes_append, hfulls, hfulls', append_nil]

section

variable {w : World} {s : St} {name : CString} {num : Nat}

theorem toBytes_of_lt {sects : Nat} (h : sects < 2 ^ 23) : toBytes sects = sects * 512 := by
  unfold toBytes
  omega

theorem writeAndCount_wrote {sectors bytes fullBytes : Nat} {buf : Mem} (hname : s.lastName = name)
    (hlt : (s.vols num).writtenSects + sectors < 2 ^ 32) :
    Wrote num sectors name [⟨buf, bytes, fullBytes⟩] s
      (writeAndCount w s name num sectors buf bytes fullBytes).2 := by
  rcases ask_log w s with ⟨n, hask⟩
  unfold writeAndCount
  rw [hask]
  refine ⟨rfl, rfl, rfl, hname, rfl, rfl, ?_, ?_, fun k hk => setVol_vols_of_ne _ _ _ hk, ?_,
    fun m hm => ?_, fun _ => ?_⟩
  · rw [setVol_vols_self]
  · rw [setVol_vols_self]
    exact Nat.mod_eq_of_lt hlt
  · rw [setVol_log, partCmds_append]
    simp only [partCmds, filterMap_cons, partCmd, if_true, filterMap_nil]
  · rw [setVol_log, partCmds_append]
    simp only [partCmds, filterMap_cons, partCmd, if_neg hm.symm, filterMap_nil, append_nil]
  · exact append_ne_nil_of_right_ne_nil _ (cons_ne_nil _ _)

theorem writeUbiVolume_wrote (sectors : Nat) (buf : Mem)
    (hnum : getVolnumByNandMbrName s name = some num)
    (hfit : (s.vols num).writtenSects + sectors ≤ (s.vols num).planWrSects)
    (hplan : (s.vols num).planWrSects < 2 ^ 23)
    (hret : (writeUbiVolume w s name sectors buf).1 = 0) :
    Wrote num sectors name
      [⟨buf, sectors * 512, if s.lastName = name then 0 else (s.vols num).planWrSects * 512⟩] s
      (writeUbiVolume w s name sectors buf).2 := by
  unfold writeUbiVolume at hret ⊢
  rw [hnum] at hret ⊢
  dsimp only at hret ⊢
  have hclamp : clampBytes (s.vols num) sectors = sectors * 512 := by
    rw [clampBytes, if_neg (by omega), toBytes_of_lt (by omega)]
  rw [hclamp, toBytes_of_lt hplan] at hret ⊢
  have hquiet := ensureVolume_quiet w s name num
  generalize ensureVolume w s name num = r at hret hquiet ⊢
  split_ifs at hret ⊢ with hlast hensure
  · exact writeAndCount_wrote hlast (by omega)
  · exact absurd hret hensure
  have hvols := congrFun hquiet.vols num
  have hwrote : Wrote num sectors name
      [⟨buf, sectors * 512, (s.vols num).planWrSects * 512⟩] { r.2 with lastName := name }
      (writeAndCount w { r.2 with lastName := name } name num sectors buf (sectors * 512)
        ((s.vols num).planWrSects * 512)).2 :=
    writeAndCount_wrote rfl (by dsimp only; rw [hvols]; omega)
  exact hquiet.wrote { hwrote with }

theorem gapLoop_filled (buf : Mem) (fuel : Nat) {s : St} (i : Nat)
    (hnum : getVolnumByNandMbrName s name = some num) (hlast : s.lastName = name) (hi : i ≤ fuel)
    (hfit : (s.vols num).writtenSects + i ≤ (s.vols num).planWrSects)
    (hplan : (s.vols num).planWrSects < 2 ^ 23) (hret : (gapLoop w name buf fuel i s).1 = 0) :
    Filled num i name s (gapLoop w name buf fuel i s).2 := by
  rcases Nat.eq_zero_or_pos i with rfl | hpos
  · have hend : gapLoop w name buf fuel (0 : Nat) s = (0, s) := by
      cases fuel <;> rfl
    rw [hend, ← hlast]
    exact .refl s num
  obtain ⟨fuel, rfl⟩ := Nat.exists_eq_add_one.mpr (hpos.trans_le hi)
  unfold gapLoop at hret ⊢
  rw [if_neg (by omega), Int.toNat_natCast] at hret ⊢
  have hstep := writeUbiVolume_wrote (w := w) (min i gapBufMaxSects) buf hnum (by omega) hplan
  generalize writeUbiVolume w s name (min i gapBufMaxSects) buf = r at hret hstep ⊢
  dsimp only at hret ⊢
  split_ifs at hret ⊢ with hzero
  · exact absurd hret hzero
  have hwrote := hstep (not_not.mp hzero)
  rw [if_pos hlast] at hwrote
  have hfilled : Filled num (min i gapBufMaxSects) name s r.2 := by
    refine ⟨_, hwrote, ?_, rfl⟩
    unfold totalBytes
    rw [map_singleton, sum_singleton]
  by_cases hfull : i ≤ gapBufMaxSects
  · -- the last buffer: the loop ends with `i ≤ 0`
    have hend : gapLoop w name buf fuel ((i : Int) - gapBufMaxSects) r.2 = (0, r.2) := by
      cases fuel with
      | zero => rfl
      | succ fuel =>
        unfold gapLoop
        rw [if_pos (by omega)]
    rwa [hend, ← min_eq_left hfull]
  · have hcast : (i : Int) - gapBufMaxSects = (i - gapBufMaxSects : Nat) := by omega
    rw [min_eq_right (by omega)] at hwrote hfilled
    rw [hcast] at hret ⊢
    have hbuf : 0 < gapBufMaxSects := by decide
    have hrest := gapLoop_filled buf fuel (i - gapBufMaxSects)
      ((volnum_congr hwrote.nandMbr).trans hnum) hwrote.lastName (by omega)
      (by rw [hwrote.written, hwrote.plan]; omega) (by rw [hwrote.plan]; exact hplan) hret
    have hboth := hfilled.trans hrest
    rwa [show gapBufMaxSects + (i - gapBufMaxSects) = i by omega] at hboth

theorem fillGap_filled {k : Nat} (hk : nandVol s k = nandVol s num)
    (hname : (nandVol s num).name = s.lastName)
    (hnum : getVolnumByNandMbrName s s.lastName = some num)
    (hle : (s.vols num).writtenSects ≤ (s.vols num).planWrSects)
    (hplan : (s.vols num).planWrSects < 2 ^ 23)
    (hremain : gapOf (s.vols num) ≠ 0 → ∀ j ∈ getVolnumByName s s.lastName,
      gapRemain w s j ≤ gapOf (s.vols num))
    (hret : (fillGap w s k).1 = 0) :
    Filled num ((s.vols num).planWrSects - (s.vols num).writtenSects) s.lastName s
      (fillGap w s k).2 := by
  have hgap : gapOf (s.vols num) = (s.vols num).planWrSects - (s.vols num).writtenSects :=
    u32_of_range _ (by omega) (by omega)
  unfold fillGap at hret ⊢
  dsimp only at hret ⊢
  rw [if_neg (by omega), Int.toNat_natCast, hk, hname, hnum] at hret ⊢
  dsimp only at hret ⊢
  split_ifs at hret ⊢ with hzero
  swap
  · rw [← hgap, not_not.mp hzero]
    exact .refl s num
  unfold fillGapDo at hret ⊢
  rcases hvol : getVolnumByName s s.lastName with - | j
  · rw [hvol] at hret
    cases hret
  rw [hvol] at hret
  dsimp only at hret ⊢
  rw [if_neg hzero] at hret ⊢
  have hmalloc : Quiet s (ask w s (.malloc (toBytes gapBufMaxSects))).2 :=
    ask_quiet fun _ => rfl
  generalize ask w s (.malloc (toBytes gapBufMaxSects)) = r at hret hmalloc ⊢
  have hrem : gapRemain w r.2 j ≤ gapOf (s.vols num) := by
    have h := hremain hzero j hvol
    unfold gapRemain at h ⊢
    rwa [hmalloc.vols]
  generalize gapRemain w r.2 j = remain at hret hrem ⊢
  have hnum' := (volnum_congr hmalloc.nandMbr).trans hnum
  have hvols := congrFun hmalloc.vols num
  have hfirst := gapLoop_filled (w := w) gapPattern _ remain hnum' hmalloc.lastName
    le_rfl (by rw [hvols]; omega) (by rw [hvols]; exact hplan)
  generalize gapLoop w s.lastName gapPattern remain remain r.2 = r' at hret hfirst ⊢
  split_ifs at hret ⊢ with hbuf hfirstRet
  · cases hret
  · exact absurd hret hfirstRet
  have hfilled := hfirst (not_not.mp hfirstRet)
  have ⟨_, hwrote, _⟩ := hfilled
  have hi : s32 ((gapOf (s.vols num) : Int) - remain) = (gapOf (s.vols num) - remain : Nat) := by
    rw [s32_of_range]
    omega
  rw [hi, Int.toNat_natCast] at hret ⊢
  have hsecond := gapLoop_filled (w := w) (fun _ => 0xff) _ _
    ((volnum_congr hwrote.nandMbr).trans hnum') hwrote.lastName le_rfl
    (by rw [hwrote.written, hwrote.plan, hvols]; omega)
    (by rw [hwrote.plan, hvols]; exact hplan) hret
  rcases hfilled.trans hsecond with ⟨cmds, hboth, hrest⟩
  rw [show remain + (gapOf (s.vols num) - remain) =
    (s.vols num).planWrSects - (s.vols num).writtenSects by omega] at hboth hrest
  exact ⟨cmds, hmalloc.wrote hboth, hrest⟩

end

end Brandy.UbiBurn
