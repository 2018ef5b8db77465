import Brandy.Theory.Vbmeta.Restore

/-!
# Walking over the Descriptors

The search for a descriptor and the walk over all of them check that the area of the descriptors is
inside the blob, and nothing after that. A length in the area moves the pointer as it is, so the
pointer may stay where it is or go back; and a descriptor at the end of the area may be read behind
the end of the blob.

## Main definitions

* `Loops`: What the two loops over the descriptors have in common.
* `Safe`: They return, and read only what is in the blob.
* `Chained`: Every descriptor of the walk is in the area as a whole.

## Theorems

* `Loops.returns`, `Loops.endless`: When a loop ends.
* `safe_iff_chained`: When the search and the walk are safe.
-/

namespace Brandy.Vbmeta

open Process
open Text

/-- A blob of at least the size of the header that does not run over the end of the memory. -/
structure PlacedBlob extends Blob where
  large : 256 ≤ len.toNat
  ends : data.toNat + len.toNat < 2 ^ 32

variable {b : Blob} {stop : BitVec 32 → Prop} {p : BitVec 32}

theorem Visits.walked (h : Visits b stop p) : Walked b p := by
  induction h with
  | start hin hlt => exact .start hin hlt
  | next _ _ hlt ih => exact .next ih id hlt

theorem Visits.lt (h : Visits b stop p) : p.toNat < b.descEnd.toNat := by
  cases h with
  | start _ hlt => exact hlt
  | next _ _ hlt => exact hlt

theorem Visits.inside (h : Visits b stop p) : ¬ b.DescOutside := by
  induction h with
  | start hin _ => exact hin
  | next _ _ _ ih => exact ih

/-- A loop over the descriptors: it goes on in front of the end while `stop` does not hold, and
    returns otherwise. -/
structure Loops {α : Type} (b : Blob) (stop : BitVec 32 → Prop)
    (loop : Nat → BitVec 32 → Verifier α) : Prop where
  out : ∀ p s, loop 0 p s = .gone .endless s
  step : ∀ p s, p.toNat < b.descEnd.toNat → ¬ stop p →
    ∃ s', ∀ turns, loop (turns + 1) p s = loop turns (b.next p) s'
  done : ∀ p s, (p.toNat < b.descEnd.toNat → stop p) →
    ∃ r s', ∀ turns, loop (turns + 1) p s = .ret r s'

/-- The callback asks to go on, whatever it is given. -/
def GoesOn (callBack : BitVec 32 → Nat → Verifier Int) : Prop :=
  ∀ p n s, ∃ s', callBack p n s = .ret 0 s'

theorem loops_walkLoop {callBack : BitVec 32 → Nat → Verifier Int} (h : GoesOn callBack) :
    Loops b (fun _ => False) (walkLoop b callBack) where
  out _ _ := rfl
  step p s hlt _ := by
    rcases h p (b.nbTotal p % 2 ^ 32) s with ⟨s', hret⟩
    refine ⟨s', fun turns => ?_⟩
    rw [walkLoop, if_pos hlt, bind_run, hret, ret_bind, if_neg (not_not.mpr rfl)]
    rfl
  done p s hend := ⟨-1, s, fun turns => by rw [walkLoop, if_neg hend]; rfl⟩

theorem loops_searchLoop (w : World) {b : Blob} (name : CString) :
    Loops b (Stops w b name) (searchLoop w b b.descEnd name) where
  out _ _ := rfl
  step p s hlt hstop := by
    refine ⟨s, fun turns => ?_⟩
    rw [searchLoop, if_pos hlt]
    exact congrFun (if_neg hstop) s
  done p s hend := by
    by_cases hlt : p.toNat < b.descEnd.toNat
    · -- the descriptor is copied when there is memory for it
      refine ⟨if w.alloc s.allocs then .found (hashDescriptor b p) else .failed (-2),
        { s with allocs := s.allocs + 1 }, fun turns => ?_⟩
      have halloc : allocate w s = .ret (w.alloc s.allocs) { s with allocs := s.allocs + 1 } := rfl
      rw [searchLoop, if_pos hlt]
      refine (congrFun (if_pos (hend hlt)) s).trans ?_
      rw [bind_run, halloc, ret_bind]
      split <;> rfl
    · exact ⟨.failed (-1), s, fun turns => by rw [searchLoop, if_neg hlt]; rfl⟩

theorem sunxiAvbGetDescriptorByName_eq (w : World) (b : Blob) (name : CString) :
    sunxiAvbGetDescriptorByName w b name = if b.DescOutside then return .failed (-3)
      else searchLoop w b b.descEnd name w.turns b.descStart := rfl

section

variable {α : Type} {loop : Nat → BitVec 32 → Verifier α}

/-- A loop that comes back to the same place does not end. -/
theorem Loops.endless (h : Loops b stop loop) (hlt : p.toNat < b.descEnd.toNat) (hstop : ¬ stop p)
    (hnext : b.next p = p) (turns : Nat) (s : St) : ∃ s', loop turns p s = .gone .endless s' := by
  induction turns generalizing s with
  | zero => exact ⟨s, h.out p s⟩
  | succ turns ih =>
    rcases h.step p s hlt hstop with ⟨s', hs'⟩
    rw [hs' turns, hnext]
    exact ih s'

/-- A descriptor as a whole is in the area. -/
def Whole (b : Blob) (p : BitVec 32) : Prop :=
  p.toNat + (16 + b.field (p + 8) 8) ≤ b.descEnd.toNat

theorem Whole.nbTotal_eq (h : Whole b p) : b.nbTotal p = 16 + b.field (p + 8) 8 := by
  have hlt := b.descEnd.isLt
  unfold Whole at h
  exact Nat.mod_eq_of_lt (by omega)

theorem Whole.toNat_next (h : Whole b p) :
    (b.next p).toNat = p.toNat + (16 + b.field (p + 8) 8) := by
  have hlt := b.descEnd.isLt
  unfold Whole at h
  rw [Blob.next, Whole.nbTotal_eq h, BitVec.toNat_add, BitVec.toNat_ofNat]
  omega

/-- The loop returns: with every turn the place comes nearer to the end of the area. -/
theorem Loops.returns (h : Loops b stop loop) (hwhole : ∀ p, Visits b stop p → Whole b p)
    (hin : ¬ b.DescOutside) :
    ∀ s, ∃ r s', loop (b.descEnd.toNat - b.descStart.toNat + 1) b.descStart s = .ret r s' := by
  have hturns : ∀ k p, (p.toNat < b.descEnd.toNat → Visits b stop p) →
      b.descEnd.toNat - p.toNat ≤ k → ∀ s, ∃ r s', loop (k + 1) p s = .ret r s' := by
    intro k
    induction k with
    | zero =>
      intro p _ hk s
      rcases h.done p s (by omega) with ⟨r, s', hret⟩
      exact ⟨r, s', hret 0⟩
    | succ k ih =>
      intro p hp hk s
      by_cases hgo : p.toNat < b.descEnd.toNat ∧ ¬ stop p
      · rcases h.step p s hgo.1 hgo.2 with ⟨s₁, hs₁⟩
        have hnext := (hwhole p (hp hgo.1)).toNat_next
        rw [hs₁]
        exact ih _ (.next (hp hgo.1) hgo.2) (by omega) s₁
      · rcases h.done p s (fun hlt => by_contra fun hstop => hgo ⟨hlt, hstop⟩) with ⟨r, s', hret⟩
        exact ⟨r, s', hret _⟩
  exact hturns _ b.descStart (.start hin) le_rfl

end

/-- The blob has this many bytes from a place on. -/
def Blob.Has (b : Blob) (p : BitVec 32) (n : Nat) : Prop := (p - b.data).toNat + n ≤ b.len.toNat

/-- The search reads this many bytes from a place on: the head, the fields of a hash descriptor, its
    name up to the NUL and up to the first difference, and for the copy what the length says. -/
inductive SearchReads (w : World) (b : Blob) (name : CString) (p : BitVec 32) : Nat → Prop
  | head : SearchReads w b name p 16
  | fields : b.field p 8 = tagHash → SearchReads w b name p 132
  | strlen {i : Nat} : b.field p 8 = tagHash → validateAndByteswap b p →
      (∀ j < i, b.ram (p + BitVec.ofNat 32 (132 + j)) ≠ 0) → SearchReads w b name p (132 + i + 1)
  | memcmp {i : Nat} : b.field p 8 = tagHash → validateAndByteswap b p →
      i < (hashDescriptor b p).partitionNameLen →
      (∀ j < i, b.ram (p + BitVec.ofNat 32 (132 + j)) = nameByte w name j) →
      SearchReads w b name p (132 + i + 1)
  | copy : Stops w b name p → SearchReads w b name p (b.nbTotal p % 2 ^ 32)

/-- A descriptor of this length is in the area. -/
def Blob.Fits (b : Blob) (p : BitVec 32) (n : Nat) : Prop :=
  16 ≤ n ∧ p.toNat + n ≤ b.descEnd.toNat

/-- The search and the walk return with enough turns, read only the blob, and use only lengths that
    keep the descriptor in the area. -/
structure Safe (w : World) (b : Blob) (name : CString) : Prop where
  walk_returns : ∀ callBack, GoesOn callBack → ∃ turns, ∀ s, ∃ r s',
    sunxiWalkAvbDescriptor { w with turns := turns } b callBack s = .ret r s'
  search_returns : ∃ turns, ∀ s, ∃ r s',
    sunxiAvbGetDescriptorByName { w with turns := turns } b name s = .ret r s'
  header_read : b.Has b.data 256
  walk_reads : ∀ p, Walked b p → b.Has p 16
  search_reads : ∀ p n, Visits b (Stops w b name) p → SearchReads w b name p n → b.Has p n
  used : ∀ p, Walked b p → b.Fits p (b.nbTotal p)
  passed : ∀ p, Walked b p → b.Fits p (b.nbTotal p % 2 ^ 32)

/-- Every descriptor of the walk is in the area as a whole. A hash descriptor the search comes to
    has its fields in the blob and, if they are accepted, the NUL of its name. -/
structure Chained (w : World) (b : Blob) (name : CString) : Prop where
  whole : ∀ p, Walked b p → Whole b p
  fields : ∀ p, Visits b (Stops w b name) p → b.field p 8 = tagHash → b.Has p 132
  name : ∀ p, Visits b (Stops w b name) p → b.field p 8 = tagHash → validateAndByteswap b p →
    ∃ i, b.ram (p + BitVec.ofNat 32 (132 + i)) = 0 ∧ b.Has p (132 + i + 1)

variable {w : World} {name : CString} {n : Nat}

theorem Chained.start_le (h : ∀ p, Walked b p → Whole b p) (hp : Walked b p) :
    b.descStart.toNat ≤ p.toNat := by
  induction hp with
  | start _ _ => exact le_rfl
  | @next p hp _ _ ih =>
    rw [(h p hp).toNat_next]
    omega

/-- What is in the descriptor is in the blob. -/
theorem Chained.has (b : PlacedBlob) (h : ∀ p, Walked b.toBlob p → Whole b.toBlob p)
    (hp : Walked b.toBlob p) (hn : n ≤ 16 + b.field (p + 8) 8) : b.Has p n := by
  have hstart := Chained.start_le h hp
  have hwhole := h p hp
  have hin := hp.inside
  have hends := b.ends
  have hend : (b.data + b.len).toNat = b.data.toNat + b.len.toNat := by
    rw [BitVec.toNat_add, Nat.mod_eq_of_lt hends]
  unfold Whole at hwhole
  simp only [Blob.DescOutside, not_or, not_lt] at hin
  have hle : b.data ≤ p := BitVec.le_def.mpr (by omega)
  rw [Blob.Has, BitVec.toNat_sub_of_le hle]
  omega

theorem Chained.reads (b : PlacedBlob) (h : Chained w b.toBlob name)
    (hp : Visits b.toBlob (Stops w b.toBlob name) p) (hn : SearchReads w b.toBlob name p n) :
    b.Has p n := by
  have hhas : ∀ {n}, n ≤ 16 + b.field (p + 8) 8 → b.Has p n := Chained.has b h.whole hp.walked
  cases hn with
  | head => exact hhas (Nat.le_add_right _ _)
  | fields hhash => exact h.fields p hp hhash
  | @strlen i hhash hvalid hne =>
    rcases h.name p hp hhash hvalid with ⟨k, hzero, hk⟩
    -- the NUL has not been passed
    have hik : i ≤ k := by
      by_contra hlt
      exact hne k (by omega) hzero
    unfold Blob.Has at hk ⊢
    omega
  | @memcmp i _ hvalid hi _ =>
    simp only [validateAndByteswap, descriptorSize, Bool.and_eq_true] at hvalid
    have hlen := of_decide_eq_true hvalid.2
    simp only [hashDescriptor] at hi hlen
    exact hhas (by omega)
  | copy _ =>
    rw [(h.whole p hp.walked).nbTotal_eq]
    exact hhas (Nat.mod_le _ _)

theorem Safe.name_ends (h : Safe w b name) (hp : Visits b (Stops w b name) p)
    (hhash : b.field p 8 = tagHash) (hvalid : validateAndByteswap b p) :
    ∃ i, b.ram (p + BitVec.ofNat 32 (132 + i)) = 0 ∧ b.Has p (132 + i + 1) := by
  by_cases hnul : ∃ i, b.ram (p + BitVec.ofNat 32 (132 + i)) = 0
  · exact ⟨Nat.find hnul, Nat.find_spec hnul,
      h.search_reads p _ hp (.strlen hhash hvalid fun j hj => Nat.find_min hnul hj)⟩
  -- without a NUL more is read than the blob has
  have hhas := h.search_reads p _ hp
    (.strlen (i := b.len.toNat) hhash hvalid fun j _ hj => hnul ⟨j, hj⟩)
  unfold Blob.Has at hhas
  omega

/-- The search and the walk are safe exactly when the descriptors on their way are in the area and
    the names of the hash descriptors end in the blob. -/
theorem safe_iff_chained (w : World) (b : PlacedBlob) (name : CString) :
    Safe w b.toBlob name ↔ Chained w b.toBlob name := by
  constructor
  · intro h
    refine ⟨fun p hp => ?_, fun p hp hhash => h.search_reads p _ hp (.fields hhash),
      fun p hp => h.name_ends hp⟩
    -- a total length of 16 or more has not wrapped
    rcases h.used p hp with ⟨hmin, hmax⟩
    have hlt := field_lt b.toBlob (p + 8) 8
    unfold Blob.nbTotal at hmin hmax
    unfold Whole
    omega
  · intro h
    have hfits : ∀ p, Walked b.toBlob p → b.Fits p (b.nbTotal p) := by
      intro p hp
      rw [(h.whole p hp).nbTotal_eq]
      exact ⟨Nat.le_add_right _ _, h.whole p hp⟩
    refine ⟨fun callBack hgo => ?_, ?_, ?_,
      fun p hp => Chained.has b h.whole hp (Nat.le_add_right _ _),
      fun p n => h.reads b, hfits, fun p hp => ?_⟩
    · by_cases hout : b.DescOutside
      · exact ⟨0, fun s => ⟨-3, s, by rw [sunxiWalkAvbDescriptor, if_pos hout]; rfl⟩⟩
      · refine ⟨b.descEnd.toNat - b.descStart.toNat + 1, fun s => ?_⟩
        rw [sunxiWalkAvbDescriptor, if_neg hout]
        exact (loops_walkLoop hgo).returns h.whole hout s
    · refine ⟨b.descEnd.toNat - b.descStart.toNat + 1, fun s => ?_⟩
      rw [sunxiAvbGetDescriptorByName_eq]
      by_cases hout : b.DescOutside
      · exact ⟨.failed (-3), s, by rw [if_pos hout]; rfl⟩
      · rw [if_neg hout]
        exact (loops_searchLoop _ name).returns (fun p hp => h.whole p hp.walked) hout s
    · rw [Blob.Has, BitVec.sub_self]
      exact (Nat.zero_add _).trans_le b.large
    · have hp' := hfits p hp
      have hlt := b.descEnd.isLt
      unfold Blob.Fits at hp' ⊢
      rwa [Nat.mod_eq_of_lt (by omega)]

/-- A blob of 272 bytes whose only descriptor has a total length of `2 ^ 64`, which is zero. -/
def stuckBlob : PlacedBlob where
  ram a :=
    if a = 0x4100006F then 16
    else if a = 0x4100010F then 0xF0
    else if 0x41000108 ≤ a.toNat ∧ a.toNat < 0x4100010F then 0xFF
    else 0
  data := 0x41000000
  len := 272
  large := by decide
  ends := by decide

/-- Neither of the two functions returns for this blob, however many turns are followed. -/
theorem stuckBlob_endless :
    (∀ w name, ¬ Safe w stuckBlob.toBlob name) ∧
      (∀ w callBack s, GoesOn callBack →
        ∃ s', sunxiWalkAvbDescriptor w stuckBlob.toBlob callBack s = .gone .endless s') ∧
      ∀ w name s, ∃ s', sunxiAvbGetDescriptorByName w stuckBlob.toBlob name s =
        .gone .endless s' := by
  have hin : ¬ stuckBlob.DescOutside := by decide +kernel
  have hlt : stuckBlob.descStart.toNat < stuckBlob.descEnd.toNat := by decide +kernel
  have hnext : stuckBlob.next stuckBlob.descStart = stuckBlob.descStart := by decide +kernel
  have htag : stuckBlob.field stuckBlob.descStart 8 ≠ tagHash := by decide +kernel
  have hsearch : ∀ w name s, ∃ s',
      sunxiAvbGetDescriptorByName w stuckBlob.toBlob name s = .gone .endless s' := by
    intro w name s
    rw [sunxiAvbGetDescriptorByName_eq, if_neg hin]
    exact (loops_searchLoop w name).endless hlt (fun hstop => htag hstop.1) hnext w.turns s
  refine ⟨fun w name h => ?_, fun w callBack s hgo => ?_, hsearch⟩
  · rcases h.search_returns with ⟨turns, hret⟩
    rcases hret ⟨stuckBlob.ram, 0⟩ with ⟨r, s', hrun⟩
    rcases hsearch { w with turns := turns } name ⟨stuckBlob.ram, 0⟩ with ⟨s₁, hgone⟩
    rw [hgone] at hrun
    cases hrun
  · rw [sunxiWalkAvbDescriptor, if_neg hin]
    exact (loops_walkLoop hgo).endless hlt id hnext w.turns s

end Brandy.Vbmeta
