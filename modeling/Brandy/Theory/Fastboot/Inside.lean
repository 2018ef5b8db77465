import Brandy.Theory.Fastboot.Frame
import Brandy.Theory.Fastboot.Operations
import Brandy.Theory.Sparse.Requests

/-!
# Which Sectors a Flash Command Writes

`__flash_to_part` compares the size of raw data with the size of the partition before it writes. A
sparse image is handed to the decoder with the first sector of the partition, and with nothing that
says where the partition ends. So the sectors that are written are those that the chunk headers ask
for.

## Main definitions

* `Writes`: The ranges that a program writes.
* `partRequests`: The ranges that the downloaded data is written to.

## Theorems

* `flashToPart_did`: The command writes these ranges.
* `wrote_inside_iff`: When the sectors it writes lie in the partition.
-/

namespace Brandy.Fastboot

open Process Text Memory Word List
open Sparse (Request Touches Did imageRequests)

section

variable (w : World)

/-- The operation takes place and succeeds. -/
def okOf (i : Nat) : Bool := (w.outcome i).power && (w.outcome i).ok

/-- The program writes the ranges: all of them when it returns `true`, and otherwise those in front
    of a write that failed. -/
structure Writes (p : Handler Bool) (reqs : List Request) : Prop where
  all : ∀ s s', p s = .ret true s' → Touches s.flash s'.flash reqs
  stop : ∀ s, (∀ s', p s ≠ .ret true s') → ∃ i, ¬ okOf w i = true ∧
    ∃ done, done <+: reqs ∧ Touches s.flash (p s).state.flash done

theorem Writes.did {p : Handler Bool} {reqs : List Request} (h : Writes w p reqs) (s : St) :
    Did (okOf w) s.flash (p s).state.flash reqs := by
  by_cases htrue : ∃ s', p s = .ret true s'
  · rcases htrue with ⟨s', hs'⟩
    rw [hs']
    exact Did.of_touches (h.all s s' hs')
  · rcases h.stop s fun s' hs' => htrue ⟨s', hs'⟩ with ⟨i, hi, done, hdone, htouch⟩
    exact Did.stop hi hdone htouch

theorem writes_pure : Writes w (pure true) [] where
  all s s' h := by
    cases h
    exact Touches.nil _
  stop s h := absurd rfl (h s)

theorem Writes.andThen {p q : Handler Bool} {reqs reqs' : List Request}
    (hp : Writes w p reqs) (hq : Writes w q reqs') :
    Writes w (p >>= fun ok => if ok then q else pure false) (reqs ++ reqs') := by
  constructor
  · intro s s' hs'
    rw [bind_run] at hs'
    cases hps : p s with
    | gone e s₁ =>
      rw [hps] at hs'
      cases hs'
    | ret ok s₁ =>
      rw [hps, ret_bind] at hs'
      cases ok with
      | false => cases hs'
      | true => exact (hp.all s s₁ hps).append (hq.all s₁ s' hs')
  · intro s hs
    by_cases htrue : ∃ s₁, p s = .ret true s₁
    · rcases htrue with ⟨s₁, hs₁⟩
      rw [bind_run, hs₁, ret_bind, if_pos rfl] at hs ⊢
      rcases hq.stop s₁ hs with ⟨i, hi, done, hdone, htouch⟩
      exact ⟨i, hi, reqs ++ done, (prefix_append_right_inj reqs).mpr hdone,
        (hp.all s s₁ hs₁).append htouch⟩
    rcases hp.stop s fun s₁ hs₁ => htrue ⟨s₁, hs₁⟩ with ⟨i, hi, done, hdone, htouch⟩
    refine ⟨i, hi, done, hdone.trans (prefix_append _ _), ?_⟩
    have hstate : ((p >>= fun ok => if ok = true then q else pure false) s).state =
        (p s).state := by
      rw [bind_run]
      cases hps : p s with
      | gone e s₁ => rfl
      | ret ok s₁ =>
        cases ok with
        | false => rfl
        | true => exact absurd ⟨s₁, hps⟩ htrue
    rw [hstate]
    exact htouch

theorem sunxiFlashWrite_writes (start n : Nat) (src : Nat → UInt8) :
    Writes w (sunxiFlashWrite w start n src) [⟨start, n⟩] := by
  have hrun : ∀ s, sunxiFlashWrite w start n src s =
        .ret true { s with ops := s.ops + 1, flash := s.flash.put start n src } ∨
      (¬ okOf w s.ops = true ∧ (∀ s', sunxiFlashWrite w start n src s ≠ .ret true s') ∧
        (sunxiFlashWrite w start n src s).state.flash = s.flash) := by
    intro s
    unfold sunxiFlashWrite
    rw [bind_run]
    by_cases hpower : (w.outcome s.ops).power = true
    · rw [operate_power w hpower, ret_bind, bind_run, update_run, ret_bind, pure_run]
      by_cases hok : (w.outcome s.ops).ok = true
      · rw [hok, if_pos rfl]
        exact .inl rfl
      · rw [if_neg hok, okOf, hpower]
        refine .inr ⟨hok, fun s' h => ?_, rfl⟩
        injection h with h
        exact hok h
    · rw [operate_lost w hpower, okOf, Bool.eq_false_of_not_eq_true hpower]
      refine .inr ⟨Bool.false_ne_true, fun s' h => ?_, rfl⟩
      cases h
  constructor
  · intro s s' hs'
    rcases hrun s with h | ⟨-, h, -⟩
    · rw [h] at hs'
      cases hs'
      exact Sparse.touches_put _ _ _ _
    · exact absurd hs' (h s')
  · intro s hs
    rcases hrun s with h | ⟨hfail, -, h⟩
    · exact absurd h (hs _)
    · rw [h]
      exact ⟨s.ops, hfail, [], nil_prefix, Touches.nil _⟩

/-- A program that starts with a look at the state writes what the rest does. -/
theorem writes_look {α : Type} {g : St → α} {f : α → Handler Bool} {reqs : List Request}
    (h : ∀ a, Writes w (f a) reqs) : Writes w (look g >>= f) reqs where
  all s s' hs' := (h (g s)).all s s' hs'
  stop s hs := (h (g s)).stop s hs

/-- The number of sectors in the transfer buffer. -/
def bufferSectors : Nat := transferBufferSize / 512

/-- The ranges of whole buffers. -/
def blockRequests : Nat → Nat → List Request
  | 0, _ => []
  | count + 1, start => ⟨start, bufferSectors⟩ :: blockRequests count (u32 (start + bufferSectors))

/-- The ranges that raw data is written to. -/
def rawRequests (start dataSectors : Nat) : List Request :=
  blockRequests (dataSectors / bufferSectors) start ++
    if dataSectors % bufferSectors ≠ 0 then
      [⟨u32 (start + (dataSectors / bufferSectors * bufferSectors : Nat)),
        dataSectors % bufferSectors⟩]
    else []

theorem flashBlocks_writes (count start : Nat) (addr : Int) :
    Writes w (flashBlocks w count start addr) (blockRequests count start) := by
  induction count generalizing start addr with
  | zero => exact writes_pure w
  | succ count ih =>
    exact writes_look w fun _ => (sunxiFlashWrite_writes w _ _ _).andThen w (ih _ _)

theorem flashSectors_writes {start dataSectors : Nat} :
    Writes w (flashSectors w start dataSectors) (rawRequests start dataSectors) := by
  have hrest : Writes w (if dataSectors % bufferSectors ≠ 0 then do
        let mem ← look fun s => s.mem
        sunxiFlashWrite w (u32 (start + (dataSectors / bufferSectors * bufferSectors : Nat)))
          (dataSectors % bufferSectors)
          fun i => mem (transferBuffer +
            (dataSectors / bufferSectors * transferBufferSize : Nat) + i)
      else pure true)
      (if dataSectors % bufferSectors ≠ 0 then
        [⟨u32 (start + (dataSectors / bufferSectors * bufferSectors : Nat)),
          dataSectors % bufferSectors⟩]
      else []) := by
    split_ifs
    · exact writes_look w fun _ => sunxiFlashWrite_writes w _ _ _
    · exact writes_pure w
  have hall :=
    (flashBlocks_writes w (dataSectors / bufferSectors) start transferBuffer).andThen w hrest
  have hflip : ∀ (b : Bool) (p q : Handler Bool), (if (!b) = true then p else q) =
      if b = true then q else p := by
    rintro (_ | _) p q
    all_goals rfl
  unfold flashSectors
  simp only [hflip]
  exact hall

theorem u32_add_left (a b : Int) : u32 (u32 a + b) = u32 (a + b) := by
  simp only [u32]
  omega

theorem mem_blockRequests {start : Nat} (hstart : start < 2 ^ 32) (count : Nat) (r : Request) :
    r ∈ blockRequests count start ↔
      ∃ i < count, r = ⟨u32 (start + (i * bufferSectors : Nat)), bufferSectors⟩ := by
  have hzero : ∀ a : Nat, a < 2 ^ 32 → u32 (a + (0 * bufferSectors : Nat)) = a := by
    intro a ha
    exact u32_of_range _ (by rw [Nat.zero_mul, Nat.cast_zero, add_zero]) ha
  induction count generalizing start with
  | zero => simp only [blockRequests, not_mem_nil, Nat.not_lt_zero, false_and, exists_false]
  | succ count ih =>
    have hnext : ∀ i : Nat, u32 (u32 (start + bufferSectors) + (i * bufferSectors : Nat)) =
        u32 (start + ((i + 1) * bufferSectors : Nat)) := by
      intro i
      rw [u32_add_left, Nat.add_one_mul, Nat.cast_add]
      congr 1
      ring
    have htail := ih (u32_lt (start + bufferSectors))
    rw [blockRequests, mem_cons]
    refine (or_congr_right htail).trans ⟨?_, ?_⟩
    · rintro (rfl | ⟨i, hi, rfl⟩)
      · exact ⟨0, Nat.succ_pos count, by rw [hzero start hstart]⟩
      · exact ⟨i + 1, Nat.succ_lt_succ hi, by rw [hnext]⟩
    · rintro ⟨i, hi, rfl⟩
      cases i with
      | zero => exact .inl (by rw [hzero start hstart])
      | succ i => exact .inr ⟨i, Nat.lt_of_succ_lt_succ hi, by rw [hnext]⟩

theorem bufferSectors_pos : 0 < bufferSectors := by decide

theorem rawRequests_piece {start n : Nat} (hstart : start < 2 ^ 32) {r : Request}
    (hr : r ∈ rawRequests start n) :
    ∃ i, i * bufferSectors + r.sectors ≤ n ∧ i * bufferSectors < n ∧
      r.start = u32 (start + (i * bufferSectors : Nat)) := by
  have hdiv := Nat.div_add_mod' n bufferSectors
  rcases mem_append.mp hr with hr | hr
  · rcases (mem_blockRequests hstart _ r).mp hr with ⟨i, hi, rfl⟩
    have hle := Nat.mul_le_mul_right bufferSectors hi
    rw [Nat.succ_mul] at hle
    have hpos := bufferSectors_pos
    exact ⟨i, by dsimp only; omega, by omega, rfl⟩
  · split at hr
    · rw [mem_singleton] at hr
      subst hr
      exact ⟨n / bufferSectors, by dsimp only; omega, by omega, rfl⟩
    · cases hr

theorem piece_rawRequests {start n i : Nat} (hstart : start < 2 ^ 32) (hi : i * bufferSectors < n) :
    ∃ r ∈ rawRequests start n,
      0 < r.sectors ∧ r.start = u32 (start + (i * bufferSectors : Nat)) := by
  have hdiv := Nat.div_add_mod' n bufferSectors
  by_cases hlt : i < n / bufferSectors
  · exact ⟨_, mem_append_left _ ((mem_blockRequests hstart _ _).mpr ⟨i, hlt, rfl⟩),
      bufferSectors_pos, rfl⟩
  have hle : i ≤ n / bufferSectors := (Nat.le_div_iff_mul_le bufferSectors_pos).mpr hi.le
  have heq : i = n / bufferSectors := by omega
  subst heq
  have hmod : n % bufferSectors ≠ 0 := by omega
  refine ⟨⟨u32 (start + (n / bufferSectors * bufferSectors : Nat)), n % bufferSectors⟩,
    mem_append_right _ ?_, Nat.pos_of_ne_zero hmod, rfl⟩
  rw [if_pos hmod]
  exact mem_singleton.mpr rfl

/-- The sectors of the ranges are in the partition. -/
def Inside (info : DiskPartition) (reqs : List Request) : Prop :=
  ∀ r ∈ reqs, ∀ x, r.Covers x → info.start ≤ x ∧ x < info.start + info.size

/-- The cursor does not wrap while raw data is written. -/
def RawFits (info : DiskPartition) (dataSectors : Nat) : Prop :=
  dataSectors ≤ info.size → ∀ i, i * bufferSectors < dataSectors →
    info.start + i * bufferSectors < 2 ^ 32

variable {info : DiskPartition}

theorem rawRequests_inside_iff {n : Nat} (hstart : info.start < 2 ^ 32) (hn : n < 2 ^ 32)
    (hfit : n ≤ info.size) :
    Inside info (rawRequests info.start n) ↔
      ∀ i, i * bufferSectors < n → info.start + i * bufferSectors < 2 ^ 32 := by
  constructor
  · intro hinside i hi
    rcases piece_rawRequests hstart hi with ⟨r, hr, hpos, hrstart⟩
    have hlow := (hinside r hr r.start ⟨le_rfl, by omega⟩).1
    rw [hrstart] at hlow
    by_contra hwrap
    -- a wrapped cursor is below the partition
    have hu : u32 (info.start + (i * bufferSectors : Nat)) =
        info.start + i * bufferSectors - 2 ^ 32 := by
      simp only [u32]
      omega
    omega
  · intro hnowrap r hr x hx
    rcases rawRequests_piece hstart hr with ⟨i, hend, hlt, hrstart⟩
    have hu : u32 (info.start + (i * bufferSectors : Nat)) = info.start + i * bufferSectors :=
      u32_of_range _ (Nat.cast_add _ _).symm (hnowrap i hlt)
    rw [hu] at hrstart
    rcases hx with ⟨hlow, hhigh⟩
    omega

/-- `unsparse_probe` accepts the data. -/
def Accepted (s : St) (start : Nat) : Prop :=
  (Sparse.unsparseProbe s.mem transferBuffer start s.statics).1 = 1

theorem probe_statics {m : Mem} {buf : Int} {start : Nat} {statics : Sparse.Statics}
    (h : (Sparse.unsparseProbe m buf start statics).1 = 1) :
    (Sparse.unsparseProbe m buf start statics).2.sparseFormatType = .totalHead ∧
      (Sparse.unsparseProbe m buf start statics).2.lastRestSize = 0 ∧
      (Sparse.unsparseProbe m buf start statics).2.flashStart = start := by
  unfold Sparse.unsparseProbe at h ⊢
  split_ifs at h ⊢
  · cases h
  · cases h
  · exact ⟨rfl, rfl, rfl⟩

/-- The flash is as it was. -/
def SameFlash (s s' : St) : Prop := s'.flash = s.flash

instance : Std.Refl SameFlash where
  refl _ := rfl

instance : IsTrans St SameFlash where
  trans _ _ _ h h' := Eq.trans h' h

theorem flash_then {α β : Type} {p : Handler α} {f : α → Handler β} (s : St)
    (hf : ∀ a, Moves SameFlash (f a)) : ((p >>= f) s).state.flash = (p s).state.flash := by
  rw [bind_run]
  cases p s with
  | ret a s' => exact hf a s'
  | gone e s' => rfl

theorem sendStatus_flash (response : List UInt8) : Moves SameFlash (sendStatus response) :=
  .update fun _ => rfl

theorem flashDone_flash : Moves SameFlash flashDone :=
  .bind (sendStatus_flash _) fun _ => .pure _

theorem decoded_flash (r : Int × Sparse.World) (s : St) :
    (decoded w r s).state.flash = r.2.flash := by
  unfold decoded
  split
  · rfl
  · rfl

theorem flashSparse_did (s : St) {start : Nat} (h : Accepted s start) :
    Did (okOf w) s.flash (flashSparse w
      (s.setStatics (Sparse.unsparseProbe s.mem transferBuffer start s.statics).2)).state.flash
      (imageRequests s.mem transferBuffer s.tryToRecv start) := by
  rcases probe_statics h with ⟨hs, hcarry, hcursor⟩
  generalize (Sparse.unsparseProbe s.mem transferBuffer start s.statics).2 = statics at *
  have hdid := Sparse.unsparseDirectWrite_did (okOf w) transferBuffer (s.setStatics statics).world
    s.tryToRecv hs hcarry
  have hflash : (flashSparse w (s.setStatics statics)).state.flash =
      (Sparse.unsparseDirectWrite (okOf w) (s.setStatics statics).world transferBuffer
        s.tryToRecv).2.flash := by
    unfold flashSparse
    rw [bind_run, look_run, ret_bind, flash_then _ fun ret => ?_]
    · exact decoded_flash w _ _
    · exact .ite (fun _ => .pure _) fun _ => flashDone_flash
  rw [hflash]
  have hstart : (s.setStatics statics).world.statics.flashStart = start := hcursor
  rw [hstart] at hdid
  exact hdid

instance (s : St) (start : Nat) : Decidable (Accepted s start) :=
  inferInstanceAs (Decidable (_ = _))

/-- The number of sectors of raw data, as `__flash_to_part` computes it. -/
def dataSectors (s : St) : Nat := u32 (s.tryToRecv + 511) / 512

/-- The ranges that the downloaded data is written to. -/
def partRequests (s : St) (info : DiskPartition) : List Request :=
  if Accepted s info.start then imageRequests s.mem transferBuffer s.tryToRecv info.start
  else if info.size < dataSectors s then []
  else rawRequests info.start (dataSectors s)

theorem flashRaw_did (name : List UInt8) (info : DiskPartition) (s : St) :
    Did (okOf w) s.flash (flashRaw w name info s).state.flash
      (if info.size < dataSectors s then [] else rawRequests info.start (dataSectors s)) := by
  unfold flashRaw
  rw [bind_run, look_run, ret_bind]
  change Did _ _ ((if info.size < dataSectors s then _ else _ : Handler Int) s).state.flash _
  split_ifs
  · exact Did.nil _
  · rw [flash_then _ fun ok => ?_]
    · exact (flashSectors_writes w).did w s
    · refine .ite (fun _ => flashDone_flash) fun _ => ?_
      exact .bind (sendStatus_flash _) fun _ => .pure _

theorem flashToPart_did {name : List UInt8} {s : St}
    (hinfo : partitionGetInfo w s.parts name = some info) :
    Did (okOf w) s.flash (flashToPart w name s).state.flash (partRequests s info) := by
  unfold flashToPart partRequests
  rw [bind_run, look_run, ret_bind, hinfo]
  dsimp only
  rw [bind_run]
  unfold probe
  rw [ret_bind]
  by_cases haccept : Accepted s info.start
  · rw [if_pos haccept]
    unfold Accepted at haccept
    rw [if_pos haccept]
    exact flashSparse_did w s haccept
  · rw [if_neg haccept]
    unfold Accepted at haccept
    rw [if_neg haccept]
    exact flashRaw_did w name info
      (s.setStatics (Sparse.unsparseProbe s.mem transferBuffer info.start s.statics).2)

/-- The state with no sector marked as written. -/
def St.untouched (s : St) : St := { s with flash := { s.flash with touched := fun _ => false } }

/-- The sector is written while `__flash_to_part` runs. -/
def Wrote (name : List UInt8) (s : St) (x : Nat) : Prop :=
  (flashToPart w name s.untouched).state.flash.touched x = true

/-- The ranges are inside exactly when the image asks for sectors inside, or, for raw data, the
    cursor does not wrap. -/
theorem partRequests_inside_iff {s : St} (hstart : info.start < 2 ^ 32) :
    Inside info (partRequests s info) ↔
      (Accepted s info.start →
        Inside info (imageRequests s.mem transferBuffer s.tryToRecv info.start)) ∧
      (¬ Accepted s info.start → RawFits info (dataSectors s)) := by
  have hdata : dataSectors s < 2 ^ 32 :=
    Nat.lt_of_le_of_lt (Nat.div_le_self _ _) (u32_lt _)
  unfold partRequests RawFits
  split_ifs with haccept hsize
  · exact ⟨fun h => ⟨fun _ => h, fun hn => absurd haccept hn⟩, fun h => h.1 haccept⟩
  · refine iff_of_true (fun r hr => absurd hr not_mem_nil)
      ⟨fun h => absurd h haccept, fun _ hle => ?_⟩
    exact absurd hle (Nat.not_le.mpr hsize)
  · have hraw := rawRequests_inside_iff hstart hdata (Nat.le_of_not_lt hsize)
    exact ⟨fun h => ⟨fun hy => absurd hy haccept, fun _ _ => hraw.mp h⟩,
      fun h => hraw.mpr (h.2 haccept (Nat.le_of_not_lt hsize))⟩

/-- The sectors that a flash command writes lie in its partition, whatever the outcome of the
    operations, exactly when those that a sparse image asks for do, and the cursor of raw data does
    not wrap. -/
theorem wrote_inside_iff (s : St) (name : List UInt8) (info : DiskPartition)
    (hinfo : partitionGetInfo w s.parts name = some info) :
    (∀ o x, Wrote { w with outcome := o } name s x →
        info.start ≤ x ∧ x < info.start + info.size) ↔
      (Accepted s info.start →
        Inside info (imageRequests s.mem transferBuffer s.tryToRecv info.start)) ∧
      (¬ Accepted s info.start → RawFits info (dataSectors s)) := by
  have hdid : ∀ o, Did (okOf { w with outcome := o }) s.untouched.flash
      (flashToPart { w with outcome := o } name s.untouched).state.flash (partRequests s info) :=
    fun o => flashToPart_did { w with outcome := o } hinfo
  have hstart : info.start < 2 ^ 32 := by
    rcases Option.map_eq_some_iff.mp hinfo with ⟨p, -, rfl⟩
    exact u32_lt _
  refine Iff.trans ?_ (partRequests_inside_iff hstart)
  constructor
  · intro hall r hr x hx
    -- with every write successful, all of the list is written
    rcases hdid (fun _ => fine) with ⟨done, -, htouch, heq⟩
    rw [heq fun _ => rfl] at htouch
    exact hall (fun _ => fine) x ((htouch x).mpr (.inr ⟨r, hr, hx⟩))
  · intro hinside o x hx
    rcases hdid o with ⟨done, hdone, htouch, -⟩
    rcases (htouch x).mp hx with h | ⟨r, hr, hcover⟩
    · cases h
    · exact hinside r (hdone.subset hr) x hcover

end

/-- A board that is to flash what it has downloaded. -/
def flashBoard (mem : Mem) (tryToRecv : Nat) : St :=
  { lockedBoard lockParts with mem := mem, tryToRecv := tryToRecv }

/-- A sparse image of one fill chunk with one block of 4096 bytes. -/
def fillImage : List UInt8 :=
  [0x3a, 0xff, 0x26, 0xed, 1, 0, 0, 0, 28, 0, 12, 0, 0, 16, 0, 0, 1, 0, 0, 0, 1, 0, 0,
    0, 0, 0, 0, 0, 0xc2, 0xca, 0, 0, 1, 0, 0, 0, 16, 0, 0, 0, 1, 2, 3, 4]

/-- A partition of eight sectors has room for it. -/
theorem wrote_inside_iff_sparse :
    Accepted (flashBoard (store (fun _ => 0) transferBuffer fillImage) 44) 1 ∧
      ∀ o x, Wrote { plainWorld fun _ => fine with outcome := o } (ascii "UDISK")
        { flashBoard (store (fun _ => 0) transferBuffer fillImage) 44 with
          parts := [⟨ascii "UDISK", 1, 8, []⟩] } x → 1 ≤ x ∧ x < 1 + 8 := by
  have hsparse : Accepted (flashBoard (store (fun _ => 0) transferBuffer fillImage) 44) 1 := by
    unfold Accepted
    decide +kernel
  have hreqs : imageRequests (store (fun _ => 0) transferBuffer fillImage) transferBuffer 44 1 =
      [⟨1, 8⟩] := by decide +kernel
  refine ⟨hsparse, (wrote_inside_iff (plainWorld fun _ => fine) _ (ascii "UDISK")
    ⟨ascii "UDISK", 1, 8, []⟩ (by decide +kernel)).mpr ⟨fun _ r hr x hx => ?_, fun h => ?_⟩⟩
  · have hr' : r ∈ [(⟨1, 8⟩ : Request)] := hreqs ▸ hr
    rw [List.mem_singleton.mp hr'] at hx
    exact hx
  · exact absurd hsparse h

/-- The partition `UDISK` is sector 1. Flashing it with a small sparse image writes sector 2, the
    partition `metadata`. -/
theorem wrote_outside :
    partitionGetInfo (plainWorld fun _ => fine) lockParts (ascii "UDISK") =
        some (oneSector "UDISK" 1) ∧
      partitionGetInfo (plainWorld fun _ => fine) lockParts (ascii "metadata") =
        some (oneSector "metadata" 2) ∧
      Wrote (plainWorld fun _ => fine) (ascii "UDISK")
        (flashBoard (store (fun _ => 0) transferBuffer fillImage) 44) 2 := by
  refine ⟨by decide +kernel, by decide +kernel, ?_⟩
  unfold Wrote
  decide +kernel

end Brandy.Fastboot
