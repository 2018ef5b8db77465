import Brandy.Core.EfexQueue
import Brandy.Library.Ring
import Brandy.Library.Simulation

/-!
# The Write Queue Loses Nothing

What the queue stands for is the flash after all its pages have been written. Writing a page does
not change that, and saving a buffer changes it as a direct write would, because a write can be cut
at a sector.

## Main definitions

* `pages`, `Ring`: The pages that wait, and the invariant of the pointers.
* `flushed`, `Yields`: What a queue stands for, and a call that changes it.

## Theorems

* `bufEnqueue_spec`, `bufDequeue_spec`: The pages after a call.
* `opStep_spec`: What each call makes of what the queue stands for.
* `queue_lossless`: The flash after a run is as if every buffer was written at once.
-/

namespace Brandy.EfexQueue

open Memory Sectors Simulation List Function

/-- The address and the bytes of an element. -/
structure Page where
  addr : Nat
  bytes : List UInt8

/-- The page of an element. -/
def pageOf (e : Element) : Page := ⟨e.addr, read e.buff 0 (e.sectorNum * 512)⟩

/-- The pages that wait. -/
def pages (q : Queue) : List Page :=
  Ring.window q.maxLen q.head q.currentLen fun i => pageOf (q.node i)

/-- The invariant of the pointers, with the sizes of a queue. -/
structure Ring (q : Queue) : Prop where
  pos : 0 < q.maxLen
  page_pos : 0 < q.pageSize / 512
  small : (q.maxLen + 1) * (q.pageSize / 512) < 2 ^ 32
  len_le : q.currentLen ≤ q.maxLen
  head_lt : q.head < q.maxLen
  tail_eq : q.tail = (q.head + q.currentLen) % q.maxLen
  next_eq : ∀ i < q.maxLen, q.next i = (i + 1) % q.maxLen

/-- Two queues of the same size. -/
structure SameSize (q q' : Queue) : Prop where
  maxLen : q'.maxLen = q.maxLen
  pageSize : q'.pageSize = q.pageSize

theorem SameSize.refl (q : Queue) : SameSize q q := ⟨rfl, rfl⟩

theorem SameSize.trans {q q' q'' : Queue} (h : SameSize q q') (h' : SameSize q' q'') :
    SameSize q q'' :=
  ⟨h'.maxLen.trans h.maxLen, h'.pageSize.trans h.pageSize⟩

theorem pageOf_copy (dst src : Element) : pageOf (dst.copy src) = pageOf src := by
  unfold pageOf Element.copy
  congr 1
  refine read_congr _ fun x hlo hhi => ?_
  exact overlay_of_mem ⟨hlo, hhi⟩

@[simp] theorem length_pages (q : Queue) : (pages q).length = q.currentLen := by
  unfold pages
  rw [Ring.length_window]

variable {q : Queue}

theorem pages_eq_nil (h : q.currentLen = 0) : pages q = [] := by
  unfold pages
  rw [h, Ring.window_zero]

/-- The links that the loop makes when some nodes are there: each one points to the next. -/
theorem nodeLoop_some (n i : Nat) (next : Nat → Nat) (h : ∀ j < i, next j = j + 1) :
    (nodeLoop n (i + 1) (some (0, i)) next).1 = some (0, i + n) ∧
      ∀ j < i + n, (nodeLoop n (i + 1) (some (0, i)) next).2 j = j + 1 := by
  induction n generalizing i next with
  | zero => exact ⟨rfl, h⟩
  | succ n ih =>
    have hnext : ∀ j < i + 1, update next i (i + 1) j = j + 1 := by
      intro j hj
      by_cases hji : j = i
      · rw [hji, update_self]
      · rw [update_of_ne hji]
        exact h j (by omega)
    rw [show i + (n + 1) = i + 1 + n by omega]
    exact ih (i + 1) _ hnext

theorem queueSizes_ok (b : Board) : 0 < (queueSizes b).2 ∧ 0 < (queueSizes b).1 / 512 ∧
    ((queueSizes b).2 + 1) * ((queueSizes b).1 / 512) < 2 ^ 32 := by
  have hpos := b.page_pos
  have hlt := b.page_lt
  have hdvd := Nat.le_of_dvd hpos b.page_dvd
  unfold queueSizes
  split_ifs
  · decide
  · omega
  · decide

theorem bufQueueInit_ring (b : Board) {memory : Nat → Mem} :
    Ring (bufQueueInit b memory) ∧ (bufQueueInit b memory).currentLen = 0 := by
  rcases queueSizes_ok b with ⟨hpos, hpage, hsmall⟩
  unfold bufQueueInit
  generalize queueSizes b = sizes at hpos hpage hsmall
  rcases sizes with ⟨pageSize, maxLen⟩
  obtain ⟨n, rfl⟩ : ∃ n, maxLen = n + 1 := Nat.exists_eq_succ_of_ne_zero (ne_of_gt hpos)
  have hloop : nodeLoop (n + 1) 0 none (fun _ => 0) = nodeLoop n (0 + 1) (some (0, 0)) fun _ => 0 :=
    rfl
  rcases nodeLoop_some n 0 (fun _ => 0) (fun j hj => absurd hj (Nat.not_lt_zero j)) with
    ⟨hends, hnext⟩
  dsimp only
  rw [hloop]
  generalize nodeLoop n (0 + 1) (some (0, 0)) (fun _ => 0) = r at hends hnext
  rcases r with ⟨ends, next⟩
  cases hends
  rw [Nat.zero_add] at hnext ⊢
  refine ⟨⟨hpos, hpage, hsmall, Nat.zero_le _, Nat.lt_succ_self n, ?_, fun i hi => ?_⟩, rfl⟩
  · exact (Nat.mod_eq_of_lt (Nat.lt_succ_self n)).symm
  · dsimp only at hi ⊢
    by_cases hlast : i = n
    · rw [hlast, update_self, Nat.mod_self]
    · rw [update_of_ne hlast, Nat.mod_eq_of_lt (by omega)]
      exact hnext i (by omega)

/-- The node of the next element. For an empty queue the head is also the tail. -/
theorem Ring.slot (h : Ring q) :
    (if q.currentLen = 0 then q.head else q.tail) = (q.head + q.currentLen) % q.maxLen := by
  split_ifs with hempty
  · rw [hempty, add_zero, Nat.mod_eq_of_lt h.head_lt]
  · exact h.tail_eq

theorem bufEnqueue_spec (h : Ring q) (hroom : q.currentLen < q.maxLen) {e : Element} :
    Ring (bufEnqueue q e).2 ∧ SameSize q (bufEnqueue q e).2 ∧
      pages (bufEnqueue q e).2 = pages q ++ [pageOf e] := by
  unfold bufEnqueue
  rw [if_neg (Nat.ne_of_lt hroom), h.slot]
  refine ⟨⟨h.pos, h.page_pos, h.small, hroom, h.head_lt, ?_, h.next_eq⟩, ⟨rfl, rfl⟩, ?_⟩
  · dsimp only
    rw [h.next_eq _ (by rw [h.tail_eq]; exact Nat.mod_lt _ h.pos), h.tail_eq, Nat.mod_add_mod,
      add_assoc]
  · unfold pages
    dsimp only
    rw [← Ring.window_push hroom]
    congr 1
    funext i
    by_cases hi : i = (q.head + q.currentLen) % q.maxLen
    · rw [hi, update_self, update_self, pageOf_copy]
    · rw [update_of_ne hi, update_of_ne hi]

theorem bufDequeue_spec (h : Ring q) (hne : q.currentLen ≠ 0) :
    (bufDequeue q).1 = 0 ∧ Ring (bufDequeue q).2 ∧ SameSize q (bufDequeue q).2 ∧
      (bufDequeue q).2.currentLen = q.currentLen - 1 ∧
      pages q = pageOf (bufDequeue q).2.element :: pages (bufDequeue q).2 := by
  have hle := h.len_le
  unfold bufDequeue
  rw [if_neg hne]
  refine ⟨rfl, ⟨h.pos, h.page_pos, h.small, (Nat.sub_le _ _).trans hle, ?_, ?_, h.next_eq⟩,
    ⟨rfl, rfl⟩, rfl, ?_⟩
  · dsimp only
    rw [h.next_eq _ h.head_lt]
    exact Nat.mod_lt _ h.pos
  · dsimp only
    rw [h.next_eq _ h.head_lt, h.tail_eq, Nat.mod_add_mod]
    congr 1
    omega
  · obtain ⟨n, hn⟩ : ∃ n, q.currentLen = n + 1 := Nat.exists_eq_succ_of_ne_zero hne
    unfold pages
    rw [hn, Nat.add_sub_cancel, Ring.window_pop, pageOf_copy, h.next_eq _ h.head_lt,
      Nat.mod_eq_of_lt h.head_lt]

/-- A flash after some pages have been written. -/
def writePages (flash : Disk) (ps : List Page) : Disk :=
  ps.foldl (fun f p => put f p.addr p.bytes) flash

/-- The flash after all pages that wait have been written. -/
def flushed (d : Dev) : Disk := writePages d.flash (pages d.queue)

theorem writePages_append (flash : Disk) (ps : List Page) (p : Page) :
    writePages flash (ps ++ [p]) = put (writePages flash ps) p.addr p.bytes := by
  unfold writePages
  rw [foldl_append, foldl_cons, foldl_nil]

theorem flushed_of_empty {d : Dev} (h : d.queue.currentLen = 0) : flushed d = d.flash := by
  unfold flushed
  rw [pages_eq_nil h]
  rfl

/-- A call on a queue succeeds, and leaves one that stands for a flash. -/
structure Yields (q : Queue) (flash : Disk) (r : Int × Dev) : Prop where
  ret : r.1 = 0
  ring : Ring r.2.queue
  size : SameSize q r.2.queue
  result : flushed r.2 = flash

theorem Yields.refl {d : Dev} (h : Ring d.queue) : Yields d.queue (flushed d) (0, d) :=
  ⟨rfl, h, .refl _, rfl⟩

theorem Yields.trans {q : Queue} {flash flash' : Disk} {r r' : Int × Dev} (h : Yields q flash r)
    (h' : Yields r.2.queue flash' r') : Yields q flash' r' :=
  ⟨h'.ret, h'.ring, h.size.trans h'.size, h'.result⟩

section

variable {w : World} {d : Dev} (hok : ∀ n, w.writeOk n = true)
include hok

theorem writeElement_of_ok :
    writeElement w d = (true, { d with
      flash := put d.flash (pageOf d.queue.element).addr (pageOf d.queue.element).bytes
      writes := d.writes + 1 }) := by
  unfold writeElement sunxiFlashWrite
  rw [if_pos (hok _)]
  rfl

/-- Writing the first page that waits does not change what the queue stands for. -/
theorem writeFirst_spec (h : Ring d.queue) (hne : d.queue.currentLen ≠ 0) :
    ∃ d', writeElement w { d with queue := (bufDequeue d.queue).2 } = (true, d') ∧
      Yields d.queue (flushed d) (0, d') ∧ d'.queue.currentLen = d.queue.currentLen - 1 := by
  rcases bufDequeue_spec h hne with ⟨-, hring, hsize, hlen, hpages⟩
  refine ⟨_, writeElement_of_ok hok, ⟨rfl, hring, hsize, ?_⟩, hlen⟩
  unfold flushed writePages
  rw [hpages, foldl_cons]

theorem writeOne_spec (h : Ring d.queue) :
    Yields d.queue (flushed d) (efexQueueWriteOnePage w d) ∧
      (efexQueueWriteOnePage w d).2.queue.currentLen = d.queue.currentLen - 1 := by
  unfold efexQueueWriteOnePage
  split_ifs with hempty
  · refine ⟨.refl h, ?_⟩
    dsimp only
    omega
  · rcases writeFirst_spec hok h hempty with ⟨d', hwrite, hyields, hlen⟩
    rw [hwrite]
    exact ⟨hyields, hlen⟩

theorem writeAllLoop_spec (n : Nat) (h : Ring d.queue) (hlt : d.queue.currentLen < n) :
    Yields d.queue (flushed d) (writeAllLoop w n d) ∧
      (writeAllLoop w n d).2.queue.currentLen = 0 := by
  induction n generalizing d with
  | zero => exact absurd hlt (Nat.not_lt_zero _)
  | succ n ih =>
    unfold writeAllLoop
    by_cases hempty : d.queue.currentLen = 0
    · have hdequeue : bufDequeue d.queue = (-1, d.queue) := by
        unfold bufDequeue
        rw [if_pos hempty]
      rw [hdequeue]
      exact ⟨.refl h, hempty⟩
    rcases writeFirst_spec hok h hempty with ⟨d', hwrite, hyields, hlen⟩
    dsimp only
    rw [if_neg (not_not.mpr (bufDequeue_spec h hempty).1), hwrite]
    rcases ih hyields.ring (by rw [hlen]; omega) with ⟨hrest, hdone⟩
    exact ⟨hyields.trans (hyields.result ▸ hrest), hdone⟩

theorem writeAll_spec (h : Ring d.queue) :
    Yields d.queue (flushed d) (efexQueueWriteAllPage w d) ∧
      (efexQueueWriteAllPage w d).2.queue.currentLen = 0 := by
  unfold efexQueueWriteAllPage
  split_ifs with hempty
  · exact ⟨.refl h, hempty⟩
  · exact writeAllLoop_spec hok _ h (Nat.lt_succ_self _)

theorem drainLoop_spec {n : Nat} (h : Ring d.queue) :
    Yields d.queue (flushed d) (drainLoop w n d) ∧
      (drainLoop w n d).2.queue.currentLen = d.queue.currentLen - n := by
  induction n generalizing d with
  | zero => exact ⟨.refl h, rfl⟩
  | succ n ih =>
    unfold drainLoop
    rcases writeOne_spec hok h with ⟨hyields, hlen⟩
    dsimp only
    rw [if_neg (not_not.mpr hyields.ret)]
    rcases ih hyields.ring with ⟨hrest, hlen'⟩
    refine ⟨hyields.trans (hyields.result ▸ hrest), ?_⟩
    rw [hlen', hlen]
    omega

end

theorem saveLoop_spec {secPerPage : Nat} (hpos : 0 < secPerPage) (buff : Mem) {flash : Disk}
    {n : Nat} (start sectors offset : Nat) (h : Ring q) (hlt : sectors < n)
    (hsmall : sectors < 2 ^ 32) (hroom : sectors ≤ (q.maxLen - q.currentLen) * secPerPage) :
    Ring (saveLoop secPerPage buff n start sectors offset q) ∧
      SameSize q (saveLoop secPerPage buff n start sectors offset q) ∧
      writePages flash (pages (saveLoop secPerPage buff n start sectors offset q)) =
        put (writePages flash (pages q)) start
          (read (fun x => buff (offset * 512 + x)) 0 (sectors * 512)) := by
  induction n generalizing start sectors offset q with
  | zero => exact absurd hlt (Nat.not_lt_zero _)
  | succ n ih =>
    have hfree : sectors ≠ 0 → q.currentLen < q.maxLen := by
      intro hne
      by_contra hfull
      rw [Nat.sub_eq_zero_of_le (not_lt.mp hfull), zero_mul] at hroom
      omega
    unfold saveLoop
    split_ifs with hmore hne
    · dsimp only
      rcases bufEnqueue_spec h (hfree (by omega)) with ⟨hring, hsize, hpages⟩
      have hlen' :
          (bufEnqueue q ⟨start, secPerPage, fun x => buff (offset * 512 + x)⟩).2.currentLen =
            q.currentLen + 1 := by
        rw [← length_pages, hpages, length_append, length_pages, length_singleton]
      generalize (bufEnqueue q ⟨start, secPerPage, fun x => buff (offset * 512 + x)⟩).2 = q' at *
      have hroom' : sectors - secPerPage ≤ (q'.maxLen - q'.currentLen) * secPerPage := by
        rw [hsize.maxLen, hlen', Nat.sub_add_eq, Nat.sub_mul, one_mul]
        exact Nat.sub_le_sub_right hroom _
      rcases ih ((start + secPerPage) % 2 ^ 32) (sectors - secPerPage) (offset + secPerPage) hring
        (by omega) (by omega) hroom' with ⟨hring', hsize', hwrite⟩
      refine ⟨hring', hsize.trans hsize', ?_⟩
      rw [hwrite, hpages, writePages_append, put_mod]
      have hsplit : sectors * 512 = secPerPage * 512 + (sectors - secPerPage) * 512 := by omega
      have hrest : read (fun x => buff (offset * 512 + x)) (0 + (secPerPage * 512 : Nat))
          ((sectors - secPerPage) * 512) =
          read (fun x => buff (((offset + secPerPage : Nat) : Int) * 512 + x)) 0
            ((sectors - secPerPage) * 512) := by
        rw [read_shift]
        refine congrArg (fun m => read m 0 _) (funext fun x => congrArg buff ?_)
        push_cast
        ring
      rw [hsplit, read_add, hrest]
      refine (put_append _ _ ?_ ?_).symm
      · exact length_read ..
      · unfold pageOf
        rw [length_read, length_read, ← hsplit]
        exact Nat.mul_le_mul_right 512 hsmall.le
    · rcases bufEnqueue_spec h (hfree hne) with ⟨hring, hsize, hpages⟩
      refine ⟨hring, hsize, ?_⟩
      rw [hpages, writePages_append]
      rfl
    · rw [not_not.mp hne, zero_mul]
      exact ⟨h, .refl _, (put_nil _ _).symm⟩

theorem save_spec {w : World} {d : Dev} {sectors : Nat} {start : Nat} {buff : Mem}
    (hok : ∀ n, w.writeOk n = true) (h : Ring d.queue)
    (hfit : sectors ≤ d.queue.maxLen * (d.queue.pageSize / 512)) :
    Yields d.queue (put (flushed d) start (read buff 0 (sectors * 512)))
      (efexSaveBuffToQueue w d start sectors buff) := by
  have hlen := h.len_le
  have hpage := h.page_pos
  have hsmall := h.small
  rw [add_one_mul] at hsmall
  -- the number of pages, rounded up and without a wrap
  have hrequire : requirePage d.queue sectors ≤ d.queue.maxLen ∧
      sectors ≤ requirePage d.queue sectors * (d.queue.pageSize / 512) := by
    unfold requirePage
    rw [Nat.mod_eq_of_lt (by omega)]
    generalize d.queue.pageSize / 512 = k at *
    constructor
    · rw [Nat.div_le_iff_le_mul_add_pred hpage, mul_comm k]
      omega
    · have hmod := Nat.mod_lt (sectors + k - 1) hpage
      have hdiv := Nat.div_add_mod (sectors + k - 1) k
      rw [mul_comm] at hdiv
      omega
  unfold efexSaveBuffToQueue
  rcases drainLoop_spec hok h with ⟨⟨hret, hring, hsize, hflushed⟩, hleft⟩
  dsimp only
  generalize drainLoop w (requirePage d.queue sectors - bufQueueFreeSize d.queue) d = r at *
  have hfree : requirePage d.queue sectors ≤ r.2.queue.maxLen - r.2.queue.currentLen := by
    unfold bufQueueFreeSize at hleft
    rw [hsize.maxLen, hleft]
    omega
  rw [if_neg (not_not.mpr hret), if_neg (by unfold bufQueueFreeSize; omega)]
  have hroom : sectors ≤
    (r.2.queue.maxLen - r.2.queue.currentLen) * (r.2.queue.pageSize / 512) := by
    rw [hsize.pageSize]
    exact hrequire.2.trans (Nat.mul_le_mul_right _ hfree)
  rcases saveLoop_spec hring.page_pos buff start sectors 0 hring
    (Nat.lt_succ_self _) (by omega) hroom with ⟨hring', hsize', hwrite⟩
  refine ⟨rfl, hring', hsize.trans hsize', ?_⟩
  have hbuff : (fun x : Int => buff (((0 : Nat) : Int) * 512 + x)) = buff := by
    funext x
    rw [Nat.cast_zero, zero_mul, zero_add]
  rw [hbuff] at hwrite
  rw [← hflushed]
  exact hwrite

/-- The flash after a call, when every buffer is written at once. -/
def direct (flash : Disk) : Op → Disk
  | .save start sectors buff => put flash start (read buff 0 (sectors * 512))
  | .writeOne => flash
  | .writeAll => flash

/-- A call does not save more pages than the queue has. -/
def Fits (q : Queue) : Op → Prop
  | .save _ sectors _ => sectors ≤ q.maxLen * (q.pageSize / 512)
  | .writeOne => True
  | .writeAll => True

/-- Each call returns 0, and changes what the queue stands for as the direct write does. -/
theorem opStep_spec {w : World} {d : Dev} (hok : ∀ n, w.writeOk n = true) (h : Ring d.queue)
    {op : Op} (hfit : Fits d.queue op) :
    Yields d.queue (direct (flushed d) op) (opStep w d op) := by
  cases op with
  | save start sectors buff => exact save_spec hok h hfit
  | writeOne => exact (writeOne_spec hok h).1
  | writeAll => exact (writeAll_spec hok h).1

theorem ops_spec {w : World} (hok : ∀ n, w.writeOk n = true) (ops : List Op) {d : Dev}
    (h : Ring d.queue) (hfits : ∀ op ∈ ops, Fits d.queue op) :
    (∀ r ∈ replies (opStep w) d ops, r = 0) ∧ Ring (after (opStep w) d ops).queue ∧
      flushed (after (opStep w) d ops) = ops.foldl direct (flushed d) := by
  induction ops generalizing d with
  | nil => exact ⟨fun r hr => absurd hr not_mem_nil, h, rfl⟩
  | cons op ops ih =>
    rcases opStep_spec hok h (hfits op mem_cons_self) with ⟨hret, hring, hsize, hflushed⟩
    have hfits' : ∀ o ∈ ops, Fits (opStep w d op).2.queue o := by
      intro o ho
      have hfit := hfits o (mem_cons_of_mem _ ho)
      cases o with
      | save start sectors buff =>
        unfold Fits at hfit ⊢
        rw [hsize.maxLen, hsize.pageSize]
        exact hfit
      | writeOne => trivial
      | writeAll => trivial
    rcases ih hring hfits' with ⟨hrest, hring', hflushed'⟩
    refine ⟨fun r hr => ?_, hring', ?_⟩
    · rcases mem_cons.mp hr with rfl | hr
      · exact hret
      · exact hrest r hr
    · rw [foldl_cons, ← hflushed]
      exact hflushed'

/-- All calls return 0, and after a last `efex_queue_write_all_page` the flash is as if every buffer
    had been written at once, in the order of the calls. -/
theorem queue_lossless (b : Board) (memory : Nat → Mem) (flash : Disk) (w : World) (ops : List Op)
    (hok : ∀ n, w.writeOk n = true) (hfits : ∀ op ∈ ops, Fits (bufQueueInit b memory) op) :
    (∀ r ∈ replies (opStep w) ⟨bufQueueInit b memory, flash, 0⟩ ops, r = 0) ∧
      (efexQueueWriteAllPage w
        (after (opStep w) ⟨bufQueueInit b memory, flash, 0⟩ ops)).1 = 0 ∧
      (efexQueueWriteAllPage w
        (after (opStep w) ⟨bufQueueInit b memory, flash, 0⟩ ops)).2.flash =
        ops.foldl direct flash := by
  rcases bufQueueInit_ring b with ⟨hring, hempty⟩
  rcases ops_spec hok ops (d := ⟨bufQueueInit b memory, flash, 0⟩) hring hfits with
    ⟨hreplies, hring', hflushed⟩
  rcases writeAll_spec hok hring' with ⟨hyields, hdone⟩
  refine ⟨hreplies, hyields.ret, ?_⟩
  rw [← flushed_of_empty hdone, hyields.result, hflushed, flushed_of_empty hempty]

/-- A board with an eMMC. -/
def emmcBoard : Board := ⟨2, false, 16384, by decide, by decide, by decide⟩

/-- Two buffers that overlap in sector 1, with one page written in between. -/
def overlapOps : List Op := [.save 0 2 fun _ => 1, .writeOne, .save 1 1 fun _ => 2]

/-- The later buffer wins. -/
theorem queue_lossless_overlap :
    (efexQueueWriteAllPage .good (after (opStep .good)
      ⟨bufQueueInit emmcBoard fun _ _ => 0, fun _ => [], 0⟩ overlapOps)).2.flash 1 =
      read (fun _ => 2) 0 512 := by
  have hfits : ∀ op ∈ overlapOps, Fits (bufQueueInit emmcBoard fun _ _ => 0) op := by
    intro op hop
    simp only [overlapOps, mem_cons, not_mem_nil, or_false] at hop
    rcases hop with rfl | rfl | rfl
    · exact show 2 ≤ 20 * 128 by decide
    · trivial
    · exact show 1 ≤ 20 * 128 by decide
  rw [(queue_lossless emmcBoard (fun _ _ => 0) (fun _ => []) .good overlapOps (fun _ => rfl)
    hfits).2.2]
  decide +kernel

end Brandy.EfexQueue
