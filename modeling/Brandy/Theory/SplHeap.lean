import Brandy.Core.SplHeap
import Brandy.Library.Simulation

/-!
# Blocks Do Not Overlap

The nodes are apart from each other, each with its block and with room for the next node. The blocks
that a program has are exactly the nodes between the two ends, so they do not overlap, and nothing
is lost when they are freed.

## Main definitions

* `Holds`: What the program has are the nodes between the ends.
* `Region`, `run`: The heap of a board, and the state after some calls.

## Theorems

* `Holds.malloc`, `Holds.free`: One call.
* `owned_apart`: The blocks after any calls are apart.
* `malloc_fails_iff`: When there is no place for a block.
-/

namespace Brandy.SplHeap

open Word Simulation List

/-- A block ends in front of the node of another one. -/
def Before (b c : Node) : Prop := b.address + b.size + 16 ≤ c.address

instance : IsTrans Node Before := ⟨fun _ _ _ hab hbc => by unfold Before at *; omega⟩

/-- The gap between two blocks is too small. -/
def Narrow (actualBytes : Nat) (b c : Node) : Prop :=
  c.address < b.address + b.size + 32 + actualBytes

/-- The list from a node to the end of the heap. -/
def heapOf (b : Node) (hi : Nat) (blocks : List Node) : List Node := b :: (blocks ++ [⟨hi, 0, 0⟩])

theorem myByteAlign_bounds {n : Nat} (h : n + 15 < 2 ^ 32) :
    n ≤ myByteAlign n ∧ myByteAlign n ≤ n + 15 := by
  unfold myByteAlign
  rw [u32_of_range (n + 15) (by push_cast; rfl) h]
  omega

section

variable {b : Node} {hi : Nat} {blocks : List Node}

theorem heapOf_before (h : (heapOf b hi blocks).IsChain Before) {c : Node}
    (hc : c ∈ blocks ++ [⟨hi, 0, 0⟩]) : b.address + b.size + 16 ≤ c.address :=
  rel_of_pairwise_cons (isChain_iff_pairwise.mp h) hc

theorem heapOf_end (h : (heapOf b hi blocks).IsChain Before) : b.address + b.size + 16 ≤ hi :=
  heapOf_before (c := ⟨hi, 0, 0⟩) h (mem_append_right _ mem_cons_self)

theorem insertNode_cons {a n : Nat} {c : Node} {rest : List Node} (hpos : 0 < b.address)
    (hbound : b.address + b.size + 32 + a < 2 ^ 32) :
    insertNode a n (b :: c :: rest) =
      if b.address + b.size + 32 + a ≤ c.address then
        some (b.address + b.size + 16, b :: ⟨b.address + b.size + 16, a, n⟩ :: c :: rest)
      else (insertNode a n (c :: rest)).map fun r => (r.1, b :: r.2) := by
  have hsum := u32_of_range (b.address + b.size + 32 + a) (by push_cast; rfl) hbound
  have hptr := u32_of_range (b.address + b.size) (by push_cast; rfl) (by omega)
  have hnew := u32_of_range (b.address + b.size + 16) (by push_cast; rfl) (by omega)
  rw [insertNode, hsum, hptr, hnew, if_neg (by omega : b.address + b.size ≠ 0)]

section

variable (hpos : 0 < b.address) (h : (heapOf b hi blocks).IsChain Before)
include hpos h

/-- The first gap that is not too small gets the new node. -/
theorem insertNode_cases {a : Nat} (n : Nat) (hbound : hi + 32 + a < 2 ^ 32) :
    insertNode a n (heapOf b hi blocks) = none ∧ (heapOf b hi blocks).IsChain (Narrow a) ∨
      ∃ p blocks', insertNode a n (heapOf b hi blocks) = some (p, heapOf b hi blocks') ∧ 0 < p ∧
        ¬ (heapOf b hi blocks).IsChain (Narrow a) ∧ blocks' ~ ⟨p, a, n⟩ :: blocks ∧
        (heapOf b hi blocks').IsChain Before := by
  induction blocks generalizing b with
  | nil =>
    have hend := heapOf_end h
    rw [heapOf, nil_append, insertNode_cons hpos (by omega)]
    split_ifs with hroom
    · dsimp only at hroom
      refine .inr ⟨_, [_], rfl, by omega, fun hnarrow => ?_, .refl _, ?_⟩
      · exact absurd (isChain_cons_cons.mp hnarrow).1 (not_lt.mpr hroom)
      · simp only [heapOf, cons_append, nil_append, isChain_cons_cons, Before]
        exact ⟨by omega, by omega, .singleton _⟩
    · exact .inl ⟨rfl, by simpa [Narrow] using hroom⟩
  | cons c blocks ih =>
    have hc := heapOf_before h mem_cons_self
    have hend := heapOf_end h
    have hrest : (heapOf c hi blocks).IsChain Before := h.tail
    rw [heapOf, cons_append, insertNode_cons hpos (by omega)]
    split_ifs with hroom
    · refine .inr ⟨_, _ :: c :: blocks, rfl, by omega, fun hnarrow => ?_, .refl _, ?_⟩
      · exact absurd (isChain_cons_cons.mp hnarrow).1 (not_lt.mpr hroom)
      · simp only [heapOf, cons_append, isChain_cons_cons, Before]
        exact ⟨by omega, by omega, hrest⟩
    · -- the search goes on behind this gap
      rcases ih (by omega) hrest with
        ⟨hnone, hnarrow⟩ | ⟨p, blocks', hsome, hp, hwide, hperm, hchain⟩
      · refine .inl ⟨?_, ?_⟩
        · rw [← heapOf, hnone]
          rfl
        · exact .cons_cons (not_le.mp hroom) hnarrow
      · refine .inr ⟨p, c :: blocks', ?_, hp, fun hnarrow => hwide hnarrow.tail, ?_, ?_⟩
        · rw [← heapOf, hsome]
          rfl
        · exact (hperm.cons c).trans (.swap _ _ _)
        · exact .cons_cons hc hchain

theorem malloc_cases {n : Nat} (hn : hi + 47 + n < 2 ^ 32) :
    malloc (heapOf b hi blocks) n = (0, heapOf b hi blocks) ∧
        (n = 0 ∨ (heapOf b hi blocks).IsChain (Narrow (myByteAlign n))) ∨
      ∃ p blocks', malloc (heapOf b hi blocks) n = (p, heapOf b hi blocks') ∧ 0 < p ∧
        ¬ (heapOf b hi blocks).IsChain (Narrow (myByteAlign n)) ∧
        blocks' ~ ⟨p, myByteAlign n, n⟩ :: blocks ∧ (heapOf b hi blocks').IsChain Before := by
  have hsize := (myByteAlign_bounds (n := n) (by omega)).2
  unfold malloc
  split_ifs with hzero
  · exact .inl ⟨rfl, .inl hzero⟩
  · rcases insertNode_cases hpos h (a := myByteAlign n) n (by omega) with
      ⟨hnone, hnarrow⟩ | ⟨p, blocks', hsome, hrest⟩
    · exact .inl ⟨by rw [hnone]; rfl, .inr hnarrow⟩
    · exact .inr ⟨p, blocks', by rw [hsome]; rfl, hrest⟩

theorem free_heapOf {p : Nat} (hp : p ≠ hi) :
    free (heapOf b hi blocks) p = heapOf b hi (blocks.eraseP (·.address = p)) := by
  unfold free
  split_ifs with hzero
  · have hnone : blocks.eraseP (·.address = p) = blocks := by
      refine eraseP_of_forall_not fun c hc => ?_
      have hbefore := heapOf_before h (mem_append_left _ hc)
      rw [decide_eq_true_iff]
      omega
    rw [hnone]
  · change b :: (blocks ++ [(⟨hi, 0, 0⟩ : Node)]).eraseP _ = _
    rw [eraseP_append]
    split_ifs with hany
    · rfl
    · rw [eraseP_cons_of_neg (by simpa using hp.symm), eraseP_nil, heapOf,
        eraseP_of_forall_not (by simpa using hany)]

end

end

/-- What a program has to keep to: no request of more than can be added to an address, and no free
    of the end of the heap. -/
def Call.Allowed (hi : Nat) : Call → Prop
  | .malloc n => hi + 47 + n < 2 ^ 32
  | .free p => p ≠ hi

/-- What the program has are the nodes between the ends. -/
structure Holds (lo hi : Nat) (s : St) (blocks : List Node) : Prop where
  heap : s.heap = heapOf ⟨lo, 0, 0⟩ hi blocks
  chain : s.heap.IsChain Before
  sizes : ∀ b ∈ blocks, b.oSize ≤ b.size
  owned : blocks.map (fun b => (b.address, b.oSize)) ~ s.owned

section

variable {lo hi : Nat} {s : St} {blocks : List Node}

theorem Holds.malloc (hlo : 0 < lo) (h : Holds lo hi s blocks) {n : Nat}
    (hn : hi + 47 + n < 2 ^ 32) : ∃ blocks', Holds lo hi (call s (.malloc n)).2 blocks' := by
  have hchain := h.chain
  have hcases := h.heap ▸ malloc_cases hlo (h.heap ▸ hchain) hn
  unfold call
  dsimp only
  rcases hcases with ⟨hnone, -⟩ | ⟨p, blocks', hsome, hp, -, hperm, hchain'⟩
  · rw [hnone]
    exact ⟨blocks, h⟩
  · rw [hsome]
    refine ⟨blocks', rfl, hchain', fun b hb => ?_, ?_⟩
    · rcases mem_cons.mp (hperm.subset hb) with rfl | hold
      · exact (myByteAlign_bounds (n := n) (by omega)).1
      · exact h.sizes b hold
    · change _ ~ if p = 0 then s.owned else (p, n) :: s.owned
      rw [if_neg hp.ne']
      exact (hperm.map _).trans (h.owned.cons _)

theorem Holds.free (hlo : 0 < lo) (h : Holds lo hi s blocks) {p : Nat} (hp : p ≠ hi) :
    Holds lo hi (call s (.free p)).2 (blocks.eraseP (·.address = p)) := by
  have hchain := h.chain
  rw [h.heap] at hchain
  have hfree := free_heapOf hlo hchain hp
  rw [← h.heap] at hfree
  have hpairwise := isChain_iff_pairwise.mp hchain
  have hsub : (blocks.eraseP (·.address = p)).Sublist blocks := eraseP_sublist
  refine ⟨hfree, ?_, fun b hb => h.sizes b (hsub.subset hb), ?_⟩
  · change (SplHeap.free s.heap p).IsChain Before
    rw [hfree]
    exact isChain_iff_pairwise.mpr (hpairwise.sublist ((hsub.append_right _).cons_cons _))
  · -- no two blocks have the same address, so both lists lose the same one
    have hone : (blocks.map fun b => (b.address, b.oSize)).Pairwise fun x y =>
        decide (x.1 = p) = true → decide (y.1 = p) = true → False := by
      refine pairwise_map.mpr (hpairwise.tail.sublist (sublist_append_left _ _) |>.imp ?_)
      intro b c hbc hb hc
      unfold Before at hbc
      rw [decide_eq_true_iff] at hb hc
      omega
    have hperm := h.owned.eraseP _ hone
    rwa [eraseP_map] at hperm

theorem holds_run (hlo : 0 < lo) {calls : List Call} (hcalls : ∀ c ∈ calls, c.Allowed hi)
    (h : ∃ blocks, Holds lo hi s blocks) : ∃ blocks, Holds lo hi (after call s calls) blocks := by
  induction calls generalizing s with
  | nil => exact h
  | cons c calls ih =>
    rcases h with ⟨blocks, h⟩
    have hc := hcalls c mem_cons_self
    refine ih (fun c hc => hcalls c (mem_cons_of_mem _ hc)) ?_
    cases c with
    | malloc n => exact h.malloc hlo hc
    | free p => exact ⟨_, h.free hlo hc⟩

end

/-- The heap of a board: not at address 0, with room for a node, and below 4 GiB. -/
structure Region where
  base : Nat
  size : Nat
  base_pos : 0 < base
  room : 16 ≤ size
  below : base + size < 2 ^ 32

namespace Region

variable (r : Region)

/-- The state of a program after some calls. -/
def run (calls : List Call) : St := after call ⟨mallocInit r.base r.size, []⟩ calls

theorem mallocInit_eq : mallocInit r.base r.size = heapOf ⟨r.base, 0, 0⟩ (r.base + r.size) [] := by
  unfold mallocInit
  rw [u32_of_range (r.base + r.size) (by push_cast; rfl) r.below]
  rfl

theorem holds {calls : List Call} (hcalls : ∀ c ∈ calls, c.Allowed (r.base + r.size)) :
    ∃ blocks, Holds r.base (r.base + r.size) (r.run calls) blocks := by
  refine holds_run r.base_pos hcalls ⟨[], r.mallocInit_eq, ?_, nofun, .nil⟩
  rw [r.mallocInit_eq]
  exact .cons_cons (Nat.add_le_add_left r.room _) (.singleton _)

/-- After any calls the blocks that a program has are inside the heap, apart from each other and
    from the nodes in front of them. When it has none, the heap is as in the beginning. -/
theorem owned_apart (calls : List Call) (hcalls : ∀ c ∈ calls, c.Allowed (r.base + r.size)) :
    ((r.run calls).owned.Pairwise fun x y => x.1 + x.2 + 16 ≤ y.1 ∨ y.1 + y.2 + 16 ≤ x.1) ∧
      (∀ x ∈ (r.run calls).owned, r.base + 16 ≤ x.1 ∧ x.1 + x.2 ≤ r.base + r.size) ∧
      ((r.run calls).owned = [] → (r.run calls).heap = mallocInit r.base r.size) := by
  rcases r.holds hcalls with ⟨blocks, h⟩
  generalize r.run calls = s at h ⊢
  have hchain := h.chain
  rw [h.heap] at hchain
  rcases pairwise_append.mp (isChain_iff_pairwise.mp hchain).tail with ⟨hapart, -, hend⟩
  refine ⟨?_, fun x hx => ?_, fun hnone => ?_⟩
  · refine (h.owned.pairwise_iff Or.symm).mp (pairwise_map.mpr (hapart.imp_of_mem ?_))
    intro b c hb hc hbc
    have hsize := h.sizes b hb
    unfold Before at hbc
    exact .inl (by dsimp only; omega)
  · rcases mem_map.mp (h.owned.symm.subset hx) with ⟨b, hb, rfl⟩
    have hsize := h.sizes b hb
    have hstart := heapOf_before hchain (mem_append_left _ hb)
    have hstop : b.address + b.size + 16 ≤ r.base + r.size := hend b hb _ mem_cons_self
    exact ⟨hstart, by dsimp only; omega⟩
  · have hblocks := (hnone ▸ h.owned).eq_nil
    rw [h.heap, map_eq_nil_iff.mp hblocks, r.mallocInit_eq]

/-- The heap that `CONFIG_HEAP_BASE` and `CONFIG_HEAP_SIZE` describe. -/
def board : Region := ⟨0x83800000, 4 * 1024 * 1024, by decide, by decide, by decide⟩

/-- Two blocks, of which the first one is freed, and a third. -/
def boardCalls : List Call := [.malloc 100, .malloc 20, .free 0x83800010, .malloc 30]

theorem board_apart :
    (board.run boardCalls).owned.Pairwise fun x y =>
      x.1 + x.2 + 16 ≤ y.1 ∨ y.1 + y.2 + 16 ≤ x.1 := by
  refine (owned_apart board boardCalls ?_).1
  simp [boardCalls, board, Call.Allowed]

/-- After any calls: `malloc` finds a place for a block unless every gap is too small. -/
theorem malloc_fails_iff (calls : List Call)
    (hcalls : ∀ c ∈ calls, c.Allowed (r.base + r.size)) {n : Nat}
    (hn : n ≠ 0) (hbound : r.base + r.size + 47 + n < 2 ^ 32) :
    (malloc (r.run calls).heap n).1 = 0 ↔ (r.run calls).heap.IsChain (Narrow (myByteAlign n)) := by
  rcases r.holds hcalls with ⟨blocks, h⟩
  have hchain := h.chain
  rcases h.heap ▸ malloc_cases r.base_pos (h.heap ▸ hchain) hbound with
    ⟨hnone, hnarrow⟩ | ⟨p, blocks', hsome, hp, hwide, -⟩
  · rw [hnone]
    exact iff_of_true rfl (hnarrow.resolve_left hn)
  · rw [hsome]
    exact iff_of_false hp.ne' hwide

/-- A block of the size of the heap does not fit. -/
theorem board_too_small : (malloc (board.run []).heap (4 * 1024 * 1024)).1 = 0 := by
  refine (malloc_fails_iff board [] nofun (by decide) (by decide)).mpr ?_
  change (mallocInit board.base board.size).IsChain _
  rw [mallocInit_eq]
  have hsize := (myByteAlign_bounds (n := 4 * 1024 * 1024) (by decide)).1
  refine .cons_cons ?_ (.singleton _)
  unfold Narrow board
  dsimp only
  omega

end Region

end Brandy.SplHeap
