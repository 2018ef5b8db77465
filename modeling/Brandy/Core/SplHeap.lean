import Brandy.Library.Word

/-!
# The Heap of the SPL

A model of `spl/common/malloc.c`, in the build without `CFG_RISCV_CACHE_LINE`. The blocks in use are
linked in the order of their addresses, and what lies between two of them is free. The node of a
block has 16 bytes and stands right in front of it. Here the nodes are a list, so nobody writes over
them. `realloc`, which nobody calls, is left out.

## Main definitions

* `Node`: A block in use.
* `malloc`, `free`: A block is taken or given back.
-/

namespace Brandy.SplHeap

open Word

/-- `struct alloc_struct_t` without its link. -/
structure Node where
  address : Nat
  size : Nat
  oSize : Nat
  deriving DecidableEq

/-- `MY_BYTE_ALIGN`. -/
def myByteAlign (x : Nat) : Nat := u32 (x + 15) / 16 * 16

/-- `malloc_init`. -/
def mallocInit (pHeapHead nHeapSize : Nat) : List Node :=
  [⟨pHeapHead, 0, 0⟩, ⟨u32 (pHeapHead + nHeapSize), 0, 0⟩]

/-- The search for a place and the new node in it. There must be room for two nodes besides the
    block. -/
def insertNode (actualBytes numBytes : Nat) : List Node → Option (Nat × List Node)
  | ptr :: next :: rest =>
    if u32 (ptr.address + ptr.size + 32 + actualBytes) ≤ next.address then
      if u32 (ptr.address + ptr.size) = 0 then none
      else
        let newptr : Node := ⟨u32 (ptr.address + ptr.size + 16), actualBytes, numBytes⟩
        some (newptr.address, ptr :: newptr :: next :: rest)
    else (insertNode actualBytes numBytes (next :: rest)).map fun r => (r.1, ptr :: r.2)
  | _ => none

def malloc (heap : List Node) (numBytes : Nat) : Nat × List Node :=
  if numBytes = 0 then (0, heap)
  else (insertNode (myByteAlign numBytes) numBytes heap).getD (0, heap)

/-- `free`. The search begins behind `boot_heap_head`, and does not spare `boot_heap_tail`. -/
def free (heap : List Node) (p : Nat) : List Node :=
  if p = 0 then heap else heap.take 1 ++ (heap.drop 1).eraseP (·.address = p)

inductive Call where
  | malloc (numBytes : Nat)
  | free (p : Nat)

/-- The heap, and the blocks that the program has got and not freed, with the sizes it wanted. -/
structure St where
  heap : List Node
  owned : List (Nat × Nat)

def call (s : St) : Call → Nat × St
  | .malloc n =>
    let r := malloc s.heap n
    (r.1, ⟨r.2, if r.1 = 0 then s.owned else (r.1, n) :: s.owned⟩)
  | .free p => (0, ⟨free s.heap p, s.owned.eraseP (·.1 = p)⟩)

end Brandy.SplHeap
