import Xv6.Lib.Loop
import Xv6.Model.LinkedList
import Xv6.Model.Exec

/-!
# The bins of the swap map as linked lists (unordered_map.c:35-94, LinkedList.c:193-214)

`SwapMapAdd` and `SwapMapRemove` over `swapMap` as it is in kernel memory: the bins'
pointers, the `LinkedListHead` objects (of the bins, and the `PTEs` head of each node's
`SwapData`), and the nodes of all those lists in one `NodeHeap`.  The key of a bin node
is the object of a `SwapUniqueKey`, its data the object of a `SwapData`: the swap-file
page number and the pointer to the `PTEs` head.  The key of a PTE node is the `pte_t *`
that the C passes by a pointer to it, so compared by value; a `NULL` parent is `none`.

Both functions retry `SwapDataAddPTE` or `SwapDataRemovePTE` in a `while` loop that moves
on with `LinkedListNodeGetNextMatching(node, bin, key)`.  Those loops have no bound of
their own: they are `Loop.iterate` with the fuel given, and the functions answer `none`
when the loop was still going after it.  `kmalloc` and the `vtable` allocators are not
modelled: the blocks a call gets from them come with it (`MapAlloc`).  The lock is the
list of spinlocks held, as in `Xv6.Model.Vm`, and `cprintf` in `SwapMapHash` prints
only.
-/

set_option autoImplicit false

namespace Xv6

namespace UnorderedMap

open LinkedList

/-- The bytes of a `uint`, little-endian. -/
def uintBytes (w : Nat) : List UInt8 := (List.range 4).map (bytes32 w)

/-- The object of a `SwapUniqueKey` (LinkedList.h): `log_a`, then `pa`. -/
def keyBytes (key : SwapUniqueKey) : List UInt8 := uintBytes key.logA ++ uintBytes key.pa

/-- The object of a `SwapData` (LinkedList.h): `swapfilePageNo`, then `PTEs`. -/
def swapDataBytes (pageNo ptes : Nat) : List UInt8 := uintBytes pageNo ++ uintBytes ptes

/-- `((SwapData *) node->data)->PTEs`, read from the data object of a node. -/
def ptesOf (data : List UInt8) : Nat := le32 (fun i => data.getD i 0) 4

/-- `(uint) -1`, the page number `SwapDataInit` gives a new `SwapData`. -/
def noPage : Nat := 4294967295

/-- The kernel memory of the swap map. -/
structure MapMem where
  /-- `swapMap.bins`, `NULL` for a bin not used yet. -/
  bins : Nat → Nat
  /-- The `LinkedListHead` objects, by address. -/
  heads : Nat → LinkedListHead
  /-- The nodes of the bins and of the `PTEs` lists. -/
  nodes : NodeHeap

/-- The blocks one call gets from `kmalloc`. -/
structure MapAlloc where
  /-- The head `UnorderedMapGetBin` allocates for a bin used the first time. -/
  binHead : Nat
  /-- The node of a new key. -/
  node : Nat
  /-- The `PTEs` head that the new node's `SwapDataCreate` allocates. -/
  ptes : Nat
  /-- The node of the PTE added. -/
  pteNode : Nat
  deriving DecidableEq, Repr

/-- The list whose head is at `p` after a call on it. -/
def MapMem.setList (m : MapMem) (p : Nat) (hd : LinkedListHead) (H : NodeHeap) : MapMem :=
  { m with
      heads := Function.update m.heads p hd
      nodes := H }

/-- `UnorderedMapGetBin(&swapMap, key)` (unordered_map.c:35-44): the bin's head, which a bin
used the first time gets from `LinkedListAlloc()` as a copy of `defaultSwapLL`. -/
def unorderedMapGetBin (kernEnd : Nat) (m : MapMem) (binHead : Nat) (key : SwapUniqueKey) :
    MapMem × Nat :=
  let i := swapMapHash kernEnd key
  if m.bins i = 0 then
    ({ m with
        bins := Function.update m.bins i binHead
        heads := Function.update m.heads binHead defaultSwapLL }, binHead)
  else (m, m.bins i)

/-- `SwapDataAddPTE(node->data, parentPTE, PTE)` (LinkedList.c:193-202): `PTE` appended to
the node's `PTEs` when there is no parent or the parent is in them (`TRUE`), the memory as
it was otherwise (`FALSE`). -/
def swapDataAddPTE (m : MapMem) (pteNode node : Nat) (parentPTE : Option Nat) (pte : Nat) :
    Except String (MapMem × Bool) := do
  let ptes := ptesOf (m.nodes.data node)
  let found ← match parentPTE with
    | none => pure true
    | some q => do
        let n ← linkedListGet (m.heads ptes) m.nodes (some (uintBytes q))
        pure (n != 0)
  if found then
    let (hd, H) := linkedListAdd (m.heads ptes) m.nodes ⟨pteNode, [], []⟩ (uintBytes pte) none
    pure (m.setList ptes hd H, true)
  else pure (m, false)

/-- `SwapDataRemovePTE(node->data, PTE)` (LinkedList.c:203-214): the node of `PTE` in the
`PTEs` unlinked and freed (`TRUE`), the memory as it was when there is none (`FALSE`). -/
def swapDataRemovePTE (m : MapMem) (node pte : Nat) : Except String (MapMem × Bool) := do
  let ptes := ptesOf (m.nodes.data node)
  let n ← linkedListGet (m.heads ptes) m.nodes (some (uintBytes pte))
  if n ≠ 0 then
    let (hd, H, _) ← linkedListNodeRemoveNextMatching n (m.heads ptes) m.nodes none
    pure (m.setList ptes hd H, true)
  else pure (m, false)

/-- `LinkedListAdd(bin, key, NULL); node = bin->end; SwapDataAddPTE(node->data, NULL, pte)`
(unordered_map.c:65-67, 72-74): a new node for the key, whose `SwapDataCreate` made a
`SwapData` with no page and an empty `PTEs` head, and `pte` its first PTE. -/
def addNewNode (m : MapMem) (al : MapAlloc) (bin : Nat) (key : SwapUniqueKey) (pte : Nat) :
    Except String MapMem := do
  let m := { m with heads := Function.update m.heads al.ptes defaultLLPTE }
  let (hd, H) := linkedListAdd (m.heads bin) m.nodes
    ⟨al.node, List.replicate 8 0, swapDataBytes noPage al.ptes⟩ (keyBytes key) none
  let m := m.setList bin hd H
  let (m, _) ← swapDataAddPTE m al.pteNode (m.heads bin).last none pte
  pure m

/-- One pass of the loop of `SwapMapAdd` (unordered_map.c:69-77) at `node`: done when
`SwapDataAddPTE` adds, else on at the next node with the key, or done with a new node when
there is none. -/
def addPass (al : MapAlloc) (bin : Nat) (key : SwapUniqueKey) (ppte : Option Nat) (pte : Nat) :
    MapMem × Nat → Except String (MapMem ⊕ MapMem × Nat)
  | (m, node) => do
      let (m, added) ← swapDataAddPTE m al.pteNode node ppte pte
      if added then pure (.inl m)
      else
        let node ← linkedListNodeGetNextMatching node (m.heads bin) m.nodes (some (keyBytes key))
        if node = 0 then do
          let m ← addNewNode m al bin key pte
          pure (.inl m)
        else pure (.inr (m, node))

/-- `SwapMapAdd(key, ppte, pte)` (unordered_map.c:59-81), its loop with at most `fuel`
passes: the memory and the locks held after it, `none` for a loop still going. -/
def swapMapAdd (kernEnd fuel : Nat) (m : MapMem) (held : List Spinlock) (al : MapAlloc)
    (key : SwapUniqueKey) (ppte : Option Nat) (pte : Nat) :
    Except String (Option (MapMem × List Spinlock)) := do
  let held ← acquire held .swapMap
  let (m, bin) := unorderedMapGetBin kernEnd m al.binHead key
  let node ← linkedListGet (m.heads bin) m.nodes (some (keyBytes key))
  let r ← if node = 0 then do
      let m ← addNewNode m al bin key pte
      pure (some m)
    else Loop.iterate (addPass al bin key ppte pte) fuel (m, node)
  match r with
  | none => pure none
  | some m => do
      let held ← release held .swapMap
      pure (some (m, held))

/-- One pass of the loop of `SwapMapRemove` (unordered_map.c:87-89) at `node`: done when
`SwapDataRemovePTE` removes, else on at the next node with the key.  A `NULL` node is
dereferenced by `node->data`. -/
def removePass (bin : Nat) (key : SwapUniqueKey) (pte : Nat) :
    MapMem × Nat → Except String (MapMem × Nat ⊕ MapMem × Nat)
  | (m, node) =>
      if node = 0 then throw "SwapMapRemove: NULL node"
      else do
        let (m, removed) ← swapDataRemovePTE m node pte
        if removed then pure (.inl (m, node))
        else
          let node ← linkedListNodeGetNextMatching node (m.heads bin) m.nodes (some (keyBytes key))
          pure (.inr (m, node))

/-- `SwapMapRemove(key, pte)` (unordered_map.c:83-94), its loop with at most `fuel`
passes; the node goes too when its last PTE did. -/
def swapMapRemove (kernEnd fuel : Nat) (m : MapMem) (held : List Spinlock) (binHead : Nat)
    (key : SwapUniqueKey) (pte : Nat) : Except String (Option (MapMem × List Spinlock)) := do
  let held ← acquire held .swapMap
  let (m, bin) := unorderedMapGetBin kernEnd m binHead key
  let node ← linkedListGet (m.heads bin) m.nodes (some (keyBytes key))
  let r ← Loop.iterate (removePass bin key pte) fuel (m, node)
  match r with
  | none => pure none
  | some (m, node) => do
      let m ← if (m.heads (ptesOf (m.nodes.data node))).length = 0 then do
          let (hd, H, _) ← linkedListNodeRemoveNextMatching node (m.heads bin) m.nodes none
          pure (m.setList bin hd H)
        else pure m
      let held ← release held .swapMap
      pure (some (m, held))

end UnorderedMap

end Xv6
