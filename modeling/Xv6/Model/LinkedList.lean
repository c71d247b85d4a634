import Xv6.Lib.DList

/-!
# Doubly linked lists (LinkedList.c)

The list of the swap map's bins and of each node's PTEs.  A `LinkedListHead` holds the
first and last node and the length; the nodes are records in kernel memory, here the
`next` and `prev` of each node address (`NodeHeap.links`), the bytes of the objects its
`uniqueKey` and `data` point to, and whether its block is allocated.  `NULL` is `0`.

`kmalloc` and the `vtable` allocators are not modelled: their results come with the call
(`NodeAlloc`).  The two search loops follow `next` until `NULL`; here they take the
list's length plus one passes, which a well-formed list never exhausts.

A client of the list makes a sequence of calls (`Op`, `run`), each on the head and the
nodes the previous one left.
-/

set_option autoImplicit false

namespace Xv6

namespace LinkedList

/-- `struct LinkedListHead` (LinkedList.h:21-27).  The field `end` is `last` here; `vtable`
says whether the head has one. -/
structure LinkedListHead where
  length : Nat
  keySize : Nat
  dataSize : Nat
  start : Nat
  last : Nat
  vtable : Bool
  deriving DecidableEq, Repr

/-- The `LinkedListNode`s in kernel memory (LinkedList.h:29-35). -/
structure NodeHeap where
  links : DList.Links Nat
  key : Nat → List UInt8
  data : Nat → List UInt8
  live : Nat → Bool

/-- What `LinkedListNodeAlloc` gets from its allocators: the node's block, and the
objects `vtable->keyAlloc()` and `vtable->dataAlloc()` return. -/
structure NodeAlloc where
  node : Nat
  keyObj : List UInt8
  dataObj : List UInt8
  deriving DecidableEq, Repr

/-- `memcmp(v1, v2, n)` (string.c:16-29) over the bytes at the two pointers. -/
def memcmp : List UInt8 → List UInt8 → Nat → Int
  | _, _, 0 => 0
  | s1, s2, n + 1 =>
      if s1.headD 0 ≠ s2.headD 0 then (s1.headD 0).toNat - (s2.headD 0).toNat
      else memcmp s1.tail s2.tail n

/-- `memmove(dst, src, n)` (string.c:31-49): the first `n` bytes at `src` over those of
the object at `dst`. -/
def memmove (dst src : List UInt8) (n : Nat) : List UInt8 :=
  (List.range n).map (fun i => src.getD i 0) ++ dst.drop n

/-- `uniqueKey == NULL || memcmp(cur->uniqueKey, uniqueKey, head->keySize) == 0`
(LinkedList.c:82, 96), for a node whose key object holds `k`. -/
def keyMatches (keySize : Nat) (uniqueKey : Option (List UInt8)) (k : List UInt8) : Bool :=
  match uniqueKey with
  | none => true
  | some u => memcmp k u keySize == 0

/-- The key object of a new node: `keyAlloc()`, or `keySize` zero bytes of `kmalloc`. -/
def NodeAlloc.keyFor (a : NodeAlloc) (hd : LinkedListHead) : List UInt8 :=
  if hd.vtable then a.keyObj else List.replicate hd.keySize 0

/-- The data object of a new node: `dataAlloc()`, or `dataSize` zero bytes of `kmalloc`. -/
def NodeAlloc.dataFor (a : NodeAlloc) (hd : LinkedListHead) : List UInt8 :=
  if hd.vtable then a.dataObj else List.replicate hd.dataSize 0

/-- `LinkedListNodeAlloc(head)` (LinkedList.c:16-32): the node zeroed, with its key and
data objects. -/
def linkedListNodeAlloc (hd : LinkedListHead) (H : NodeHeap) (a : NodeAlloc) : NodeHeap where
  links := (H.links.setNext a.node 0).setPrev a.node 0
  key := Function.update H.key a.node (a.keyFor hd)
  data := Function.update H.data a.node (a.dataFor hd)
  live := Function.update H.live a.node true

/-- `LinkedListNodeInit(node, head, uniqueKey, data)` (LinkedList.c:47-52); `data` is
`none` for `NULL`. -/
def linkedListNodeInit (hd : LinkedListHead) (H : NodeHeap) (node : Nat) (uniqueKey : List UInt8)
    (data : Option (List UInt8)) : NodeHeap :=
  let H := { H with key := Function.update H.key node (memmove (H.key node) uniqueKey hd.keySize) }
  match data with
  | none => H
  | some d => { H with data := Function.update H.data node (memmove (H.data node) d hd.dataSize) }

/-- `LinkedListNodeCreate(head, uniqueKey, data)` (LinkedList.c:54-60). -/
def linkedListNodeCreate (hd : LinkedListHead) (H : NodeHeap) (a : NodeAlloc) (uniqueKey : List UInt8)
    (data : Option (List UInt8)) : NodeHeap :=
  linkedListNodeInit hd (linkedListNodeAlloc hd H a) a.node uniqueKey data

/-- `LinkedListAdd(head, uniqueKey, data)` (LinkedList.c:62-77). -/
def linkedListAdd (hd : LinkedListHead) (H : NodeHeap) (a : NodeAlloc) (uniqueKey : List UInt8)
    (data : Option (List UInt8)) : LinkedListHead × NodeHeap :=
  let prev := hd.last
  let H := linkedListNodeCreate hd H a uniqueKey data
  let hd := { hd with last := a.node }
  let (hd, H) :=
    if hd.start = 0 then ({ hd with start := hd.last }, H)
    else (hd, { H with links := (H.links.setNext prev hd.last).setPrev hd.last prev })
  ({ hd with length := hd.length + 1 }, H)

/-- The loop of `LinkedListNodeGetNextMatching(cur, head, uniqueKey)`
(LinkedList.c:81-85), with `fuel` passes. -/
def getNextMatchingLoop (hd : LinkedListHead) (H : NodeHeap) (uniqueKey : Option (List UInt8)) :
    Nat → Nat → Except String Nat
  | 0, _ => throw "LinkedList: list longer than its length"
  | fuel + 1, cur =>
      if cur = 0 then pure 0
      else if keyMatches hd.keySize uniqueKey (H.key cur) then pure cur
      else getNextMatchingLoop hd H uniqueKey fuel (H.links.next cur)

/-- `LinkedListNodeGetNextMatching(start, head, uniqueKey)` (LinkedList.c:79-89). -/
def linkedListNodeGetNextMatching (start : Nat) (hd : LinkedListHead) (H : NodeHeap)
    (uniqueKey : Option (List UInt8)) : Except String Nat :=
  getNextMatchingLoop hd H uniqueKey (hd.length + 1) start

/-- `LinkedListNodeFree(node, head)` (LinkedList.c:34-45): the data, the key and the node
go back to their allocators. -/
def linkedListNodeFree (H : NodeHeap) (node : Nat) : NodeHeap :=
  { H with live := Function.update H.live node false }

/-- The statements of `LinkedListNodeRemoveNextMatching` at the node `cur` that matched
(LinkedList.c:97-111), each `cur->...` read after the writes before it: the head, the
nodes and the successor returned. -/
def removeNode (hd : LinkedListHead) (H : NodeHeap) (cur : Nat) : LinkedListHead × NodeHeap × Nat :=
  let hd := { hd with length := hd.length - 1 }
  let (hd, H) :=
    if H.links.prev cur = 0 then ({ hd with start := H.links.next cur }, H)
    else (hd, { H with links := H.links.setNext (H.links.prev cur) (H.links.next cur) })
  let (hd, H) :=
    if H.links.next cur = 0 then ({ hd with last := H.links.prev cur }, H)
    else (hd, { H with links := H.links.setPrev (H.links.next cur) (H.links.prev cur) })
  let next := H.links.next cur
  (hd, linkedListNodeFree H cur, next)

/-- The loop of `LinkedListNodeRemoveNextMatching(cur, head, uniqueKey)`
(LinkedList.c:95-113), with `fuel` passes. -/
def removeNextMatchingLoop (hd : LinkedListHead) (H : NodeHeap) (uniqueKey : Option (List UInt8)) :
    Nat → Nat → Except String (LinkedListHead × NodeHeap × Nat)
  | 0, _ => throw "LinkedList: list longer than its length"
  | fuel + 1, cur =>
      if cur = 0 then pure (hd, H, 0)
      else if keyMatches hd.keySize uniqueKey (H.key cur) then pure (removeNode hd H cur)
      else removeNextMatchingLoop hd H uniqueKey fuel (H.links.next cur)

/-- `LinkedListNodeRemoveNextMatching(start, head, uniqueKey)` (LinkedList.c:93-117). -/
def linkedListNodeRemoveNextMatching (start : Nat) (hd : LinkedListHead) (H : NodeHeap)
    (uniqueKey : Option (List UInt8)) : Except String (LinkedListHead × NodeHeap × Nat) :=
  removeNextMatchingLoop hd H uniqueKey (hd.length + 1) start

/-- `LinkedListGet(head, uniqueKey)` (LinkedList.c:119-123). -/
def linkedListGet (hd : LinkedListHead) (H : NodeHeap) (uniqueKey : Option (List UInt8)) :
    Except String Nat :=
  linkedListNodeGetNextMatching hd.start hd H uniqueKey

/-- `LinkedListRemove(head, uniqueKey)` (LinkedList.c:125-127). -/
def linkedListRemove (hd : LinkedListHead) (H : NodeHeap) (uniqueKey : Option (List UInt8)) :
    Except String (LinkedListHead × NodeHeap × Nat) :=
  linkedListNodeRemoveNextMatching hd.start hd H uniqueKey

/-- The loop of `LinkedListFree(list)` (LinkedList.c:136-140): every node from `node` on
freed, each `next` read before its node goes. -/
def linkedListFreeLoop : Nat → NodeHeap → Nat → Except String NodeHeap
  | 0, _, _ => throw "LinkedList: list longer than its length"
  | fuel + 1, H, node =>
      if node = 0 then pure H
      else
        let next := H.links.next node
        linkedListFreeLoop fuel (linkedListNodeFree H node) next

/-- `LinkedListFree(list)` (LinkedList.c:134-142); the head's own block is not modelled. -/
def linkedListFree (hd : LinkedListHead) (H : NodeHeap) : Except String NodeHeap :=
  linkedListFreeLoop (hd.length + 1) H hd.start

/-- `LinkedListAlloc()` (LinkedList.c:128-132): a zeroed head. -/
def linkedListAlloc : LinkedListHead := ⟨0, 0, 0, 0, 0, false⟩

/-- `defaultLLPTE` (LinkedList.c:10-12): the head of a node's PTE list, keyed by
`pte_t *`. -/
def defaultLLPTE : LinkedListHead := ⟨0, 4, 0, 0, 0, false⟩

/-- `defaultSwapLL` (unordered_map.c:17-21): the head of a swap-map bin, keyed by a
`SwapUniqueKey` with a `SwapData` and `vtable_Swap`. -/
def defaultSwapLL : LinkedListHead := ⟨0, 8, 8, 0, 0, true⟩

/-- A call on one list. -/
inductive Op where
  | add (a : NodeAlloc) (uniqueKey : List UInt8) (data : Option (List UInt8))
  | get (uniqueKey : Option (List UInt8))
  | remove (uniqueKey : Option (List UInt8))
  | removeNextMatching (start : Nat) (uniqueKey : Option (List UInt8))
  deriving DecidableEq, Repr

/-- One call: the head and nodes after it, and the node it returns (`none` for
`LinkedListAdd`, which returns nothing). -/
def step (hd : LinkedListHead) (H : NodeHeap) : Op → Except String (LinkedListHead × NodeHeap × Option Nat)
  | .add a k d =>
      let (hd, H) := linkedListAdd hd H a k d
      pure (hd, H, none)
  | .get k => do
      let r ← linkedListGet hd H k
      pure (hd, H, some r)
  | .remove k => do
      let (hd, H, r) ← linkedListRemove hd H k
      pure (hd, H, some r)
  | .removeNextMatching s k => do
      let (hd, H, r) ← linkedListNodeRemoveNextMatching s hd H k
      pure (hd, H, some r)

/-- A sequence of calls, each on the head and nodes the one before left, with what each
returned. -/
def run (hd : LinkedListHead) (H : NodeHeap) : List Op → Except String (LinkedListHead × NodeHeap × List (Option Nat))
  | [] => pure (hd, H, [])
  | op :: ops => do
      let (hd, H, r) ← step hd H op
      let (hd, H, rs) ← run hd H ops
      pure (hd, H, r :: rs)

end LinkedList

end Xv6
