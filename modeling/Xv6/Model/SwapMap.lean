import Xv6.Model.Param
import Xv6.Lib.RingBuf

/-!
# The swap map (unordered_map.c, LinkedList.c)

`swapMap` records where each swapped-out page went: a node keyed by the page's user
address and the frame it was swapped out of, holding the swap-file page number and the
PTEs that mapped the frame.  Nodes live in `SWAP_MAP_SIZE` bins chosen by
`SwapMapHash`.  A bin is a doubly linked list, here the list of its nodes from `start`
to `end`; the `PTEs` list of a node is the list of its PTE pointers.

`LinkedListAdd` appends at `end`.  `LinkedListGet` and `LinkedListNodeGetNextMatching`
return the first node from some position on whose key matches (keys are compared with
`memcmp`, so PTE pointers by value), and `LinkedListNodeRemoveNextMatching` unlinks one
node.  Nodes, keys and lists are allocated with `kmalloc`, whose arenas are not
modelled; a bin that `UnorderedMapGetBin` allocates on first use starts empty, as every
bin of the model does.
-/

set_option autoImplicit false

namespace Xv6

/-- `SwapUniqueKey` (LinkedList.h): the user address of a swapped-out page and the frame
it was swapped out of. -/
structure SwapUniqueKey where
  logA : Nat
  pa : Nat
  deriving DecidableEq

/-- A node of a bin: its key and its `SwapData` (LinkedList.h). -/
structure SwapNode where
  key : SwapUniqueKey
  /-- `swapfilePageNo`. -/
  pageNo : Nat
  /-- `PTEs`, the PTE pointers in list order. -/
  ptes : List Nat

/-- `SWAP_MAP_SIZE` (unordered_map.h): one bin per frame. -/
def swapMapSize : Nat := phystop / pgsize

/-- `SwapMapHash(map, key)` (unordered_map.c:47-51) for a kernel whose image ends at
`kernEnd`; `key->pa - V2P(end)` is a `uint` difference. -/
def swapMapHash (kernEnd : Nat) (key : SwapUniqueKey) : Nat :=
  (key.logA / pgsize + RingBuf.dist uintMod key.pa kernEnd / pgsize) % swapMapSize

/-- `swapMap`: the nodes of each bin, from `start` to `end`. -/
abbrev SwapMap := Nat → List SwapNode

namespace SwapMap

/-- The empty map of `SwapMapInit` (unordered_map.c:53-55). -/
def empty : SwapMap := fun _ => []

/-- `LinkedListGet(bin, key) != NULL`: some node of the bin has the key. -/
def hasKey (bin : List SwapNode) (key : SwapUniqueKey) : Bool :=
  bin.any fun n => n.key = key

/-- The search loop of `swapread_file` and `swapfree_file` (fs.c:1036-1066,
fs.c:1127-1141): from the first node with the key, the nodes with the key in turn,
until one holds the PTE pointer `pte`.  It finds the first such node of the bin, with
its index. -/
def findPte : List SwapNode → SwapUniqueKey → Nat → Option (Nat × SwapNode)
  | [], _, _ => none
  | n :: bin, key, pte =>
      if n.key = key ∧ pte ∈ n.ptes then some (0, n)
      else (findPte bin key pte).map fun r => (r.1 + 1, r.2)

/-- `LinkedListAdd(bin, &key, NULL)` followed by the writes to the new node's
`SwapData` (fs.c:919-925): a node with the key, the page number and the PTEs at the
end of the bin. -/
def add (m : SwapMap) (b : Nat) (node : SwapNode) : SwapMap :=
  Function.update m b (m b ++ [node])

/-- `LinkedListNodeRemoveNextMatching(node, bin, NULL)`: unlink the node at index `j`. -/
def remove (m : SwapMap) (b j : Nat) : SwapMap :=
  Function.update m b ((m b).eraseIdx j)

/-- Replace the node at index `j` of bin `b`. -/
def setNode (m : SwapMap) (b j : Nat) (node : SwapNode) : SwapMap :=
  Function.update m b ((m b).set j node)

end SwapMap

end Xv6
