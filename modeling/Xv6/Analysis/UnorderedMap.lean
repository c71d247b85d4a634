import Xv6.Model.UnorderedMap
import Xv6.Analysis.LinkedList

/-!
# The retry loops of the swap map do not end

`LinkedListNodeGetNextMatching(start, head, key)` starts its search at `start` itself
(`cur = start`, LinkedList.c:81), and the loops of `SwapMapAdd` and `SwapMapRemove` call
it on the node they just tried, which has the key.  So the search gives that node back
(`linkedListNodeGetNextMatching_self`), and a pass whose `SwapDataAddPTE` or
`SwapDataRemovePTE` fails, changing nothing, comes back to the state it started from:
the loop never ends (`Loop.diverges_of_fixed`).

`FirstWithKey` is the state both functions start from when the key's bin is in use: the
bin well formed, its first node with the key `n₀`, and the `PTEs` of `n₀` well formed.
From there `SwapMapAdd` with a parent PTE that `n₀` does not hold, and `SwapMapRemove`
of a PTE that `n₀` does not hold, run forever, whatever else the bin holds: a PTE
registered in a later node with the same key is never reached.
-/

set_option autoImplicit false

namespace Xv6

namespace UnorderedMap

open LinkedList

/-! ## The calls on the lists -/

/-- `LinkedListGet` on a well-formed list: the first node whose key matches, or `NULL`. -/
theorem linkedListGet_of_wellFormed {hd : LinkedListHead} {H : NodeHeap} {order : List Nat}
    (h : WellFormed hd H order) (k : Option (List UInt8)) :
    linkedListGet hd H k = .ok ((order.find? (nodeMatches hd H k)).getD 0) := by
  rw [linkedListGet_eq k h, find_view]

/-- INTERNAL: a node that a search of a well-formed list finds is not `NULL`. -/
theorem ne_zero_of_find? {hd : LinkedListHead} {H : NodeHeap} {order : List Nat}
    (h : WellFormed hd H order) {p : Nat → Bool} {n : Nat} (hn : order.find? p = some n) : n ≠ 0 :=
  fun h0 => h.linear.not_null (h0 ▸ List.mem_of_find?_eq_some hn)

/-- The search from a node that has the key returns that node: the loop of
`LinkedListNodeGetNextMatching` tests `start` before it follows `next`. -/
theorem linkedListNodeGetNextMatching_self {hd : LinkedListHead} {H : NodeHeap}
    {k : Option (List UInt8)} {node : Nat} (hn : node ≠ 0) (hk : nodeMatches hd H k node = true) :
    linkedListNodeGetNextMatching node hd H k = .ok node := by
  rw [linkedListNodeGetNextMatching, getNextMatchingLoop, if_neg hn,
    if_pos (show keyMatches hd.keySize k (H.key node) = true from hk)]
  rfl

/-- With no key, the removal from a node removes that node. -/
theorem linkedListNodeRemoveNextMatching_self {hd : LinkedListHead} {H : NodeHeap} {node : Nat}
    (hn : node ≠ 0) : linkedListNodeRemoveNextMatching node hd H none = .ok (removeNode hd H node) := by
  rw [linkedListNodeRemoveNextMatching, removeNextMatchingLoop, if_neg hn,
    if_pos (show keyMatches hd.keySize none (H.key node) = true from rfl)]
  rfl

/-- The PTE pointer `q` is in the `PTEs` of the bin node `n`, whose nodes are `ptes`. -/
def registered (m : MapMem) (n : Nat) (ptes : List Nat) (q : Nat) : Bool :=
  ptes.any (nodeMatches (m.heads (ptesOf (m.nodes.data n))) m.nodes (some (uintBytes q)))

/-- INTERNAL: a PTE pointer not in the list is not found there. -/
theorem find?_eq_none_of_not_registered {m : MapMem} {n : Nat} {ptes : List Nat} {q : Nat}
    (hq : registered m n ptes q = false) :
    ptes.find? (nodeMatches (m.heads (ptesOf (m.nodes.data n))) m.nodes (some (uintBytes q))) = none :=
  List.find?_eq_none.2 fun x hx => by simpa using List.any_eq_false.1 hq x hx

section Missing

variable {m : MapMem} {node : Nat} {ptes : List Nat} {q : Nat}
  (hwf : WellFormed (m.heads (ptesOf (m.nodes.data node))) m.nodes ptes)
  (hq : registered m node ptes q = false)

include hwf hq

/-- `SwapDataAddPTE` with a parent that the node's `PTEs` do not hold returns `FALSE` and
writes nothing. -/
theorem swapDataAddPTE_of_not_registered (pteNode pte : Nat) :
    swapDataAddPTE m pteNode node (some q) pte = .ok (m, false) := by
  simp only [swapDataAddPTE, linkedListGet_of_wellFormed hwf, find?_eq_none_of_not_registered hq]
  rfl

/-- `SwapDataRemovePTE` of a PTE that the node's `PTEs` do not hold returns `FALSE` and
writes nothing. -/
theorem swapDataRemovePTE_of_not_registered :
    swapDataRemovePTE m node q = .ok (m, false) := by
  simp only [swapDataRemovePTE, linkedListGet_of_wellFormed hwf, find?_eq_none_of_not_registered hq]
  rfl

end Missing

/-- INTERNAL: a PTE pointer in the list is found at some node of it. -/
theorem exists_find?_of_registered {m : MapMem} {n : Nat} {ptes : List Nat} {q : Nat}
    (hq : registered m n ptes q = true) : ∃ p,
      ptes.find? (nodeMatches (m.heads (ptesOf (m.nodes.data n))) m.nodes (some (uintBytes q))) = some p :=
  Option.isSome_iff_exists.1 (List.find?_isSome.2 (List.any_eq_true.1 hq))

section Found

variable {m : MapMem} {node : Nat} {ptes : List Nat} {q : Nat}
  (hwf : WellFormed (m.heads (ptesOf (m.nodes.data node))) m.nodes ptes)
  (hq : registered m node ptes q = true)

include hwf hq

/-- `SwapDataAddPTE` with a parent that the node's `PTEs` hold adds, and returns `TRUE`. -/
theorem swapDataAddPTE_of_registered (pteNode pte : Nat) :
    ∃ m', swapDataAddPTE m pteNode node (some q) pte = .ok (m', true) := by
  obtain ⟨p, hp⟩ := exists_find?_of_registered hq
  have hp0 : p ≠ 0 := ne_zero_of_find? hwf hp
  have hfound : (p != 0) = true := by simpa using hp0
  simp only [swapDataAddPTE, linkedListGet_of_wellFormed hwf, hp, Option.getD_some, Run.ok_bind,
    hfound]
  exact ⟨_, rfl⟩

/-- `SwapDataRemovePTE` of a PTE that the node's `PTEs` hold removes it, and returns `TRUE`. -/
theorem swapDataRemovePTE_of_registered : ∃ m', swapDataRemovePTE m node q = .ok (m', true) := by
  obtain ⟨p, hp⟩ := exists_find?_of_registered hq
  have hp0 : p ≠ 0 := ne_zero_of_find? hwf hp
  simp only [swapDataRemovePTE, linkedListGet_of_wellFormed hwf, hp, Option.getD_some, Run.ok_bind,
    if_pos hp0, linkedListNodeRemoveNextMatching_self hp0]
  exact ⟨_, rfl⟩

end Found

/-! ## The state both functions search -/

/-- The state `SwapMapAdd` and `SwapMapRemove` search: the bin of `key` is in use and well
formed with the nodes `order`, its first node with the key is `n₀`, and the `PTEs` of `n₀`
are well formed with the nodes `ptes`. -/
structure FirstWithKey (kernEnd : Nat) (m : MapMem) (key : SwapUniqueKey) (order : List Nat)
    (n₀ : Nat) (ptes : List Nat) : Prop where
  used : m.bins (swapMapHash kernEnd key) ≠ 0
  bin : WellFormed (m.heads (m.bins (swapMapHash kernEnd key))) m.nodes order
  first : order.find? (nodeMatches (m.heads (m.bins (swapMapHash kernEnd key))) m.nodes
    (some (keyBytes key))) = some n₀
  ptes_wf : WellFormed (m.heads (ptesOf (m.nodes.data n₀))) m.nodes ptes

section FirstWithKey

variable {kernEnd : Nat} {m : MapMem} {key : SwapUniqueKey} {order : List Nat} {n₀ : Nat}
  {ptes : List Nat} (h : FirstWithKey kernEnd m key order n₀ ptes)

include h

theorem FirstWithKey.ne_zero : n₀ ≠ 0 := ne_zero_of_find? h.bin h.first

theorem FirstWithKey.matches :
    nodeMatches (m.heads (m.bins (swapMapHash kernEnd key))) m.nodes (some (keyBytes key)) n₀ = true :=
  List.find?_some h.first

/-- A bin in use is not allocated again. -/
theorem FirstWithKey.getBin (binHead : Nat) :
    unorderedMapGetBin kernEnd m binHead key = (m, m.bins (swapMapHash kernEnd key)) := by
  rw [unorderedMapGetBin, if_neg h.used]

theorem FirstWithKey.get :
    linkedListGet (m.heads (m.bins (swapMapHash kernEnd key))) m.nodes (some (keyBytes key)) =
      .ok n₀ := by
  rw [linkedListGet_of_wellFormed h.bin, h.first]
  rfl

/-! ## The passes that come back to where they started -/

/-- A pass of the loop of `SwapMapAdd` at `n₀` with a parent `n₀` does not hold: the
parent is not found, and the search for the next node with the key returns `n₀`. -/
theorem addPass_of_not_registered (al : MapAlloc) {q : Nat} (hq : registered m n₀ ptes q = false)
    (pte : Nat) :
    addPass al (m.bins (swapMapHash kernEnd key)) key (some q) pte (m, n₀) = .ok (.inr (m, n₀)) := by
  simp only [addPass, swapDataAddPTE_of_not_registered h.ptes_wf hq, Run.ok_bind,
    linkedListNodeGetNextMatching_self h.ne_zero h.matches, if_neg h.ne_zero]
  rfl

/-- A pass of the loop of `SwapMapRemove` at `n₀` for a PTE `n₀` does not hold: nothing is
removed, and the search for the next node with the key returns `n₀`. -/
theorem removePass_of_not_registered {q : Nat} (hq : registered m n₀ ptes q = false) :
    removePass (m.bins (swapMapHash kernEnd key)) key q (m, n₀) = .ok (.inr (m, n₀)) := by
  simp only [removePass, if_neg h.ne_zero, swapDataRemovePTE_of_not_registered h.ptes_wf hq,
    Run.ok_bind, linkedListNodeGetNextMatching_self h.ne_zero h.matches]
  rfl

/-! ## The calls that never return -/

variable {held : List Spinlock} (hlock : Spinlock.swapMap ∉ held)

include hlock

/-- `SwapMapAdd` with a parent PTE that the first node with the key does not hold never
returns: its loop is still going after any number of passes. -/
theorem swapMapAdd_diverges (al : MapAlloc) {q : Nat} (hq : registered m n₀ ptes q = false)
    (pte fuel : Nat) : swapMapAdd kernEnd fuel m held al key (some q) pte = .ok none := by
  have hloop := Loop.diverges_of_fixed (addPass_of_not_registered h al hq pte) fuel
  simp only [swapMapAdd, acquire, if_neg hlock, Run.ok_bind, h.getBin, h.get, if_neg h.ne_zero,
    hloop]
  rfl

/-- `SwapMapRemove` of a PTE that the first node with the key does not hold never returns. -/
theorem swapMapRemove_diverges (binHead : Nat) {q : Nat} (hq : registered m n₀ ptes q = false)
    (fuel : Nat) : swapMapRemove kernEnd fuel m held binHead key q = .ok none := by
  have hloop := Loop.diverges_of_fixed (removePass_of_not_registered h hq) fuel
  simp only [swapMapRemove, acquire, if_neg hlock, Run.ok_bind, h.getBin, h.get, hloop]
  rfl

/-! ## The calls that return -/

/-- `SwapMapAdd` with no parent PTE, or with one that the first node with the key holds,
returns after the first pass of its loop. -/
theorem swapMapAdd_returns (al : MapAlloc) {ppte : Option Nat}
    (hp : ∀ q ∈ ppte, registered m n₀ ptes q = true) (pte : Nat) :
    ∃ m', swapMapAdd kernEnd 1 m held al key ppte pte = .ok (some (m', held)) := by
  -- the first `SwapDataAddPTE` adds
  obtain ⟨m', hadd⟩ : ∃ m', swapDataAddPTE m al.pteNode n₀ ppte pte = .ok (m', true) := by
    cases ppte with
    | none => exact ⟨_, rfl⟩
    | some q => exact swapDataAddPTE_of_registered h.ptes_wf (hp q rfl) al.pteNode pte
  have hpass : addPass al (m.bins (swapMapHash kernEnd key)) key ppte pte (m, n₀) = .ok (.inl m') := by
    simp only [addPass, hadd, Run.ok_bind]
    rfl
  refine ⟨m', ?_⟩
  simp only [swapMapAdd, acquire, if_neg hlock, Run.ok_bind, h.getBin, h.get, if_neg h.ne_zero,
    Loop.iterate_exit hpass]
  rfl

/-- `SwapMapRemove` of a PTE that the first node with the key holds returns after the first
pass of its loop. -/
theorem swapMapRemove_returns (binHead : Nat) {q : Nat} (hq : registered m n₀ ptes q = true) :
    ∃ m', swapMapRemove kernEnd 1 m held binHead key q = .ok (some (m', held)) := by
  obtain ⟨m₁, hrem⟩ := swapDataRemovePTE_of_registered h.ptes_wf hq
  have hpass : removePass (m.bins (swapMapHash kernEnd key)) key q (m, n₀) = .ok (.inl (m₁, n₀)) := by
    simp only [removePass, if_neg h.ne_zero, hrem, Run.ok_bind]
    rfl
  -- after the loop the node goes or stays; either way the call returns
  by_cases hempty : (m₁.heads (ptesOf (m₁.nodes.data n₀))).length = 0
  · simp only [swapMapRemove, acquire, if_neg hlock, Run.ok_bind, h.getBin, h.get,
      Loop.iterate_exit hpass, if_pos hempty, linkedListNodeRemoveNextMatching_self h.ne_zero]
    exact ⟨_, rfl⟩
  · refine ⟨m₁, ?_⟩
    simp only [swapMapRemove, acquire, if_neg hlock, Run.ok_bind, h.getBin, h.get,
      Loop.iterate_exit hpass, if_neg hempty]
    rfl

end FirstWithKey

/-- From a bin whose first node with the key does not hold the PTE `q`, neither retry loop
ends: `SwapMapAdd` with `q` as the parent and `SwapMapRemove` of `q` never return, at any
fuel, whether or not a later node with the key holds `q`. -/
theorem swapMap_retry_loops_never_end {kernEnd : Nat} {m : MapMem} {key : SwapUniqueKey}
    {order : List Nat} {n₀ : Nat} {ptes : List Nat} (h : FirstWithKey kernEnd m key order n₀ ptes)
    {held : List Spinlock} (hlock : Spinlock.swapMap ∉ held) (q : Nat)
    (hq : registered m n₀ ptes q = false) :
    (∀ al pte fuel, swapMapAdd kernEnd fuel m held al key (some q) pte = .ok none) ∧
      ∀ binHead fuel, swapMapRemove kernEnd fuel m held binHead key q = .ok none :=
  ⟨fun al pte fuel => swapMapAdd_diverges h hlock al hq pte fuel,
    fun binHead fuel => swapMapRemove_diverges h hlock binHead hq fuel⟩

/-! ## Two nodes under one key -/

/-- The key of a page at `0x3000` swapped out of the frame at `0x200000`. -/
def sharedKey : SwapUniqueKey := ⟨0x3000, 0x200000⟩

/-- The end of the kernel image. -/
def sharedKernEnd : Nat := 0x200000

/-- The swap map after two swaps of that page from that frame: its bin, at `0x5000`, holds
the nodes `0x100` and `0x200`, both under the key; the `PTEs` of the first, at `0x1100`,
hold the PTE pointer `0x1000` (node `0x300`), those of the second, at `0x1200`, the PTE
pointer `0x2000` (node `0x400`). -/
def sharedKeyMap : MapMem where
  bins := Function.update (fun _ => 0) (swapMapHash sharedKernEnd sharedKey) 0x5000
  heads := fun p =>
    if p = 0x5000 then ⟨2, 8, 8, 0x100, 0x200, true⟩
    else if p = 0x1100 then ⟨1, 4, 0, 0x300, 0x300, false⟩
    else if p = 0x1200 then ⟨1, 4, 0, 0x400, 0x400, false⟩
    else linkedListAlloc
  nodes :=
    { links := ⟨fun a => if a = 0x100 then 0x200 else 0, fun a => if a = 0x200 then 0x100 else 0⟩
      key := fun a =>
        if a = 0x100 ∨ a = 0x200 then keyBytes sharedKey
        else if a = 0x300 then uintBytes 0x1000
        else if a = 0x400 then uintBytes 0x2000
        else []
      data := fun a =>
        if a = 0x100 then swapDataBytes 0 0x1100
        else if a = 0x200 then swapDataBytes 1 0x1200
        else []
      live := fun a => a = 0x100 ∨ a = 0x200 ∨ a = 0x300 ∨ a = 0x400 }

theorem sharedKeyMap_bin : sharedKeyMap.bins (swapMapHash sharedKernEnd sharedKey) = 0x5000 := by
  show Function.update (fun _ => 0) (swapMapHash sharedKernEnd sharedKey) 0x5000
    (swapMapHash sharedKernEnd sharedKey) = 0x5000
  exact Function.update_self ..

theorem sharedKeyMap_first : FirstWithKey sharedKernEnd sharedKeyMap sharedKey [0x100, 0x200] 0x100 [0x300] := by
  refine ⟨?_, ?_, ?_, ?_⟩
  · rw [sharedKeyMap_bin]
    decide
  · rw [sharedKeyMap_bin]
    exact ⟨⟨List.isChain_pair.2 (And.intro rfl rfl), by decide, by decide, by decide, by decide⟩,
      rfl, rfl, rfl, by decide⟩
  · rw [sharedKeyMap_bin]
    decide
  · exact ⟨⟨List.isChain_singleton _, by decide, by decide, by decide, by decide⟩,
      rfl, rfl, rfl, by decide⟩

/-- The second node has the key and holds the PTE pointer `0x2000`, which the first does
not: neither `SwapMapAdd` with it as the parent nor `SwapMapRemove` of it returns. -/
theorem swapMap_shared_key_loops_never_end :
    nodeMatches (sharedKeyMap.heads 0x5000) sharedKeyMap.nodes (some (keyBytes sharedKey)) 0x200 = true ∧
      registered sharedKeyMap 0x200 [0x400] 0x2000 = true ∧
      registered sharedKeyMap 0x100 [0x300] 0x2000 = false ∧
      (∀ al pte fuel, swapMapAdd sharedKernEnd fuel sharedKeyMap [] al sharedKey (some 0x2000) pte = .ok none) ∧
      ∀ binHead fuel, swapMapRemove sharedKernEnd fuel sharedKeyMap [] binHead sharedKey 0x2000 = .ok none :=
  ⟨by decide, by decide, by decide,
    swapMap_retry_loops_never_end sharedKeyMap_first (List.not_mem_nil) 0x2000 (by decide)⟩

/-- INTERNAL: a call that never returns when `b` is false, and returns after one pass
when `b` is true, returns at some fuel, and after one pass, exactly when `b` is true. -/
theorem returns_iff {α : Type} {b : Bool} {call : Nat → Except String (Option α)}
    (hdiv : b = false → ∀ fuel, call fuel = .ok none) (hret : b = true → ∃ r, call 1 = .ok (some r)) :
    ((∃ fuel r, call fuel = .ok (some r)) ↔ b = true) ∧ ((∃ r, call 1 = .ok (some r)) ↔ b = true) := by
  have hsome : (∃ fuel r, call fuel = .ok (some r)) → b = true := by
    rintro ⟨fuel, r, hr⟩
    cases hb : b with
    | true => rfl
    | false =>
      rw [hdiv hb fuel] at hr
      exact absurd hr (by simp)
  refine ⟨⟨hsome, fun hb => ?_⟩, ⟨fun ⟨r, hr⟩ => hsome ⟨1, r, hr⟩, hret⟩⟩
  obtain ⟨r, hr⟩ := hret hb
  exact ⟨1, r, hr⟩

/-- The retry loops end exactly when the first node with the key decides.  From a bin in
use, `SwapMapAdd` with the parent PTE `q` and `SwapMapRemove` of `q` return, at some fuel,
if and only if the first node with the key holds `q`, and then they return after one pass;
`SwapMapAdd` with no parent always returns after one pass. -/
theorem swapMap_loops_return_iff_first_holds {kernEnd : Nat} {m : MapMem} {key : SwapUniqueKey}
    {order : List Nat} {n₀ : Nat} {ptes : List Nat} (h : FirstWithKey kernEnd m key order n₀ ptes)
    {held : List Spinlock} (hlock : Spinlock.swapMap ∉ held) (al : MapAlloc) (binHead pte q : Nat) :
    ((∃ fuel r, swapMapAdd kernEnd fuel m held al key (some q) pte = .ok (some r)) ↔
        registered m n₀ ptes q = true) ∧
      ((∃ r, swapMapAdd kernEnd 1 m held al key (some q) pte = .ok (some r)) ↔
        registered m n₀ ptes q = true) ∧
      ((∃ fuel r, swapMapRemove kernEnd fuel m held binHead key q = .ok (some r)) ↔
        registered m n₀ ptes q = true) ∧
      ((∃ r, swapMapRemove kernEnd 1 m held binHead key q = .ok (some r)) ↔
        registered m n₀ ptes q = true) ∧
      ∃ m', swapMapAdd kernEnd 1 m held al key none pte = .ok (some (m', held)) := by
  -- a registered parent returns after one pass, any other never does
  have hadd := returns_iff (b := registered m n₀ ptes q)
    (fun hq fuel => swapMapAdd_diverges h hlock al hq pte fuel) fun hq => by
      obtain ⟨m', hm'⟩ := swapMapAdd_returns h hlock al (fun _ hq' => Option.mem_some_iff.1 hq' ▸ hq) pte
      exact ⟨_, hm'⟩
  have hrem := returns_iff (b := registered m n₀ ptes q)
    (fun hq fuel => swapMapRemove_diverges h hlock binHead hq fuel) fun hq => by
      obtain ⟨m', hm'⟩ := swapMapRemove_returns h hlock binHead hq
      exact ⟨_, hm'⟩
  exact ⟨hadd.1, hadd.2, hrem.1, hrem.2,
    swapMapAdd_returns h hlock al (fun _ hq => absurd hq (Option.not_mem_none _)) pte⟩

/-- In the bin with two nodes under one key, the PTE pointer `0x1000` of the first node can
be given as the parent and removed; the calls return after one pass. -/
theorem swapMap_shared_key_first_returns :
    FirstWithKey sharedKernEnd sharedKeyMap sharedKey [0x100, 0x200] 0x100 [0x300] ∧
      registered sharedKeyMap 0x100 [0x300] 0x1000 = true ∧
      ((∃ fuel r, swapMapAdd sharedKernEnd fuel sharedKeyMap [] ⟨0x6000, 0x700, 0x1300, 0x500⟩
          sharedKey (some 0x1000) 0x3000 = .ok (some r)) ↔
        registered sharedKeyMap 0x100 [0x300] 0x1000 = true) ∧
      ((∃ r, swapMapAdd sharedKernEnd 1 sharedKeyMap [] ⟨0x6000, 0x700, 0x1300, 0x500⟩
          sharedKey (some 0x1000) 0x3000 = .ok (some r)) ↔
        registered sharedKeyMap 0x100 [0x300] 0x1000 = true) ∧
      ((∃ fuel r, swapMapRemove sharedKernEnd fuel sharedKeyMap [] 0x6000 sharedKey 0x1000 =
          .ok (some r)) ↔ registered sharedKeyMap 0x100 [0x300] 0x1000 = true) ∧
      ((∃ r, swapMapRemove sharedKernEnd 1 sharedKeyMap [] 0x6000 sharedKey 0x1000 =
          .ok (some r)) ↔ registered sharedKeyMap 0x100 [0x300] 0x1000 = true) ∧
      ∃ m', swapMapAdd sharedKernEnd 1 sharedKeyMap [] ⟨0x6000, 0x700, 0x1300, 0x500⟩ sharedKey none
        0x3000 = .ok (some (m', [])) :=
  ⟨sharedKeyMap_first, by decide,
    swapMap_loops_return_iff_first_holds sharedKeyMap_first List.not_mem_nil
      ⟨0x6000, 0x700, 0x1300, 0x500⟩ 0x6000 0x3000 0x1000⟩

end UnorderedMap

end Xv6
