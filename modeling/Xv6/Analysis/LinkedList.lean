import Xv6.Model.LinkedList
import Xv6.Lib.LinearDList
import Xv6.Lib.Run

/-!
# The linked list refines a list of entries

`WellFormed hd H order` is the representation invariant of `LinkedList.c`: the nodes
`order` are linked from `start` to `end` by `next` and back by `prev`, closed by `NULL`
at both ends (`DList.Linear`), `length` counts them, and their blocks are allocated.
`view H order` is what the list holds: each node with the bytes of its key and data.

Each call is a list operation on the view (`absStep`): `LinkedListAdd` appends the new
node's entry, `LinkedListGet` is `find?` on the keys, and the removals are `eraseP` from
the entry of `start` on, returning the erased entry's successor.  `step_refines` proves
that of one call, and `run_refines` of any sequence of calls, with the blocks each
removal frees.
-/

set_option autoImplicit false

namespace Xv6

namespace LinkedList

/-! ## Keys -/

/-- INTERNAL: the byte after the first is the first of the tail. -/
theorem getD_succ_eq_tail (s : List UInt8) (i : Nat) : s.getD (i + 1) 0 = s.tail.getD i 0 := by
  cases s <;> simp

/-- INTERNAL: the first byte of a buffer is its `headD`. -/
theorem getD_zero_eq_headD (s : List UInt8) : s.getD 0 0 = s.headD 0 := by
  cases s <;> simp

/-! ## The representation invariant -/

/-- The head and the nodes hold the list `order`, from `start` to `end`. -/
structure WellFormed (hd : LinkedListHead) (H : NodeHeap) (order : List Nat) : Prop where
  linear : DList.Linear H.links 0 order
  start_eq : hd.start = order.headD 0
  last_eq : hd.last = order.getLastD 0
  length_eq : hd.length = order.length
  live : ∀ a ∈ order, H.live a = true

section WellFormed

variable {hd : LinkedListHead} {H : NodeHeap} {order : List Nat}

theorem WellFormed.start_eq_zero_iff (h : WellFormed hd H order) : hd.start = 0 ↔ hd.length = 0 := by
  rw [h.start_eq, h.length_eq]
  cases order with
  | nil => simp
  | cons a t =>
      have ha : a ≠ 0 := fun ha => h.linear.not_null (ha ▸ List.mem_cons_self)
      simpa using ha

theorem WellFormed.last_eq_zero_iff (h : WellFormed hd H order) : hd.last = 0 ↔ hd.length = 0 := by
  rw [h.last_eq, h.length_eq]
  rcases List.eq_nil_or_concat order with rfl | ⟨o, a, rfl⟩
  · simp
  · have ha : a ≠ 0 := fun ha => h.linear.not_null (by simp [ha])
    simpa [List.getLastD_concat] using ha

/-- A zeroed head holds the empty list, whatever the nodes. -/
theorem wellFormed_nil (H : NodeHeap) {hd : LinkedListHead} (hs : hd.start = 0) (hl : hd.last = 0)
    (hn : hd.length = 0) : WellFormed hd H [] :=
  ⟨DList.Linear.nil H.links 0, hs, hl, hn, by simp⟩

end WellFormed

/-! ## The abstract list -/

/-- The fields of a head that its calls never change. -/
structure Shape where
  keySize : Nat
  dataSize : Nat
  vtable : Bool
  deriving DecidableEq, Repr

/-- The shape of a head. -/
def LinkedListHead.shape (hd : LinkedListHead) : Shape := ⟨hd.keySize, hd.dataSize, hd.vtable⟩

/-- An entry of the list: a node with the bytes of its key and of its data. -/
abbrev Entry := Nat × List UInt8 × List UInt8

/-- The entry of the node `a`. -/
def entryOf (H : NodeHeap) (a : Nat) : Entry := (a, H.key a, H.data a)

/-- What the nodes `order` hold, in order. -/
def view (H : NodeHeap) (order : List Nat) : List Entry := order.map (entryOf H)

@[simp] theorem view_nil (H : NodeHeap) : view H [] = [] := rfl

@[simp] theorem view_append (H : NodeHeap) (l₁ l₂ : List Nat) :
    view H (l₁ ++ l₂) = view H l₁ ++ view H l₂ := List.map_append

@[simp] theorem view_cons (H : NodeHeap) (a : Nat) (l : List Nat) :
    view H (a :: l) = entryOf H a :: view H l := rfl

/-- The view reads only the keys and the data of the list's nodes. -/
theorem view_congr {H H' : NodeHeap} {l : List Nat} (hk : ∀ x ∈ l, H'.key x = H.key x)
    (hd : ∀ x ∈ l, H'.data x = H.data x) : view H' l = view H l :=
  List.map_congr_left fun x hx => by rw [entryOf, entryOf, hk x hx, hd x hx]

/-- The nodes of the entries are the list's nodes. -/
@[simp] theorem view_map_fst (H : NodeHeap) (l : List Nat) : (view H l).map Prod.fst = l := by
  induction l with
  | nil => rfl
  | cons a l ih => simp [ih, entryOf]

/-- The calls the list's users make: a new node is not `NULL` and not in the list, and a
removal from `start` starts at `NULL` or at a node of the list. -/
def admissible (l : List Entry) : Op → Bool
  | .add a _ _ => a.node ≠ 0 && a.node ∉ l.map Prod.fst
  | .removeNextMatching s _ => s = 0 || s ∈ l.map Prod.fst
  | _ => true

namespace Shape

variable (sh : Shape)

/-- The entry of a node added with the key `k` and the data `d`: `keySize` bytes of `k`
over the new key object, and `dataSize` bytes of `d` over the new data object, which is
left zeroed, or as `dataAlloc()` made it, when there is no data. -/
def newEntry (a : NodeAlloc) (k : List UInt8) (d : Option (List UInt8)) : Entry :=
  let keyObj := if sh.vtable then a.keyObj else List.replicate sh.keySize 0
  let dataObj := if sh.vtable then a.dataObj else List.replicate sh.dataSize 0
  (a.node, memmove keyObj k sh.keySize,
    match d with
    | none => dataObj
    | some d => memmove dataObj d sh.dataSize)

/-- The key test on entries. -/
def matchesKey (k : Option (List UInt8)) (e : Entry) : Bool := keyMatches sh.keySize k e.2.1

/-- The node of the first entry whose key matches, or `NULL`. -/
def find (k : Option (List UInt8)) (l : List Entry) : Nat :=
  ((l.find? (sh.matchesKey k)).map Prod.fst).getD 0

/-- The entries without the first whose key matches, and the node after that one
(`NULL` when none matched or it was the last). -/
def erase (k : Option (List UInt8)) (l : List Entry) : List Entry × Nat :=
  (l.eraseP (sh.matchesKey k),
    ((((l.dropWhile fun e => !sh.matchesKey k e).drop 1).head?).map Prod.fst).getD 0)

/-- What a call does to the entries, and what it returns.  A removal from `start` works
on the entries from `start`'s on, none when `start` is `NULL`. -/
def absStep (l : List Entry) : Op → List Entry × Option Nat
  | .add a k d => (l ++ [sh.newEntry a k d], none)
  | .get k => (l, some (sh.find k l))
  | .remove k => ((sh.erase k l).1, some (sh.erase k l).2)
  | .removeNextMatching s k =>
      (l.takeWhile (fun e => e.1 ≠ s) ++ (sh.erase k (l.dropWhile fun e => e.1 ≠ s)).1,
        some (sh.erase k (l.dropWhile fun e => e.1 ≠ s)).2)

/-- A sequence of calls on the entries, with what each returns. -/
def absRun : List Entry → List Op → List Entry × List (Option Nat)
  | l, [] => (l, [])
  | l, op :: ops => ((absRun (sh.absStep l op).1 ops).1, (sh.absStep l op).2 :: (absRun (sh.absStep l op).1 ops).2)

/-- Every call of the sequence is admissible where it is made. -/
def runAdmissible : List Entry → List Op → Bool
  | _, [] => true
  | l, op :: ops => admissible l op && runAdmissible (sh.absStep l op).1 ops

end Shape

/-- The node a call adds. -/
def addedOf : Op → List Nat
  | .add a _ _ => [a.node]
  | _ => []

/-- The nodes a sequence of calls adds. -/
def addedNodes (ops : List Op) : List Nat := ops.flatMap addedOf

/-- What calls leave: a well-formed list `order'` holding `abs`, a head of the same shape,
and each block outside `order'` free if it is one of `touched` (the nodes that were in the
list or were added), as in `H` otherwise. -/
structure Leaves (hd : LinkedListHead) (H : NodeHeap) (touched : List Nat) (abs : List Entry)
    (hd' : LinkedListHead) (H' : NodeHeap) (order' : List Nat) : Prop where
  wellFormed : WellFormed hd' H' order'
  view_eq : view H' order' = abs
  shape_eq : hd'.shape = hd.shape
  frees : ∀ x, x ∉ order' → H'.live x = if x ∈ touched then false else H.live x

/-- A call that changes nothing leaves the list as it was. -/
theorem Leaves.unchanged {hd : LinkedListHead} {H : NodeHeap} {order : List Nat}
    (h : WellFormed hd H order) : Leaves hd H order (view H order) hd H order :=
  ⟨h, Eq.refl _, Eq.refl _, fun x hx => by rw [if_neg hx]⟩

/-! ## The search loops -/

section Loops

variable (hd : LinkedListHead) (H : NodeHeap) (uniqueKey : Option (List UInt8))

/-- INTERNAL: the key test on the nodes. -/
def nodeMatches (a : Nat) : Bool := keyMatches hd.keySize uniqueKey (H.key a)

/-- From the first node of a suffix of the list, the search returns the first node of the
suffix whose key matches, or `NULL`. -/
theorem getNextMatchingLoop_suffix {l₁ l₂ : List Nat} (hl : DList.Linear H.links 0 (l₁ ++ l₂))
    {fuel : Nat} (hf : l₂.length < fuel) :
    getNextMatchingLoop hd H uniqueKey fuel (l₂.headD 0) =
      .ok ((l₂.find? (nodeMatches hd H uniqueKey)).getD 0) := by
  -- induction on the nodes still to visit; the cursor is the first of them
  induction l₂ generalizing l₁ fuel with
  | nil =>
      obtain ⟨f, rfl⟩ : ∃ f, fuel = f + 1 := ⟨fuel - 1, by simp at hf; omega⟩
      rfl
  | cons c t ih =>
      obtain ⟨f, rfl⟩ : ∃ f, fuel = f + 1 := ⟨fuel - 1, by simp at hf; omega⟩
      have hc : c ≠ 0 := fun hc => hl.not_null (by simp [hc])
      rw [List.headD_cons, getNextMatchingLoop, if_neg hc]
      by_cases hm : nodeMatches hd H uniqueKey c = true
      · rw [show keyMatches hd.keySize uniqueKey (H.key c) = true from hm, if_pos rfl,
          List.find?_cons_of_pos hm]
        rfl
      · rw [if_neg (show ¬keyMatches hd.keySize uniqueKey (H.key c) = true from hm),
          List.find?_cons_of_neg hm, hl.next_of_split]
        have hl' : DList.Linear H.links 0 ((l₁ ++ [c]) ++ t) := by simpa using hl
        exact ih hl' (by simp at hf; omega)

/-- The removal loop is the search followed by the removal of the node found. -/
theorem removeNextMatchingLoop_eq (fuel cur : Nat) :
    removeNextMatchingLoop hd H uniqueKey fuel cur =
      (getNextMatchingLoop hd H uniqueKey fuel cur).map
        (fun c => if c = 0 then (hd, H, 0) else removeNode hd H c) := by
  induction fuel generalizing cur with
  | zero => rfl
  | succ f ih =>
      rw [removeNextMatchingLoop, getNextMatchingLoop]
      by_cases h0 : cur = 0
      · rw [if_pos h0, if_pos h0]
        rfl
      · rw [if_neg h0, if_neg h0]
        by_cases hm : keyMatches hd.keySize uniqueKey (H.key cur) = true
        · rw [if_pos hm, if_pos hm]
          show _ = Except.ok (if cur = 0 then _ else _)
          rw [if_neg h0]
          rfl
        · rw [if_neg hm, if_neg hm]
          exact ih _

end Loops

/-! ## Removing a node -/

section Remove

variable (hd : LinkedListHead) (H : NodeHeap) (c : Nat)

/-- The statements at a matched node, at once: the head's ends move past `c` where it
was one, the links are `unlinkLinks`, `c` is freed and its successor returned. -/
theorem removeNode_eq (hpc : H.links.prev c ≠ c) :
    removeNode hd H c =
      ({ hd with length := hd.length - 1,
                 start := if H.links.prev c = 0 then H.links.next c else hd.start,
                 last := if H.links.next c = 0 then H.links.prev c else hd.last },
       { H with links := DList.unlinkLinks H.links 0 c, live := Function.update H.live c false },
       H.links.next c) := by
  -- `cur->next` is read again after `cur->prev->next` was written, which is not `cur`
  by_cases hp : H.links.prev c = 0 <;> by_cases hn : H.links.next c = 0 <;>
    simp only [removeNode, DList.unlinkLinks, linkedListNodeFree, hp, hn, if_true, if_false,
      DList.setPrev_next, DList.setNext_prev, DList.setNext_next, Ne.symm hpc]

variable {hd H c}

/-- Removing a node of a well-formed list leaves the others well formed. -/
theorem removeNode_wellFormed {l₁ l₂ : List Nat} (h : WellFormed hd H (l₁ ++ c :: l₂)) :
    WellFormed (removeNode hd H c).1 (removeNode hd H c).2.1 (l₁ ++ l₂) := by
  have hc : c ∉ l₁ ++ l₂ := (List.nodup_cons.mp (List.nodup_middle.mp h.linear.nodup)).1
  rw [removeNode_eq hd H c h.linear.prev_ne_self]
  refine ⟨h.linear.unlink, ?_, ?_, ?_, ?_⟩
  · -- `start` moves to the successor exactly when `c` was first
    show (if H.links.prev c = 0 then H.links.next c else hd.start) = (l₁ ++ l₂).headD 0
    by_cases hp : H.links.prev c = 0
    · rw [if_pos hp, h.linear.next_of_split, h.linear.prev_eq_null_iff.mp hp, List.nil_append]
    · obtain ⟨f, t, rfl⟩ := List.exists_cons_of_ne_nil (mt h.linear.prev_eq_null_iff.mpr hp)
      rw [if_neg hp, h.start_eq]
      rfl
  · -- `end` moves to the predecessor exactly when `c` was last
    show (if H.links.next c = 0 then H.links.prev c else hd.last) = (l₁ ++ l₂).getLastD 0
    by_cases hn : H.links.next c = 0
    · rw [if_pos hn, h.linear.prev_of_split, h.linear.next_eq_null_iff.mp hn, List.append_nil]
    · have hne : l₂ ≠ [] := mt h.linear.next_eq_null_iff.mpr hn
      rw [if_neg hn, h.last_eq, List.getLastD_eq_getLast?, List.getLastD_eq_getLast?,
        List.getLast?_append_of_ne_nil _ (List.cons_ne_nil c l₂), List.getLast?_append_of_ne_nil _ hne,
        List.getLast?_cons_of_ne_nil hne]
  · show hd.length - 1 = (l₁ ++ l₂).length
    rw [h.length_eq]
    simp
  · intro a ha
    have hac : a ≠ c := fun hac => hc (hac ▸ ha)
    show Function.update H.live c false a = true
    rw [Function.update_of_ne hac]
    exact h.live a (by simp at ha ⊢; tauto)

end Remove

/-! ## Adding a node -/

section Add

variable (hd : LinkedListHead) (H : NodeHeap) (a : NodeAlloc) (uniqueKey : List UInt8)
  (data : Option (List UInt8))

/-- INTERNAL: the new node's data object after `LinkedListNodeInit`. -/
def newData : List UInt8 :=
  match data with
  | none => a.dataFor hd
  | some d => memmove (a.dataFor hd) d hd.dataSize

/-- `LinkedListAdd` at once: the links are `appendLinks` when `start` and `end` are
`NULL` together, the new node is allocated with its key and data. -/
theorem linkedListAdd_eq (hs : hd.start = 0 ↔ hd.last = 0) :
    linkedListAdd hd H a uniqueKey data =
      ({ hd with start := if hd.start = 0 then a.node else hd.start, last := a.node,
                 length := hd.length + 1 },
       { links := DList.appendLinks H.links 0 hd.last a.node,
         key := Function.update H.key a.node (memmove (a.keyFor hd) uniqueKey hd.keySize),
         data := Function.update H.data a.node (newData hd a data),
         live := Function.update H.live a.node true }) := by
  cases data <;> by_cases h0 : hd.start = 0 <;>
    simp [linkedListAdd, linkedListNodeCreate, linkedListNodeInit, linkedListNodeAlloc, newData,
      DList.appendLinks, h0, hs.mp, mt hs.mpr]

end Add

/-! ## The calls on the view -/

section Refines

variable {hd : LinkedListHead} {H : NodeHeap} {order : List Nat} (uniqueKey : Option (List UInt8))

/-- INTERNAL: the key test on the entries is the key test on their nodes. -/
theorem matchesKey_comp_entryOf :
    hd.shape.matchesKey uniqueKey ∘ entryOf H = nodeMatches hd H uniqueKey := rfl

/-- INTERNAL: the test `LinkedListNodeRemoveNextMatching` skips on. -/
theorem notMatchesKey_comp_entryOf :
    (fun e => !hd.shape.matchesKey uniqueKey e) ∘ entryOf H = fun a => !nodeMatches hd H uniqueKey a := rfl

/-- INTERNAL: the node of an entry. -/
theorem fst_comp_entryOf : Prod.fst ∘ entryOf H = id := rfl

theorem find_view (l : List Nat) :
    hd.shape.find uniqueKey (view H l) = (l.find? (nodeMatches hd H uniqueKey)).getD 0 := by
  rw [Shape.find, view, List.find?_map, matchesKey_comp_entryOf, Option.map_map, fst_comp_entryOf,
    Option.map_id]
  rfl

/-- No key matches: nothing is erased, and the node returned is `NULL`. -/
theorem erase_view_of_none {l : List Nat} (hn : l.find? (nodeMatches hd H uniqueKey) = none) :
    hd.shape.erase uniqueKey (view H l) = (view H l, 0) := by
  have hall := List.find?_eq_none.mp hn
  have hdrop : (l.dropWhile fun a => !nodeMatches hd H uniqueKey a) = [] :=
    List.dropWhile_eq_nil_iff.mpr fun x hx => by simpa using hall x hx
  rw [Shape.erase, view, List.eraseP_map, matchesKey_comp_entryOf, List.eraseP_of_forall_not hall,
    List.dropWhile_map, notMatchesKey_comp_entryOf, hdrop]
  rfl

/-- The first match is `c`: it is erased, and its successor returned. -/
theorem erase_view_of_split {m post : List Nat} {c : Nat}
    (hm : ∀ x ∈ m, (!nodeMatches hd H uniqueKey x) = true) (hc : nodeMatches hd H uniqueKey c = true) :
    hd.shape.erase uniqueKey (view H (m ++ c :: post)) = (view H (m ++ post), post.headD 0) := by
  have hm' : ∀ x ∈ m, ¬nodeMatches hd H uniqueKey x = true := fun x hx => by simpa using hm x hx
  have hdrop : ((m ++ c :: post).dropWhile fun a => !nodeMatches hd H uniqueKey a) = c :: post := by
    rw [List.dropWhile_append_of_pos hm, List.dropWhile_cons_of_neg (by simpa using hc)]
  rw [Shape.erase, view, List.eraseP_map, matchesKey_comp_entryOf, List.eraseP_append_right _ hm',
    List.eraseP_cons_of_pos hc, List.dropWhile_map, notMatchesKey_comp_entryOf, hdrop]
  refine Prod.ext rfl ?_
  cases post <;> rfl

/-- The entries before `start`'s and from it on. -/
theorem view_span {l₁ l₂ : List Nat} {s : Nat} (h₁ : s ∉ l₁) (h₂ : ∀ x ∈ l₂.head?, x = s) :
    (view H (l₁ ++ l₂)).takeWhile (fun e => e.1 ≠ s) = view H l₁ ∧
      (view H (l₁ ++ l₂)).dropWhile (fun e => e.1 ≠ s) = view H l₂ := by
  have hpos : ∀ a ∈ view H l₁, decide (a.1 ≠ s) = true := by
    intro e he
    obtain ⟨a, ha, rfl⟩ := List.mem_map.mp he
    exact decide_eq_true fun has => h₁ (has ▸ ha)
  rw [view_append, List.takeWhile_append_of_pos hpos, List.dropWhile_append_of_pos hpos]
  cases l₂ with
  | nil => exact ⟨List.append_nil _, rfl⟩
  | cons x t =>
      obtain rfl : x = s := h₂ x rfl
      exact ⟨by simp [entryOf], by simp [entryOf]⟩

/-- `start` is `NULL`, the end of the list, or a node: the list splits there. -/
theorem WellFormed.split_at (h : WellFormed hd H order) {s : Nat} (hs : s = 0 ∨ s ∈ order) :
    ∃ l₁ l₂, order = l₁ ++ l₂ ∧ s = l₂.headD 0 ∧ s ∉ l₁ ∧ ∀ x ∈ l₂.head?, x = s := by
  rcases hs with rfl | hs
  · exact ⟨order, [], (List.append_nil _).symm, rfl, h.linear.not_null, by simp⟩
  · obtain ⟨l₁, t, rfl⟩ := List.append_of_mem hs
    have hs₁ : s ∉ l₁ := fun hm => by
      have := (List.nodup_middle.mp h.linear.nodup)
      exact (List.nodup_cons.mp this).1 (List.mem_append_left _ hm)
    exact ⟨l₁, s :: t, rfl, rfl, hs₁, by simp⟩

/-- `LinkedListGet` is `find?` on the keys of the list. -/
theorem linkedListGet_eq (h : WellFormed hd H order) :
    linkedListGet hd H uniqueKey = .ok (hd.shape.find uniqueKey (view H order)) := by
  have hl : DList.Linear H.links 0 ([] ++ order) := by simpa using h.linear
  rw [linkedListGet, linkedListNodeGetNextMatching, h.start_eq,
    getNextMatchingLoop_suffix hd H uniqueKey hl (by rw [h.length_eq]; omega), find_view]

/-- `LinkedListNodeRemoveNextMatching` from the first node of `l₂` erases the first entry
of `l₂` whose key matches, frees its node and returns its successor. -/
theorem removeNextMatching_refines {l₁ l₂ : List Nat} (h : WellFormed hd H (l₁ ++ l₂)) :
    ∃ hd' H' order', linkedListNodeRemoveNextMatching (l₂.headD 0) hd H uniqueKey =
        .ok (hd', H', (hd.shape.erase uniqueKey (view H l₂)).2) ∧
      Leaves hd H (l₁ ++ l₂) (view H l₁ ++ (hd.shape.erase uniqueKey (view H l₂)).1) hd' H' order' ∧
      order' ⊆ l₁ ++ l₂ := by
  have hl : l₂.length < hd.length + 1 := by
    rw [h.length_eq, List.length_append]
    omega
  rw [linkedListNodeRemoveNextMatching, removeNextMatchingLoop_eq,
    getNextMatchingLoop_suffix hd H uniqueKey h.linear hl]
  cases hfind : l₂.find? (nodeMatches hd H uniqueKey) with
  | none =>
      -- no key matches: nothing changes
      rw [erase_view_of_none uniqueKey hfind, ← view_append]
      exact ⟨hd, H, l₁ ++ l₂, rfl, Leaves.unchanged h, List.Subset.refl _⟩
  | some c =>
      obtain ⟨hc, m, post, rfl, hm⟩ := List.find?_eq_some_iff_append.mp hfind
      have hwf : WellFormed hd H ((l₁ ++ m) ++ c :: post) := by simpa using h
      have hc0 : c ≠ 0 := fun hc0 => h.linear.not_null (by simp [← hc0])
      have hpc := hwf.linear.prev_ne_self
      have hrm := removeNode_eq hd H c hpc
      rw [erase_view_of_split uniqueKey hm hc]
      refine ⟨(removeNode hd H c).1, (removeNode hd H c).2.1, (l₁ ++ m) ++ post, ?_,
        ⟨removeNode_wellFormed hwf, ?_, ?_, ?_⟩, fun x hx => by simp at hx ⊢; tauto⟩
      · show Except.ok (if (some c).getD 0 = 0 then _ else _) = _
        rw [Option.getD_some, if_neg hc0, ← hwf.linear.next_of_split, hrm]
      · -- keys and data are as they were
        rw [hrm]
        show view H ((l₁ ++ m) ++ post) = view H l₁ ++ view H (m ++ post)
        simp
      · rw [hrm]
        rfl
      · -- only `c` is freed
        intro x hx
        rw [hrm]
        show Function.update H.live c false x = _
        by_cases hxc : x = c
        · subst hxc
          simp
        · have hx' : x ∉ l₁ ++ (m ++ c :: post) := by simp at hx ⊢; tauto
          rw [Function.update_of_ne hxc, if_neg hx']

/-- `LinkedListAdd` of a fresh node appends its entry. -/
theorem add_refines (h : WellFormed hd H order) (a : NodeAlloc) (k : List UInt8) (d : Option (List UInt8))
    (hn : a.node ≠ 0) (hf : a.node ∉ order) :
    Leaves hd H order (view H order ++ [hd.shape.newEntry a k d]) (linkedListAdd hd H a k d).1
      (linkedListAdd hd H a k d).2 (order ++ [a.node]) := by
  have hs : hd.start = 0 ↔ hd.last = 0 := by rw [h.start_eq_zero_iff, h.last_eq_zero_iff]
  have hne : ∀ x ∈ order, x ≠ a.node := fun x hx hxa => hf (hxa ▸ hx)
  rw [linkedListAdd_eq hd H a k d hs]
  refine ⟨⟨?_, ?_, ?_, ?_, ?_⟩, ?_, rfl, ?_⟩
  · rw [h.last_eq]
    exact h.linear.append hf hn
  · -- `start` is the new node exactly when the list was empty
    show (if hd.start = 0 then a.node else hd.start) = (order ++ [a.node]).headD 0
    cases order with
    | nil =>
        have h0 : hd.start = 0 := h.start_eq
        rw [if_pos h0]
        rfl
    | cons x t =>
        have hx0 : x ≠ 0 := fun hx0 => h.linear.not_null (hx0 ▸ List.mem_cons_self)
        rw [h.start_eq, List.headD_cons, if_neg hx0]
        rfl
  · show a.node = (order ++ [a.node]).getLastD 0
    rw [List.getLastD_concat]
  · show hd.length + 1 = (order ++ [a.node]).length
    rw [h.length_eq, List.length_append, List.length_singleton]
  · intro x hx
    show Function.update H.live a.node true x = true
    by_cases hxa : x = a.node
    · rw [hxa, Function.update_self]
    · rw [Function.update_of_ne hxa]
      exact h.live x (by simpa [hxa] using hx)
  · -- the other nodes' entries are as they were
    rw [view_append, view_congr (fun x hx => Function.update_of_ne (hne x hx) _ _)
      (fun x hx => Function.update_of_ne (hne x hx) _ _)]
    -- and the new node's is the one the shape gives it
    simp only [view, List.map_cons, List.map_nil, entryOf, Function.update_self]
    cases d <;> rfl
  · intro x hx
    have hxa : x ≠ a.node := fun hxa => hx (by simp [hxa])
    show Function.update H.live a.node true x = _
    rw [Function.update_of_ne hxa, if_neg (fun hxo => hx (List.mem_append_left _ hxo))]

end Refines

/-! ## Runs of calls -/

section Run

variable {hd : LinkedListHead} {H : NodeHeap} {order : List Nat}

/-- One admissible call does to the list what the abstract call does to its entries; the
nodes after it are the ones before and the one it adds. -/
theorem step_refines (h : WellFormed hd H order) (op : Op) (hok : admissible (view H order) op = true) :
    ∃ hd' H' order', step hd H op = .ok (hd', H', (hd.shape.absStep (view H order) op).2) ∧
      Leaves hd H order (hd.shape.absStep (view H order) op).1 hd' H' order' ∧
      order' ⊆ order ++ addedOf op ∧ addedOf op ⊆ order' := by
  cases op with
  | add a k d =>
      simp only [admissible, view_map_fst, Bool.and_eq_true, decide_eq_true_eq] at hok
      exact ⟨_, _, order ++ [a.node], rfl, add_refines h a k d hok.1 hok.2, List.Subset.refl _,
        by simp [addedOf]⟩
  | get k =>
      refine ⟨hd, H, order, ?_, Leaves.unchanged h, by simp [addedOf], by simp [addedOf]⟩
      rw [step, linkedListGet_eq k h]
      rfl
  | remove k =>
      have hwf : WellFormed hd H ([] ++ order) := by simpa using h
      obtain ⟨hd', H', order', hrm, hl, hsub⟩ := removeNextMatching_refines k hwf
      refine ⟨hd', H', order', ?_, ?_, by simpa [addedOf] using hsub, by simp [addedOf]⟩
      · rw [step, linkedListRemove, h.start_eq, hrm]
        rfl
      · rw [Shape.absStep]
        simpa using hl
  | removeNextMatching s k =>
      simp only [admissible, view_map_fst, Bool.or_eq_true, decide_eq_true_eq] at hok
      obtain ⟨l₁, l₂, rfl, rfl, h₁, h₂⟩ := h.split_at hok
      obtain ⟨ht, hdw⟩ := view_span h₁ h₂
      obtain ⟨hd', H', order', hrm, hl, hsub⟩ := removeNextMatching_refines k h
      refine ⟨hd', H', order', ?_, ?_, by simpa [addedOf] using hsub, by simp [addedOf]⟩
      · rw [step, hrm, Shape.absStep, hdw]
        rfl
      · rw [Shape.absStep, ht, hdw]
        exact hl

/-- Any admissible sequence of calls does to the list what the abstract calls do to its
entries, returns what they return, and frees exactly the blocks of the nodes it removed. -/
theorem run_refines (h : WellFormed hd H order) (ops : List Op)
    (hok : hd.shape.runAdmissible (view H order) ops = true) :
    ∃ hd' H' order', run hd H ops = .ok (hd', H', (hd.shape.absRun (view H order) ops).2) ∧
      Leaves hd H (order ++ addedNodes ops) (hd.shape.absRun (view H order) ops).1 hd' H' order' := by
  -- induction on the calls, from the list each call leaves
  induction ops generalizing hd H order with
  | nil =>
      refine ⟨hd, H, order, rfl, ?_⟩
      rw [Shape.absRun]
      simpa [addedNodes] using Leaves.unchanged h
  | cons op ops ih =>
      rw [Shape.runAdmissible, Bool.and_eq_true] at hok
      obtain ⟨hd₁, H₁, o₁, hstep, L₁, hsub, hadd⟩ := step_refines h op hok.1
      rw [← L₁.view_eq, ← L₁.shape_eq] at hok
      obtain ⟨hd', H', o', hrun, L'⟩ := ih L₁.wellFormed hok.2
      rw [L₁.shape_eq, L₁.view_eq] at hrun L'
      refine ⟨hd', H', o', ?_, ⟨L'.wellFormed, L'.view_eq, L'.shape_eq.trans L₁.shape_eq, ?_⟩⟩
      · rw [run, hstep, Run.ok_bind]
        dsimp only
        rw [hrun, Run.ok_bind]
        rfl
      · -- a block the later calls leave alone is as the first call left it
        intro x hx
        rw [L'.frees x hx]
        have hA : addedNodes (op :: ops) = addedOf op ++ addedNodes ops := List.flatMap_cons
        by_cases hx₁ : x ∈ o₁ ++ addedNodes ops
        · have : x ∈ order ++ addedNodes (op :: ops) := by
            rw [hA]
            rcases List.mem_append.mp hx₁ with hm | hm
            · rcases List.mem_append.mp (hsub hm) with hm' | hm' <;> simp [hm']
            · simp [hm]
          rw [if_pos hx₁, if_pos this]
        · have hxo : x ∉ o₁ := fun hm => hx₁ (List.mem_append_left _ hm)
          have hxa : x ∉ addedOf op := fun hm => hxo (hadd hm)
          have hxn : x ∉ addedNodes ops := fun hm => hx₁ (List.mem_append_right _ hm)
          rw [if_neg hx₁, L₁.frees x hxo, hA]
          simp [hxa, hxn]

end Run

/-! ## Freeing a list -/

section Free

variable {hd : LinkedListHead} {H : NodeHeap} {order : List Nat}

/-- INTERNAL: `LinkedListNodeFree` changes no link. -/
@[simp] theorem foldl_free_links (l : List Nat) (H : NodeHeap) :
    (l.foldl linkedListNodeFree H).links = H.links := by
  induction l generalizing H with
  | nil => rfl
  | cons a l ih => exact ih _

end Free

/-! ## Lists from their first head -/

/-- The heads a list starts from, `LinkedListAlloc()` and copies of `defaultSwapLL` and
`defaultLLPTE`, hold the empty list. -/
theorem initial_wellFormed {hd : LinkedListHead}
    (hinit : hd = linkedListAlloc ∨ hd = defaultSwapLL ∨ hd = defaultLLPTE) (H : NodeHeap) :
    WellFormed hd H [] := by
  rcases hinit with rfl | rfl | rfl <;> exact wellFormed_nil H rfl rfl rfl

theorem linked_list_calls_refine_list {hd₀ : LinkedListHead}
    (hinit : hd₀ = linkedListAlloc ∨ hd₀ = defaultSwapLL ∨ hd₀ = defaultLLPTE) (H : NodeHeap)
    (ops : List Op) (hok : hd₀.shape.runAdmissible [] ops = true) :
    ∃ hd' H' order', run hd₀ H ops = .ok (hd', H', (hd₀.shape.absRun [] ops).2) ∧
      Leaves hd₀ H (addedNodes ops) (hd₀.shape.absRun [] ops).1 hd' H' order' := by
  have h := run_refines (initial_wellFormed hinit H) ops hok
  simpa using h

/-- Kernel memory with no node allocated. -/
def emptyHeap : NodeHeap := ⟨⟨fun _ => 0, fun _ => 0⟩, fun _ => [], fun _ => [], fun _ => false⟩

/-- Calls on a swap-map bin: three nodes, the first and the third under one key, then that
key's next node removed from the second node on, and the key looked up. -/
def binCalls : List Op :=
  [.add ⟨0x100, [0, 0, 0, 0, 0, 0, 0, 0], [255, 255, 255, 255, 0, 16, 0, 0]⟩ [0, 16, 0, 0, 0, 48, 0, 0] none,
   .add ⟨0x200, [0, 0, 0, 0, 0, 0, 0, 0], [255, 255, 255, 255, 0, 32, 0, 0]⟩ [0, 32, 0, 0, 0, 64, 0, 0] none,
   .add ⟨0x300, [0, 0, 0, 0, 0, 0, 0, 0], [255, 255, 255, 255, 0, 48, 0, 0]⟩ [0, 16, 0, 0, 0, 48, 0, 0] none,
   .removeNextMatching 0x200 (some [0, 16, 0, 0, 0, 48, 0, 0]),
   .get (some [0, 16, 0, 0, 0, 48, 0, 0])]

theorem swap_bin_calls_refine_list :
    (defaultSwapLL = linkedListAlloc ∨ defaultSwapLL = defaultSwapLL ∨ defaultSwapLL = defaultLLPTE) ∧
      defaultSwapLL.shape.runAdmissible [] binCalls = true ∧
      ∃ hd' H' order', run defaultSwapLL emptyHeap binCalls =
          .ok (hd', H', (defaultSwapLL.shape.absRun [] binCalls).2) ∧
        Leaves defaultSwapLL emptyHeap (addedNodes binCalls) (defaultSwapLL.shape.absRun [] binCalls).1
          hd' H' order' :=
  ⟨Or.inr (Or.inl rfl), rfl,
    linked_list_calls_refine_list (Or.inr (Or.inl rfl)) emptyHeap binCalls rfl⟩

end LinkedList

end Xv6
