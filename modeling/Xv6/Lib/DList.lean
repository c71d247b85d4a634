import Mathlib

/-!
# Circular doubly linked lists through a sentinel

Nodes carry `next` and `prev` pointers (`Links`); a sentinel node `head` closes the
list into a ring.  `Ring L head order` says that following `next` from `head` visits the
nodes of `order` and comes back to `head`, that `prev` retraces the same path, and that
no node occurs twice.

The pointer operations are written as the statements a C program performs:
`unlink` (`b->next->prev = b->prev; b->prev->next = b->next`) and `pushFront`
(`b->next = head->next; b->prev = head; head->next->prev = b; head->next = b`).  The
rules below are what a proof about such a program needs:

* `Ring.unlink`, `Ring.pushFront`, `Ring.moveFront`: the operations act on the ring
  as removal of a node and insertion at the front of `order`;
* `Ring.scan_next`, `Ring.scan_prev`: a loop that follows `next` (or `prev`) from the
  sentinel until it comes back returns the first node of `order` (or of its reverse)
  satisfying its test.

The proofs decompose the chain `head :: order ++ [head]` at the node that moves, and
carry the unchanged pieces over with a frame lemma (`IsChain.frame`).
-/

set_option autoImplicit false

namespace DList

variable {α : Type}

/-- The `next` and `prev` pointers of every node. -/
structure Links (α : Type) where
  next : α → α
  prev : α → α

/-- `b` follows `a`: `a->next == b` and `b->prev == a`. -/
def Links.Adj (L : Links α) (a b : α) : Prop := L.next a = b ∧ L.prev b = a

/-- The nodes `order` form a ring with the sentinel `head`. -/
structure Ring (L : Links α) (head : α) (order : List α) : Prop where
  chain : List.IsChain L.Adj (head :: order ++ [head])
  nodup : (head :: order).Nodup

/-- INTERNAL: pointers that did not change along a chain keep it linked. -/
theorem IsChain.frame {L L' : Links α} {c : List α} (h : List.IsChain L.Adj c)
    (hn : ∀ a ∈ c.dropLast, L'.next a = L.next a) (hp : ∀ b ∈ c.tail, L'.prev b = L.prev b) :
    List.IsChain L'.Adj c := by
  induction h with
  | nil => exact .nil
  | singleton a => exact .singleton a
  | @cons_cons a b l hab _ ih =>
      refine .cons_cons ⟨?_, ?_⟩ (ih ?_ ?_)
      · rw [hn a (by simp)]
        exact hab.1
      · rw [hp b (by simp)]
        exact hab.2
      · intro x hx
        exact hn x (by simp [hx])
      · intro y hy
        exact hp y (List.mem_of_mem_tail hy)

/-- INTERNAL: in a list without duplicates the last element does not occur before. -/
theorem getLast_not_mem_dropLast {l : List α} {p : α} (hl : l.Nodup) (hp : l.getLast? = some p) :
    p ∉ l.dropLast := by
  obtain ⟨ys, rfl⟩ := List.getLast?_eq_some_iff.mp hp
  rw [List.dropLast_concat]
  rw [List.nodup_append] at hl
  exact fun hm => hl.2.2 _ hm _ (List.mem_singleton_self _) rfl

variable [DecidableEq α]

/-- `a->next = b`. -/
def Links.setNext (L : Links α) (a b : α) : Links α := { L with next := Function.update L.next a b }

/-- `a->prev = b`. -/
def Links.setPrev (L : Links α) (a b : α) : Links α := { L with prev := Function.update L.prev a b }

@[simp] theorem setNext_next (L : Links α) (a b x : α) :
    (L.setNext a b).next x = if x = a then b else L.next x := by
  simp [Links.setNext, Function.update_apply]

@[simp] theorem setNext_prev (L : Links α) (a b : α) : (L.setNext a b).prev = L.prev := rfl

@[simp] theorem setPrev_prev (L : Links α) (a b x : α) :
    (L.setPrev a b).prev x = if x = a then b else L.prev x := by
  simp [Links.setPrev, Function.update_apply]

@[simp] theorem setPrev_next (L : Links α) (a b : α) : (L.setPrev a b).next = L.next := rfl

/-- Unlink `b`: `b->next->prev = b->prev; b->prev->next = b->next`. -/
def unlink (L : Links α) (b : α) : Links α :=
  let L₁ := L.setPrev (L.next b) (L.prev b)
  L₁.setNext (L₁.prev b) (L₁.next b)

/-- Insert `b` after the sentinel: `b->next = head->next; b->prev = head;
head->next->prev = b; head->next = b`. -/
def pushFront (L : Links α) (head b : α) : Links α :=
  let L₁ := L.setNext b (L.next head)
  let L₂ := L₁.setPrev b head
  let L₃ := L₂.setPrev (L₂.next head) b
  L₃.setNext head b

/-- Follow `step` from `x` until `stop`, returning the first node that passes `p`; at
most `fuel` nodes are visited. -/
def scan (step : α → α) (stop : α) (p : α → Bool) : Nat → α → Option α
  | 0, _ => none
  | fuel + 1, x =>
      if x = stop then none else if p x then some x else scan step stop p fuel (step x)

/-- Removing `b` from the ring: its neighbours are linked to each other. -/
theorem Ring.unlink {L : Links α} {head b : α} {l₁ l₂ : List α}
    (h : Ring L head (l₁ ++ b :: l₂)) : Ring (DList.unlink L b) head (l₁ ++ l₂) := by
  have hnd := h.nodup
  simp only [List.nodup_cons, List.nodup_append, List.mem_append, List.mem_cons, not_or] at hnd
  obtain ⟨⟨hh₁, hhb, hh₂⟩, hnd₁, ⟨hb₂, hnd₂⟩, hdisj⟩ := hnd
  -- the chain is `P ++ b :: Q` with `P = head :: l₁` and `Q = l₂ ++ [head]`
  have hchain : List.IsChain L.Adj ((head :: l₁) ++ b :: (l₂ ++ [head])) := by
    simpa using h.chain
  rw [List.isChain_append] at hchain
  obtain ⟨hP, hbQ, hpb⟩ := hchain
  have hQne : l₂ ++ [head] ≠ [] := by simp
  obtain ⟨q, Y, hQ⟩ : ∃ q Y, l₂ ++ [head] = q :: Y := List.exists_cons_of_ne_nil hQne
  rw [hQ, List.isChain_cons_cons] at hbQ
  obtain ⟨hbq, hQchain⟩ := hbQ
  obtain ⟨p, hp⟩ : ∃ p, (head :: l₁).getLast? = some p :=
    ⟨_, List.getLast?_eq_some_getLast (List.cons_ne_nil _ _)⟩
  have hpb' : L.Adj p b := hpb p hp b (by simp)
  -- where the neighbours sit
  have hpP : p ∈ head :: l₁ := List.mem_of_getLast? hp
  have hqQ : q ∈ l₂ ++ [head] := by rw [hQ]; exact List.mem_cons_self
  have hq_ne_b : q ≠ b := by
    intro hqb
    simp only [List.mem_append, List.mem_singleton] at hqQ
    rcases hqQ with hq | hq <;> [exact hb₂ (hqb ▸ hq); exact hhb (hqb ▸ hq).symm]
  have hunlink : DList.unlink L b = (L.setPrev q p).setNext p q := by
    simp only [DList.unlink, setPrev_prev, setPrev_next, hbq.1, if_neg (Ne.symm hq_ne_b), hpb'.2]
  rw [hunlink]
  refine ⟨?_, ?_⟩
  · have hgoal : head :: (l₁ ++ l₂) ++ [head] = (head :: l₁) ++ (q :: Y) := by
      rw [← hQ]
      simp
    rw [hgoal, List.isChain_append]
    refine ⟨IsChain.frame hP ?_ ?_, IsChain.frame hQchain ?_ ?_, ?_⟩
    · intro a ha
      have hap : a ≠ p := by
        rintro rfl
        exact getLast_not_mem_dropLast (List.nodup_cons.mpr ⟨hh₁, hnd₁⟩) hp ha
      simp [hap]
    · intro y hy
      have hyq : y ≠ q := by
        rintro rfl
        simp only [List.tail_cons] at hy
        simp only [List.mem_append, List.mem_singleton] at hqQ
        rcases hqQ with hq | hq
        · exact hdisj y hy y (.inr hq) rfl
        · exact hh₁ (hq ▸ hy)
      simp [hyq]
    · intro a ha
      have hdrop : (q :: Y).dropLast = l₂ := by rw [← hQ, List.dropLast_concat]
      rw [hdrop] at ha
      have hap : a ≠ p := by
        intro hap
        rw [hap] at ha
        simp only [List.mem_cons] at hpP
        rcases hpP with hp' | hp'
        · exact hh₂ (hp' ▸ ha)
        · exact hdisj p hp' p (.inr ha) rfl
      simp [hap]
    · intro y hy
      have hnodupQ : (q :: Y).Nodup := by
        rw [← hQ, List.nodup_append]
        exact ⟨hnd₂, List.nodup_singleton _, fun a ha b hb => by
          rw [List.mem_singleton] at hb
          exact fun hab => hh₂ (hb ▸ hab ▸ ha)⟩
      have hyq : y ≠ q := by
        rintro rfl
        exact (List.nodup_cons.mp hnodupQ).1 hy
      simp [hyq]
    · intro x hx y hy
      rw [hp, Option.mem_def, Option.some.injEq] at hx
      simp only [List.head?_cons, Option.mem_def, Option.some.injEq] at hy
      subst hx hy
      simp [Links.Adj]
  · simp only [List.nodup_cons, List.nodup_append, List.mem_append, not_or]
    exact ⟨⟨hh₁, hh₂⟩, hnd₁, hnd₂, fun a ha b hb => hdisj a ha b (.inr hb)⟩

/-- Inserting a node that is not in the ring after the sentinel puts it first. -/
theorem Ring.pushFront {L : Links α} {head b : α} {order : List α} (h : Ring L head order)
    (hb : b ∉ head :: order) : Ring (DList.pushFront L head b) head (b :: order) := by
  have hnd := h.nodup
  rw [List.nodup_cons] at hnd
  obtain ⟨hhO, hndO⟩ := hnd
  rw [List.mem_cons, not_or] at hb
  obtain ⟨hbh, hbO⟩ := hb
  have hQne : order ++ [head] ≠ [] := by simp
  obtain ⟨f, Y, hQ⟩ : ∃ f Y, order ++ [head] = f :: Y := List.exists_cons_of_ne_nil hQne
  have hchain : List.IsChain L.Adj (head :: f :: Y) := by
    rw [← hQ]
    simpa using h.chain
  rw [List.isChain_cons_cons] at hchain
  obtain ⟨hhf, hQchain⟩ := hchain
  have hfQ : f ∈ order ++ [head] := by rw [hQ]; exact List.mem_cons_self
  have hbf : b ≠ f := by
    intro hbf
    simp only [List.mem_append, List.mem_singleton] at hfQ
    rcases hfQ with hf | hf
    · exact hbO (hbf ▸ hf)
    · exact hbh (hbf.trans hf)
  have hpush : DList.pushFront L head b =
      (((L.setNext b f).setPrev b head).setPrev f b).setNext head b := by
    simp only [DList.pushFront, setPrev_next, setNext_next, if_neg (Ne.symm hbh), hhf.1]
  rw [hpush]
  have hnodupQ : (f :: Y).Nodup := by
    rw [← hQ, List.nodup_append]
    exact ⟨hndO, List.nodup_singleton _, fun a ha c hc => by
      rw [List.mem_singleton] at hc
      exact fun hac => hhO (hc ▸ hac ▸ ha)⟩
  refine ⟨?_, ?_⟩
  · have hgoal : head :: (b :: order) ++ [head] = head :: b :: f :: Y := by
      rw [← hQ]
      simp
    rw [hgoal]
    refine .cons_cons ⟨by simp, by simp [hbf]⟩ (.cons_cons ⟨by simp [hbh], by simp⟩ ?_)
    refine IsChain.frame hQchain ?_ ?_
    · intro a ha
      have hdrop : (f :: Y).dropLast = order := by rw [← hQ, List.dropLast_concat]
      rw [hdrop] at ha
      have hah : a ≠ head := fun hah => hhO (hah ▸ ha)
      have hab : a ≠ b := fun hab => hbO (hab ▸ ha)
      simp [hah, hab]
    · intro y hy
      have hyf : y ≠ f := by
        rintro rfl
        exact (List.nodup_cons.mp hnodupQ).1 hy
      have hyb : y ≠ b := by
        rintro rfl
        have : y ∈ f :: Y := List.mem_cons_of_mem _ hy
        rw [← hQ, List.mem_append, List.mem_singleton] at this
        rcases this with h' | h'
        · exact hbO h'
        · exact hbh h'
      simp [hyf, hyb]
  · simp only [List.nodup_cons, List.mem_cons, not_or]
    exact ⟨⟨Ne.symm hbh, hhO⟩, hbO, hndO⟩

/-- Pushing fresh nodes one after the other builds the ring in reverse order. -/
theorem Ring.foldl_pushFront {head : α} :
    ∀ (bs : List α) (L : Links α) (order : List α), Ring L head order →
      (bs ++ head :: order).Nodup →
        Ring (bs.foldl (fun L b => DList.pushFront L head b) L) head (bs.reverse ++ order)
  | [], _, _, h, _ => by simpa using h
  | b :: bs, L, order, h, hnd => by
      have hperm : (b :: bs ++ head :: order).Perm (bs ++ head :: b :: order) := by
        have h₁ : (head :: b :: order).Perm (b :: head :: order) := List.Perm.swap _ _ _
        exact ((List.Perm.append_left bs h₁).trans List.perm_middle).symm
      have hnd' := hperm.nodup_iff.mp hnd
      have hb : b ∉ head :: order := by
        intro hm
        exact (List.nodup_cons.mp hnd).1 (List.mem_append_right _ hm)
      rw [List.foldl_cons, List.reverse_cons, List.append_assoc, List.singleton_append]
      exact Ring.foldl_pushFront bs _ _ (h.pushFront hb) hnd'

/-- Moving a node of the ring to the front, as unlinking it and pushing it back. -/
theorem Ring.moveFront {L : Links α} {head b : α} {order : List α} (h : Ring L head order)
    (hb : b ∈ order) :
    Ring (DList.pushFront (DList.unlink L b) head b) head (b :: order.erase b) := by
  obtain ⟨l₁, l₂, rfl⟩ := List.append_of_mem hb
  have hnd := h.nodup
  simp only [List.nodup_cons, List.nodup_append, List.mem_append, List.mem_cons, not_or] at hnd
  have hb₁ : b ∉ l₁ := fun hm => hnd.2.2.2 b hm b (.inl rfl) rfl
  have herase : (l₁ ++ b :: l₂).erase b = l₁ ++ l₂ := by
    rw [List.erase_append_right _ hb₁, List.erase_cons_head]
  rw [herase]
  refine (Ring.unlink h).pushFront ?_
  simp only [List.mem_cons, List.mem_append, not_or]
  exact ⟨Ne.symm hnd.1.2.1, hb₁, hnd.2.2.1.1⟩

/-- INTERNAL: following `step` along a chain to `stop` finds the first node that passes
the test. -/
theorem scan_chain {step : α → α} {stop : α} (p : α → Bool) :
    ∀ (xs : List α) (fuel : Nat) (x : α), xs.length < fuel → stop ∉ xs →
      List.IsChain (fun a b => step a = b) (x :: xs ++ [stop]) →
        scan step stop p fuel (step x) = xs.find? p
  | [], fuel + 1, x, _, _, hc => by
      have hx : step x = stop := (List.isChain_cons_cons.mp hc).1
      simp [scan, hx]
  | y :: xs, fuel + 1, x, hlen, hstop, hc => by
      rw [List.mem_cons, not_or] at hstop
      obtain ⟨hxy, hrest⟩ :
          step x = y ∧ List.IsChain (fun a b => step a = b) (y :: (xs ++ [stop])) := by
        simpa using hc
      rw [hxy, scan, if_neg (Ne.symm hstop.1), List.find?_cons]
      cases hp : p y with
      | true => rfl
      | false =>
          exact scan_chain p xs fuel y (by simp at hlen; omega) hstop.2 (by simpa using hrest)

/-- Following `next` from the sentinel until it comes back finds the first node of
`order` that passes the test. -/
theorem Ring.scan_next {L : Links α} {head : α} {order : List α} (h : Ring L head order)
    (p : α → Bool) {fuel : Nat} (hfuel : order.length < fuel) :
    scan L.next head p fuel (L.next head) = order.find? p :=
  scan_chain p order fuel head hfuel (List.nodup_cons.mp h.nodup).1
    (h.chain.imp fun _ _ hab => hab.1)

/-- Following `prev` from the sentinel until it comes back finds the last node of
`order` that passes the test. -/
theorem Ring.scan_prev {L : Links α} {head : α} {order : List α} (h : Ring L head order)
    (p : α → Bool) {fuel : Nat} (hfuel : order.length < fuel) :
    scan L.prev head p fuel (L.prev head) = order.reverse.find? p := by
  have hrev : List.IsChain (fun a b => L.prev a = b) (head :: order.reverse ++ [head]) := by
    have hc : List.IsChain (fun a b => L.prev a = b) (head :: order ++ [head]).reverse :=
      List.isChain_reverse.mpr (h.chain.imp fun _ _ hab => hab.2)
    simpa using hc
  refine scan_chain p order.reverse fuel head (by simpa using hfuel) ?_ hrev
  simpa using (List.nodup_cons.mp h.nodup).1

end DList
