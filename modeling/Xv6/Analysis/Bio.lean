import Xv6.Model.Bio

/-!
# The buffer cache's representation invariant

Over any interleaving of `bget`, `bread`, `bwrite`, `log_write` and `brelse` steps from
`binit`, the cache keeps the invariant `BioInv`:

* the `prev`/`next` pointers through `bcache.head` form a ring whose nodes are exactly
  the `NBUF` buffers (`DList.Ring`, built by `binit` and kept by `brelse`'s move to the
  front);
* no two buffers carry the same `(dev, blockno)`, except `(0, 0)`: `binit` leaves every
  buffer with that key (`bcache_init_duplicate_key`), and `bget` only binds a key that no
  buffer carries;
* each buffer's `refcnt` is the number of callers holding it.

Under the ring invariant the two pointer loops of `bget` are list searches
(`DList.Ring.scan_next`, `DList.Ring.scan_prev`), which is how `bget_spec` reads them.
A buffer's key only changes when `bget` recycles it, and only a buffer with no reference
and no `B_DIRTY` is recycled (`bioStep_key`), so a buffer pinned by `log_write` keeps its
block until it is written.
-/

set_option autoImplicit false

namespace Xv6

/-- The block a buffer caches, `(b->dev, b->blockno)`. -/
def Bcache.key (bc : Bcache) (b : Nat) : Nat × Nat := ((bc.buf b).dev, (bc.buf b).blockno)

/-- The representation invariant of the buffer cache with its callers. -/
structure BioInv (s : BioSys) : Prop where
  ring : ∃ order, DList.Ring s.bc.links bcacheHead order ∧ order.Perm (List.range nbuf)
  keys : ∀ i j, i < nbuf → j < nbuf → i ≠ j → s.bc.key i = s.bc.key j → s.bc.key i = (0, 0)
  refs : ∀ b, b < nbuf → (s.bc.buf b).refcnt = s.holds.count b
  held : ∀ b ∈ s.holds, b < nbuf

@[simp] theorem setBuf_buf (bc : Bcache) (b : Nat) (x : Buf) (j : Nat) :
    (bc.setBuf b x).buf j = if j = b then x else bc.buf j := by
  simp [Bcache.setBuf, Function.update_apply]

@[simp] theorem setBuf_links (bc : Bcache) (b : Nat) (x : Buf) :
    (bc.setBuf b x).links = bc.links := rfl

/-- INTERNAL: a buffer that passes the lookup test carries the block. -/
theorem key_of_holdsBlock {bc : Bcache} {dev blockno b : Nat}
    (h : bc.holdsBlock dev blockno b = true) : bc.key b = (dev, blockno) := by
  simp only [Bcache.holdsBlock, Bool.and_eq_true, beq_iff_eq] at h
  simp [Bcache.key, h.1, h.2]

/-- INTERNAL: a buffer that passes the recycle test is neither referenced nor dirty. -/
theorem recyclable_iff {bc : Bcache} {b : Nat} :
    bc.recyclable b = true ↔ (bc.buf b).refcnt = 0 ∧ (bc.buf b).dirty = false := by
  simp [Bcache.recyclable]

/-- INTERNAL: erasing the entry at `k` lowers the count of that entry by one. -/
theorem count_eraseIdx_add (l : List Nat) {k b : Nat} (hk : l[k]? = some b) (j : Nat) :
    l.count j = (l.eraseIdx k).count j + if b = j then 1 else 0 := by
  obtain ⟨hlt, hget⟩ := List.getElem?_eq_some_iff.mp hk
  have hsplit : l = l.take k ++ b :: l.drop (k + 1) := by
    rw [← hget, ← List.drop_eq_getElem_cons hlt, List.take_append_drop]
  rw [List.eraseIdx_eq_take_drop_succ]
  conv_lhs => rw [hsplit]
  simp only [List.count_append, List.count_cons, beq_iff_eq]
  omega

section Step

variable {s : BioSys}

/-- INTERNAL: every buffer is in the ring's order. -/
theorem mem_order_iff {order : List Nat} (hperm : order.Perm (List.range nbuf)) {b : Nat} :
    b ∈ order ↔ b < nbuf := by
  rw [hperm.mem_iff, List.mem_range]

/-- What `bget` returns: a buffer that already carries the block, with one more
reference; or, when no buffer carries it, a buffer with no reference and no `B_DIRTY`,
rebound to the block with one reference.
SOURCE: bio.c:60-100 -/
theorem bget_spec (h : BioInv s) {dev blockno b : Nat} {bc' : Bcache}
    (hget : bget s.bc dev blockno = some (bc', b)) :
    b < nbuf ∧
    ((s.bc.holdsBlock dev blockno b = true ∧
        bc' = s.bc.setBuf b { s.bc.buf b with refcnt := (s.bc.buf b).refcnt + 1 }) ∨
      ((∀ j, j < nbuf → s.bc.holdsBlock dev blockno j = false) ∧ s.bc.recyclable b = true ∧
        bc' = s.bc.setBuf b
          { dev := dev, blockno := blockno, valid := false, dirty := false, refcnt := 1 })) := by
  obtain ⟨order, hring, hperm⟩ := h.ring
  have hlen : order.length < nbuf + 1 := by
    rw [hperm.length_eq, List.length_range]
    omega
  -- both loops of `bget` are searches of the ring's order
  have hfwd := hring.scan_next (s.bc.holdsBlock dev blockno) hlen
  have hbwd := hring.scan_prev s.bc.recyclable hlen
  unfold bget at hget
  rw [hfwd] at hget
  cases hfind : order.find? (s.bc.holdsBlock dev blockno) with
  | some b₀ =>
      rw [hfind] at hget
      simp only [Option.some.injEq, Prod.mk.injEq] at hget
      obtain ⟨hbc, rfl⟩ := hget
      exact ⟨(mem_order_iff hperm).mp (List.mem_of_find?_eq_some hfind),
        .inl ⟨List.find?_some hfind, hbc.symm⟩⟩
  | none =>
      rw [hfind, hbwd] at hget
      cases hrec : order.reverse.find? s.bc.recyclable with
      | none =>
          rw [hrec] at hget
          exact absurd hget (by simp)
      | some b₀ =>
          rw [hrec] at hget
          simp only [Option.some.injEq, Prod.mk.injEq] at hget
          obtain ⟨hbc, rfl⟩ := hget
          have hmem : b₀ ∈ order := List.mem_reverse.mp (List.mem_of_find?_eq_some hrec)
          refine ⟨(mem_order_iff hperm).mp hmem, .inr ⟨?_, List.find?_some hrec, hbc.symm⟩⟩
          intro j hj
          have hnone := List.find?_eq_none.mp hfind j ((mem_order_iff hperm).mpr hj)
          simpa using hnone

/-- `binit` builds the ring of all buffers, each with no reference and key `(0, 0)`.
SOURCE: bio.c:38-55 -/
theorem BioInv.init (links0 : DList.Links Nat) : BioInv (BioSys.init links0) := by
  have hstart : DList.Ring
      ((links0.setPrev bcacheHead bcacheHead).setNext bcacheHead bcacheHead) bcacheHead [] :=
    ⟨.cons_cons ⟨by simp, by simp⟩ (.singleton _), List.nodup_singleton _⟩
  have hnd : (List.range nbuf ++ [bcacheHead]).Nodup := by
    rw [List.nodup_append]
    refine ⟨List.nodup_range, List.nodup_singleton _, ?_⟩
    intro a ha b hb
    rw [List.mem_range] at ha
    rw [List.mem_singleton] at hb
    rw [hb, bcacheHead]
    omega
  refine ⟨⟨(List.range nbuf).reverse, ?_, List.reverse_perm _⟩, ?_, ?_, ?_⟩
  · simpa [BioSys.init, binit] using DList.Ring.foldl_pushFront (List.range nbuf) _ [] hstart hnd
  · intro i j _ _ _ _
    simp [BioSys.init, binit, Bcache.key, Buf.zero]
  · intro b _
    simp [BioSys.init, binit, Buf.zero]
  · simp [BioSys.init]

/-- INTERNAL: a step that changes no pointer, no key and no count of the buffers keeps
the invariant. -/
theorem BioInv.of_flags (h : BioInv s) (bc' : Bcache) (hl : bc'.links = s.bc.links)
    (hk : ∀ j, bc'.key j = s.bc.key j) (hr : ∀ j, (bc'.buf j).refcnt = (s.bc.buf j).refcnt) :
    BioInv { s with bc := bc' } := by
  refine ⟨?_, ?_, ?_, h.held⟩
  · rw [hl]
    exact h.ring
  · intro i j hi hj hij hkey
    simp only [hk] at hkey ⊢
    exact h.keys i j hi hj hij hkey
  · intro b hb
    rw [hr]
    exact h.refs b hb

/-- INTERNAL: the flag updates of `bread`, `bwrite` and `log_write` touch no pointer, key
or count. -/
theorem flags_frame (bc : Bcache) (b : Nat) (f : Bcache → Nat → Bcache)
    (hf : f = breadFill ∨ f = bwrite ∨ f = logPin) :
    (f bc b).links = bc.links ∧ (∀ j, (f bc b).key j = bc.key j) ∧
      (∀ j, ((f bc b).buf j).refcnt = (bc.buf j).refcnt) := by
  rcases hf with rfl | rfl | rfl
  · unfold breadFill
    split_ifs
    · exact ⟨rfl, fun _ => rfl, fun _ => rfl⟩
    · refine ⟨rfl, fun j => ?_, fun j => ?_⟩ <;> by_cases hj : j = b <;> simp [Bcache.key, hj]
  · refine ⟨rfl, fun j => ?_, fun j => ?_⟩ <;> by_cases hj : j = b <;>
      simp [bwrite, Bcache.key, hj]
  · refine ⟨rfl, fun j => ?_, fun j => ?_⟩ <;> by_cases hj : j = b <;>
      simp [logPin, Bcache.key, hj]

theorem onHeld_key (s : BioSys) (k : Nat) (f : Bcache → Nat → Bcache)
    (hf : f = breadFill ∨ f = bwrite ∨ f = logPin) (j : Nat) :
    (s.onHeld k f).bc.key j = s.bc.key j := by
  unfold BioSys.onHeld
  split
  · exact (flags_frame s.bc _ f hf).2.1 j
  · rfl

theorem BioInv.onHeld (h : BioInv s) (k : Nat) (f : Bcache → Nat → Bcache)
    (hf : f = breadFill ∨ f = bwrite ∨ f = logPin) : BioInv (s.onHeld k f) := by
  unfold BioSys.onHeld
  split
  · obtain ⟨hl, hk, hr⟩ := flags_frame s.bc _ f hf
    exact h.of_flags _ hl hk hr
  · exact h

/-- `bget` keeps the invariant: a found buffer gains a reference, a recycled one is
rebound to a block no other buffer carries. -/
theorem BioInv.get (h : BioInv s) (dev blockno : Nat) :
    BioInv (bioStep s (.get dev blockno)).1 := by
  simp only [bioStep]
  cases hget : bget s.bc dev blockno with
  | none => exact h
  | some p =>
      obtain ⟨bc', b⟩ := p
      obtain ⟨hb, hcase⟩ := bget_spec h hget
      obtain ⟨order, hring, hperm⟩ := h.ring
      have hcount : ∀ j, (b :: s.holds).count j = s.holds.count j + if b = j then 1 else 0 := by
        intro j
        simp [List.count_cons]
      rcases hcase with ⟨hhold, rfl⟩ | ⟨hnone, hrec, rfl⟩
      · refine ⟨⟨order, hring, hperm⟩, ?_, ?_, ?_⟩
        · -- the keys did not move
          have hk : ∀ j, (s.bc.setBuf b { s.bc.buf b with refcnt := (s.bc.buf b).refcnt + 1 }).key j =
              s.bc.key j := by
            intro j
            by_cases hj : j = b <;> simp [Bcache.key, hj]
          intro i j hi hj hij hkey
          simp only [hk] at hkey ⊢
          exact h.keys i j hi hj hij hkey
        · intro j hj
          rw [hcount j]
          by_cases hjb : j = b
          · subst hjb
            simp [h.refs j hj]
          · simp [hjb, Ne.symm hjb, h.refs j hj]
        · simpa using ⟨hb, h.held⟩
      · have hzero := (recyclable_iff.mp hrec).1
        refine ⟨⟨order, hring, hperm⟩, ?_, ?_, ?_⟩
        · -- only `b` changed its key, to one no other buffer carries
          have hnew : ∀ j, j < nbuf → j ≠ b → s.bc.key j ≠ (dev, blockno) := by
            intro j hj hjb hkey
            have := hnone j hj
            simp [Bcache.holdsBlock, Bcache.key] at this hkey
            exact this hkey.1 hkey.2
          intro i j hi hj hij hkey
          by_cases hib : i = b
          · subst hib
            have hjb : j ≠ i := Ne.symm hij
            simp [Bcache.key, hjb] at hkey
            exact absurd (by simp [Bcache.key, hkey.1, hkey.2]) (hnew j hj hjb)
          · by_cases hjb : j = b
            · subst hjb
              simp [Bcache.key, hib] at hkey
              exact absurd (by simp [Bcache.key, hkey.1, hkey.2]) (hnew i hi hib)
            · simp only [Bcache.key, setBuf_buf, if_neg hib, if_neg hjb] at hkey ⊢
              exact h.keys i j hi hj hij hkey
        · intro j hj
          rw [hcount j]
          by_cases hjb : j = b
          · subst hjb
            simp [← h.refs j hj, hzero]
          · simp [hjb, Ne.symm hjb, h.refs j hj]
        · simpa using ⟨hb, h.held⟩

/-- INTERNAL: `brelse` drops one reference of `b` and changes no other field. -/
theorem brelse_buf (bc : Bcache) (b j : Nat) :
    (brelse bc b).buf j =
      if j = b then { bc.buf b with refcnt := (bc.buf b).refcnt - 1 } else bc.buf j := by
  by_cases hr : (bc.buf b).refcnt - 1 = 0 <;> simp [brelse, hr]

/-- INTERNAL: `brelse` moves `b` to the front when it drops its last reference. -/
theorem brelse_links (bc : Bcache) (b : Nat) :
    (brelse bc b).links = if (bc.buf b).refcnt - 1 = 0 then
      DList.pushFront (DList.unlink bc.links b) bcacheHead b else bc.links := by
  by_cases hr : (bc.buf b).refcnt - 1 = 0 <;> simp [brelse, hr]

theorem brelse_key (bc : Bcache) (b j : Nat) : (brelse bc b).key j = bc.key j := by
  by_cases hj : j = b <;> simp [Bcache.key, brelse_buf, hj]

/-- `brelse` keeps the invariant: the caller's reference is dropped, and the last one
moves the buffer to the front of the ring.
SOURCE: bio.c:126-147 -/
theorem BioInv.rel (h : BioInv s) (k : Nat) : BioInv (bioStep s (.rel k)).1 := by
  cases hk : s.holds[k]? with
  | none =>
      simp only [bioStep, hk]
      exact h
  | some b =>
      simp only [bioStep, hk]
      have hbmem : b ∈ s.holds := List.mem_of_getElem? hk
      have hb := h.held b hbmem
      have hcount := count_eraseIdx_add s.holds hk
      obtain ⟨order, hring, hperm⟩ := h.ring
      refine ⟨?_, ?_, ?_, ?_⟩
      · rw [brelse_links]
        split_ifs
        · refine ⟨b :: order.erase b, hring.moveFront ((mem_order_iff hperm).mpr hb), ?_⟩
          exact (List.perm_cons_erase ((mem_order_iff hperm).mpr hb)).symm.trans hperm
        · exact ⟨order, hring, hperm⟩
      · intro i j hi hj hij hkey
        simp only [brelse_key] at hkey ⊢
        exact h.keys i j hi hj hij hkey
      · -- the caller's entry leaves `holds` as its reference leaves `refcnt`
        intro j hj
        have hj' := hcount j
        rw [brelse_buf]
        by_cases hjb : j = b
        · subst hjb
          simp only [if_true] at hj' ⊢
          rw [h.refs j hj]
          omega
        · simp only [if_neg hjb, if_neg (Ne.symm hjb), Nat.add_zero] at hj' ⊢
          rw [h.refs j hj, hj']
      · exact fun j hj => h.held j ((List.eraseIdx_sublist _ _).mem hj)

/-- Every step keeps the invariant. -/
theorem BioInv.step (h : BioInv s) : ∀ op, BioInv (bioStep s op).1
  | .get dev blockno => h.get dev blockno
  | .fill k => h.onHeld k breadFill (.inl rfl)
  | .write k => h.onHeld k bwrite (.inr (.inl rfl))
  | .pin k => h.onHeld k logPin (.inr (.inr rfl))
  | .rel k => h.rel k

/-- A buffer's key changes only when `bget` recycles it, which needs it to have no
reference and no `B_DIRTY`. -/
theorem bioStep_key (h : BioInv s) (op : BioOp) (j : Nat) :
    (bioStep s op).1.bc.key j = s.bc.key j ∨ s.bc.recyclable j = true := by
  cases op with
  | get dev blockno =>
      simp only [bioStep]
      cases hget : bget s.bc dev blockno with
      | none => exact .inl rfl
      | some p =>
          obtain ⟨bc', b⟩ := p
          obtain ⟨_, hcase⟩ := bget_spec h hget
          by_cases hjb : j = b
          · subst hjb
            rcases hcase with ⟨_, rfl⟩ | ⟨_, hrec, _⟩
            · exact .inl (by simp [Bcache.key])
            · exact .inr hrec
          · rcases hcase with ⟨_, rfl⟩ | ⟨_, _, rfl⟩ <;> exact .inl (by simp [Bcache.key, hjb])
  | fill k => exact .inl (onHeld_key s k breadFill (.inl rfl) j)
  | write k => exact .inl (onHeld_key s k bwrite (.inr (.inl rfl)) j)
  | pin k => exact .inl (onHeld_key s k logPin (.inr (.inr rfl)) j)
  | rel k =>
      refine .inl ?_
      simp only [bioStep]
      split
      · exact brelse_key s.bc _ j
      · rfl

end Step

/-- Over any interleaving of buffer-cache steps from `binit`: the LRU pointers form a
ring of all `NBUF` buffers; two buffers share a `(dev, blockno)` only when it is
`(0, 0)`; each `refcnt` counts the callers holding the buffer; `bget` returns a buffer
carrying the block it was asked for, which either carried it already or had no
reference and no `B_DIRTY`; and no step changes the block of a buffer that is
referenced or pinned by `B_DIRTY`. -/
theorem bcache_invariant (links0 : DList.Links Nat) (ops : List BioOp) :
    (∃ order, DList.Ring (bioRun (BioSys.init links0) ops).1.bc.links bcacheHead order ∧
      order.Perm (List.range nbuf)) ∧
    (∀ i j, i < nbuf → j < nbuf → i ≠ j →
      (bioRun (BioSys.init links0) ops).1.bc.key i = (bioRun (BioSys.init links0) ops).1.bc.key j →
        (bioRun (BioSys.init links0) ops).1.bc.key i = (0, 0)) ∧
    (∀ b, b < nbuf → ((bioRun (BioSys.init links0) ops).1.bc.buf b).refcnt =
      (bioRun (BioSys.init links0) ops).1.holds.count b) ∧
    (∀ dev blockno bc' b, bget (bioRun (BioSys.init links0) ops).1.bc dev blockno = some (bc', b) →
      bc'.key b = (dev, blockno) ∧
        ((bioRun (BioSys.init links0) ops).1.bc.holdsBlock dev blockno b = true ∨
          ((((bioRun (BioSys.init links0) ops).1.bc.buf b).refcnt = 0 ∧
            ((bioRun (BioSys.init links0) ops).1.bc.buf b).dirty = false)))) ∧
    (∀ op b, (((bioRun (BioSys.init links0) ops).1.bc.buf b).dirty = true ∨
        0 < ((bioRun (BioSys.init links0) ops).1.bc.buf b).refcnt) →
      (bioStep (bioRun (BioSys.init links0) ops).1 op).1.bc.key b =
        (bioRun (BioSys.init links0) ops).1.bc.key b) := by
  have hinv : BioInv (bioRun (BioSys.init links0) ops).1 :=
    Run.run_inv bioStep BioInv (fun _ op h => h.step op) _ (BioInv.init links0) ops
  refine ⟨hinv.ring, hinv.keys, hinv.refs, ?_, ?_⟩
  · intro dev blockno bc' b hget
    obtain ⟨_, hcase⟩ := bget_spec hinv hget
    rcases hcase with ⟨hhold, rfl⟩ | ⟨_, hrec, rfl⟩
    · exact ⟨by simpa [Bcache.key] using key_of_holdsBlock hhold, .inl hhold⟩
    · exact ⟨by simp [Bcache.key], .inr (recyclable_iff.mp hrec)⟩
  · intro op b hpin
    rcases bioStep_key hinv op b with hk | hrec
    · exact hk
    · obtain ⟨hzero, hclean⟩ := recyclable_iff.mp hrec
      rcases hpin with hd | hr
      · rw [hclean] at hd
        exact absurd hd (by decide)
      · omega

/-- Right after `binit`, buffers `0` and `1` both carry block `(0, 0)`. -/
theorem bcache_init_duplicate_key :
    (0 : Nat) < nbuf ∧ (1 : Nat) < nbuf ∧
      (bioRun (BioSys.init ⟨fun _ => 0, fun _ => 0⟩) []).1.bc.key 0 =
        (bioRun (BioSys.init ⟨fun _ => 0, fun _ => 0⟩) []).1.bc.key 1 := by
  refine ⟨by decide, by decide, ?_⟩
  simp [bioRun, BioSys.init, binit, Bcache.key, Buf.zero]

end Xv6
