import Xv6.Model.Iterator
import Xv6.Analysis.Exec

/-!
# The PTE iterator finds nothing and runs off `ptable.proc`

`pa_pte_iterator_get_next` compares `V2P(PTE_ADDR(*pte))` with the frame `pa`.  A PTE
holds a physical address, so `V2P` of it, the address minus `KERNBASE` modulo `2^32`,
is at least `2^31` for every frame below `KERNBASE`, and never equals a physical frame
(`v2p_ne_of_lt`).  No process matches, so the scan passes every entry of `ptable.proc`
(`getNextLoop_skip`, `getNextLoop_run`) and reaches the index `NPROC`, one past the
array, which `pa_pte_iterator_init`'s end of `NPROC + 1` lets it read.

In the source, past that read the scan returns `NULL` with the cursor and count
unchanged, so `pa_pte_iterator_has_next` stays true: `interract_with_pte` calls its
callback with `NULL` forever, and `swapwrite_file` writes through the `NULL` PTE.
-/

set_option autoImplicit false

namespace Xv6

/-- INTERNAL: `V2P` of an address below `KERNBASE` is not an address below `KERNBASE`:
it wraps to `a + 2^31`. -/
theorem v2p_ne_of_lt {a pa : Nat} (ha : a < kernbase) (hpa : pa < kernbase) : v2p a ≠ pa := by
  have hk : kernbase = 2 ^ 31 := rfl
  unfold v2p
  rw [uintMod_eq]
  omega

section Scan

variable (s : Vm) (it : PaPteIterator)

/-- No live process of `s` maps `it`'s user address to a PTE of `it`'s frame: every
present page table holds, at that address, an entry below `KERNBASE`. -/
def NoMatch : Prop :=
  it.pa < kernbase ∧ ∀ i : Fin nproc, (s.proc i).state ≠ .unused →
    hasFlag (s.mem.word (pdeOf (s.proc i).pgdir it.pd.la)) pteP = true →
      pteAddr (s.mem.word (pteOf s.mem (s.proc i).pgdir it.pd.la)) < kernbase

variable {s it}

/-- One index of the scan without a match: on to the next. -/
theorem getNextLoop_skip (h : NoMatch s it) {p : Nat} (hp : p < nproc) (hend : p ≠ it.endItem)
    (fuel : Nat) : getNextLoop s it (fuel + 1) p = getNextLoop s it fuel (p + 1) := by
  rw [getNextLoop, if_neg hend, dif_pos hp]
  by_cases hu : (s.proc ⟨p, hp⟩).state = .unused
  · rw [if_pos hu]
  · rw [if_neg hu]
    by_cases hpde : hasFlag (s.mem.word (pdeOf (s.proc ⟨p, hp⟩).pgdir it.pd.la)) pteP = true
    · -- the entry's address is below `KERNBASE`, so `V2P` of it is not the frame
      have hne := v2p_ne_of_lt (h.2 ⟨p, hp⟩ hu hpde) h.1
      rw [walkpgdir_present false hpde]
      simp only [Run.ok_bind, hne, decide_false, Bool.and_false, Bool.false_eq_true, if_false]
    · rw [walkpgdir_absent (by simpa using hpde)]
      rfl

/-- The scan from index `p` without a match reaches `NPROC`, past the array. -/
theorem getNextLoop_run (h : NoMatch s it) (hend : it.endItem = nproc + 1) :
    ∀ (k p fuel : Nat), p + k = nproc →
      getNextLoop s it (fuel + k + 1) p = .error "pa_pte_iterator_get_next: past ptable.proc" := by
  intro k
  induction k with
  | zero =>
      intro p fuel hp
      rw [getNextLoop, if_neg (by omega), dif_neg (by omega)]
      rfl
  | succ k ih =>
      intro p fuel hp
      rw [show fuel + (k + 1) + 1 = fuel + k + 1 + 1 by omega,
        getNextLoop_skip h (by omega) (by omega), ih (p + 1) fuel (by omega)]

end Scan

/-- **The iterator runs off `ptable.proc`.**  In any state whose live page tables map
the frame's user address, where present, to an address below `KERNBASE`, for any frame
`pa` below `KERNBASE` whose page data has a nonzero count: `pa_pte_iterator_has_next`
holds after `pa_pte_iterator_init`, and the first `pa_pte_iterator_get_next` finds no
PTE among the `NPROC` processes and goes on to the entry past `ptable.proc`. -/
theorem pa_pte_iterator_reads_past_ptable (s : Vm) {pa : Nat} (hpa : pa < kernbase)
    (hlow : ∀ i : Fin nproc, (s.proc i).state ≠ .unused →
      hasFlag (s.mem.word (pdeOf (s.proc i).pgdir (s.mem.getPd pa).la)) pteP = true →
      pteAddr (s.mem.word (pteOf s.mem (s.proc i).pgdir (s.mem.getPd pa).la)) < kernbase)
    (href : (s.mem.getPd pa).refCount ≠ 0) :
    paPteIteratorHasNext (paPteIteratorInit (s.mem.getPd pa) pa) = true ∧
      paPteIteratorGetNext s (paPteIteratorInit (s.mem.getPd pa) pa) =
        .error "pa_pte_iterator_get_next: past ptable.proc" := by
  refine ⟨by simp [paPteIteratorHasNext, paPteIteratorInit, href], ?_⟩
  have hrun := @getNextLoop_run s (paPteIteratorInit (s.mem.getPd pa) pa) ⟨hpa, hlow⟩ rfl
    nproc 0 0 (by omega)
  rw [paPteIteratorGetNext]
  simpa [paPteIteratorInit] using hrun

/-- The live process, of size `0x2000`, has the entry of the page `0x2000` map the frame
`0x13000` of one reference, whose page data records that address. -/
def iteratorDemo : Vm := faultDemo 0x2000 (0x13000 ||| pteW ||| pteU ||| pteP) 1

/-- The frame `0x13000` of that state, mapped at its user address `0x2000` by the live
process's entry, which holds the physical address. -/
theorem pa_pte_iterator_fault_demo :
    (0x13000 : Nat) < kernbase ∧
      (∀ i : Fin nproc, (iteratorDemo.proc i).state ≠ .unused →
        hasFlag (iteratorDemo.mem.word (pdeOf (iteratorDemo.proc i).pgdir
          (iteratorDemo.mem.getPd 0x13000).la)) pteP = true →
        pteAddr (iteratorDemo.mem.word (pteOf iteratorDemo.mem (iteratorDemo.proc i).pgdir
          (iteratorDemo.mem.getPd 0x13000).la)) < kernbase) ∧
      (iteratorDemo.mem.getPd 0x13000).refCount ≠ 0 ∧
      paPteIteratorHasNext (paPteIteratorInit (iteratorDemo.mem.getPd 0x13000) 0x13000) = true ∧
      paPteIteratorGetNext iteratorDemo (paPteIteratorInit (iteratorDemo.mem.getPd 0x13000) 0x13000) =
        .error "pa_pte_iterator_get_next: past ptable.proc" :=
  ⟨by decide, by decide, by decide,
    pa_pte_iterator_reads_past_ptable iteratorDemo (by decide) (by decide) (by decide)⟩

end Xv6
