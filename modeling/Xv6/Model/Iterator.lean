import Xv6.Model.Vm

/-!
# The PTE iterator of a frame (vm.c:691-754, iterator.c)

`pa_pte_iterator_t` walks `ptable.proc` looking for the PTEs that map the frame `pa`
at the user address its page data records, `pd.la`.  Its cursor `next_item` and its end
`end` are pointers into `ptable.proc`, kept here as indices: `pa_pte_iterator_init`
sets the end to `ptable.proc + sizeof(ptable.proc) + sizeof(struct proc)`, the index
`NPROC + 1`.  `pa_pte_iterator_has_next` asks for a count `pd.ref_count` not yet
spent and a cursor not at the end; `pa_pte_iterator_get_next` scans from the cursor for
a live process whose page directory maps `pd.la` to a PTE that is not swapped and whose
`V2P(PTE_ADDR(*pte))` is `pa`, advancing the cursor and spending one count on a match,
and returns `NULL`, with the iterator as it was, when the scan reaches the end.

Index `NPROC` is one past `ptable.proc`: what lies there is not a `struct proc`, and a
scan that reaches it ends here with an error rather than reading it.
-/

set_option autoImplicit false

namespace Xv6

/-- `page_data_t` (proc.h:60-66) of a frame: its reference count and the user address
it was mapped at. -/
structure PageData where
  refCount : Int
  la : Nat

/-- `get_pd(pa)` (kalloc.c:191-206) without its bound check: the page data of the frame
holding `pa`. -/
def Mem.getPd (m : Mem) (pa : Nat) : PageData := ⟨m.ref (pa / pgsize), m.la (pa / pgsize)⟩

/-- `pa_pte_iterator_t` (iterator.h:20-24): the cursor and the end as indices into
`ptable.proc`, the iterator's copy of the page data, and the frame. -/
structure PaPteIterator where
  nextItem : Nat
  endItem : Nat
  pd : PageData
  pa : Nat

/-- `pa_pte_iterator_init(iterator, pd, pa)` (vm.c:691-708). -/
def paPteIteratorInit (pd : PageData) (pa : Nat) : PaPteIterator :=
  { nextItem := 0, endItem := nproc + 1, pd := pd, pa := pa }

/-- `pa_pte_iterator_has_next(iterator)` (vm.c:710-712), with `iterator_has_next`
(iterator.c:14-19) and no callback. -/
def paPteIteratorHasNext (it : PaPteIterator) : Bool :=
  it.pd.refCount ≠ 0 && it.nextItem ≠ it.endItem

/-- The scan of `pa_pte_iterator_get_next` (vm.c:726-737) from index `p`, with `fuel`
indices left: the iterator after it and the PTE found, `none` for `NULL`. -/
def getNextLoop (s : Vm) (it : PaPteIterator) : Nat → Nat → Except String (PaPteIterator × Option Nat)
  | 0, _ => pure (it, none)
  | fuel + 1, p =>
      if p = it.endItem then pure (it, none)
      else if h : p < nproc then
        let q := s.proc ⟨p, h⟩
        if q.state = .unused then getNextLoop s it fuel (p + 1)
        else do
          let (_, pte) ← walkpgdir s.mem q.pgdir it.pd.la false
          match pte with
          | none => getNextLoop s it fuel (p + 1)
          | some pte =>
              let w := s.mem.word pte
              if !hasFlag w pteS && v2p (pteAddr w) = it.pa then
                pure ({ it with nextItem := p + 1, pd := { it.pd with refCount := it.pd.refCount - 1 } },
                  some pte)
              else getNextLoop s it fuel (p + 1)
      else throw "pa_pte_iterator_get_next: past ptable.proc"

/-- `pa_pte_iterator_get_next(iterator)` (vm.c:714-741). -/
def paPteIteratorGetNext (s : Vm) (it : PaPteIterator) : Except String (PaPteIterator × Option Nat) :=
  getNextLoop s it (it.endItem - it.nextItem) it.nextItem

end Xv6
