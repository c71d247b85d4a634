import Xv6.Analysis.Shrink
import Xv6.Analysis.Exec

/-!
# `copyout` and the pages it cannot reach

`uva2ka` tests `PTE_P` and `PTE_U` before it looks at `PTE_S` and `PTE_C`.  `swap()`
clears `PTE_P` of the page it swaps out, so a swapped page gives `NULL` at the first
test and its `swaprestore` branch is never taken: `copyout` to a swapped page of the
image returns `-1` and changes nothing (`copyout_nonpresent_page_fails`), although the
page's content is in the swap file.  A range whose page-directory entry has no page
table, as a lazily grown image past a 4 MiB boundary has, makes `uva2ka` read through a
`NULL` PTE (`copyout_no_table_reads_null_pte`).

On a present page of the user that is neither swapped nor copy-on-write, the copy
writes the bytes into the page's frame (`copyout_present_page`).
-/

set_option autoImplicit false

namespace Xv6

section Copyout

variable (kernEnd : Nat)

/-- INTERNAL: `uva2ka` of a page that is not present is `NULL`. -/
theorem uva2ka_not_present (s : Vm) {pgdir uva : Nat}
    (hpde : hasFlag (s.mem.word (pdeOf pgdir uva)) pteP = true)
    (hP : hasFlag (s.mem.word (pteOf s.mem pgdir uva)) pteP = false) :
    uva2ka kernEnd s pgdir uva = .ok (s, none) := by
  rw [uva2ka, walkpgdir_present false hpde]
  simp only [Run.ok_bind, hP, Bool.not_false, if_true]
  rfl

/-- INTERNAL: `uva2ka` of a page without a page table reads the `NULL` PTE. -/
theorem uva2ka_no_table (s : Vm) {pgdir uva : Nat}
    (hpde : hasFlag (s.mem.word (pdeOf pgdir uva)) pteP = false) :
    uva2ka kernEnd s pgdir uva = .error "uva2ka: NULL pte" := by
  rw [uva2ka, walkpgdir_absent hpde]
  rfl

/-- INTERNAL: `uva2ka` of a present user page, neither swapped nor copy-on-write, is its
frame. -/
theorem uva2ka_present (s : Vm) {pgdir uva : Nat}
    (hpde : hasFlag (s.mem.word (pdeOf pgdir uva)) pteP = true)
    (hP : hasFlag (s.mem.word (pteOf s.mem pgdir uva)) pteP = true)
    (hU : hasFlag (s.mem.word (pteOf s.mem pgdir uva)) pteU = true)
    (hS : hasFlag (s.mem.word (pteOf s.mem pgdir uva)) pteS = false)
    (hC : hasFlag (s.mem.word (pteOf s.mem pgdir uva)) pteC = false) :
    uva2ka kernEnd s pgdir uva = .ok (s, some (pteAddr (s.mem.word (pteOf s.mem pgdir uva)))) := by
  rw [uva2ka, walkpgdir_present false hpde]
  simp only [Run.ok_bind, hP, hU, hS, hC, Bool.not_true, Bool.false_eq_true, if_false, pure_bind]
  rfl

/-- INTERNAL: the first pass of `copyout`'s loop, with `len` bytes to copy. -/
theorem copyout_eq (s : Vm) (pgdir va : Nat) (p : Nat → UInt8) (len : Nat) :
    copyout kernEnd s pgdir va p len = copyoutLoop kernEnd pgdir p (len / pgsize + 1 + 1) s va 0 len :=
  rfl

/-- **`copyout` refuses a page that is not present, swapped pages included.**  When the
first page of the range has a page table but its PTE is not present, as `swap()` leaves
a swapped page, `copyout` returns `-1` and the state is as it was. -/
theorem copyout_nonpresent_page_fails (s : Vm) (pgdir va : Nat) (p : Nat → UInt8) {len : Nat}
    (hlen : 0 < len) (hpde : hasFlag (s.mem.word (pdeOf pgdir (pgrounddown va))) pteP = true)
    (hP : hasFlag (s.mem.word (pteOf s.mem pgdir (pgrounddown va))) pteP = false) :
    copyout kernEnd s pgdir va p len = .ok (s, -1) := by
  rw [copyout_eq, copyoutLoop, if_pos hlen]
  dsimp only
  rw [uva2ka_not_present kernEnd s hpde hP]
  rfl

/-- `copyout` into a range without a page table reads the `NULL` PTE. -/
theorem copyout_no_table_reads_null_pte (s : Vm) (pgdir va : Nat) (p : Nat → UInt8) {len : Nat}
    (hlen : 0 < len) (hpde : hasFlag (s.mem.word (pdeOf pgdir (pgrounddown va))) pteP = false) :
    copyout kernEnd s pgdir va p len = .error "uva2ka: NULL pte" := by
  rw [copyout_eq, copyoutLoop, if_pos hlen]
  dsimp only
  rw [uva2ka_no_table kernEnd s hpde]
  rfl

/-- `copyout` of a range within one present user page that is neither swapped nor
copy-on-write writes the bytes into the page's frame, at the range's offset. -/
theorem copyout_present_page (s : Vm) (pgdir va : Nat) (p : Nat → UInt8) {len : Nat}
    (hlen : 0 < len) (hfit : va % pgsize + len ≤ pgsize)
    (hpde : hasFlag (s.mem.word (pdeOf pgdir (pgrounddown va))) pteP = true)
    (hP : hasFlag (s.mem.word (pteOf s.mem pgdir (pgrounddown va))) pteP = true)
    (hU : hasFlag (s.mem.word (pteOf s.mem pgdir (pgrounddown va))) pteU = true)
    (hS : hasFlag (s.mem.word (pteOf s.mem pgdir (pgrounddown va))) pteS = false)
    (hC : hasFlag (s.mem.word (pteOf s.mem pgdir (pgrounddown va))) pteC = false) :
    copyout kernEnd s pgdir va p len =
      .ok ({ s with mem := { s.mem with byte := (Window.overlay s.mem.byte
        (pteAddr (s.mem.word (pteOf s.mem pgdir (pgrounddown va))) + va % pgsize) len p) } }, 0) := by
  have hoff : va - pgrounddown va = va % pgsize := by
    unfold pgrounddown
    have := Nat.div_add_mod va pgsize
    rw [Nat.mul_comm] at this
    omega
  have hn : min (pgsize - va % pgsize) len = len := by omega
  rw [copyout_eq, copyoutLoop, if_pos hlen]
  dsimp only
  rw [uva2ka_present kernEnd s hpde hP hU hS hC]
  simp only [Run.ok_bind, hoff, hn, Nat.sub_self, Nat.zero_add]
  -- nothing is left, so the next pass returns `0`
  rw [copyoutLoop, if_neg (by omega)]
  rfl

end Copyout

/-- `copyout` of three bytes to `0x2005` of the process whose top page, `0x2000`, is
swapped out. -/
theorem copyout_to_swapped_page_fails :
    hasFlag (swapDemo.mem.word 0x11008) pteS = true ∧
      hasFlag (swapDemo.mem.word (pdeOf 0x10000 (pgrounddown 0x2005))) pteP = true ∧
      hasFlag (swapDemo.mem.word (pteOf swapDemo.mem 0x10000 (pgrounddown 0x2005))) pteP = false ∧
      copyout 0 swapDemo 0x10000 0x2005 (fun _ => 1) 3 = .ok (swapDemo, -1) :=
  ⟨by decide, by decide, by decide,
    copyout_nonpresent_page_fails 0 swapDemo 0x10000 0x2005 (fun _ => 1) (by decide) (by decide) (by decide)⟩

end Xv6
