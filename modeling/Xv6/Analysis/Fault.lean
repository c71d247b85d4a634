import Xv6.Analysis.Pgdir

/-!
# The page-fault handler

`handle_pagefault` (vm.c:621-673) refuses a fault at page 0, at or above `KERNBASE` and
above `sz` (`handlePagefault_refuses`).  Below that it chains three strategies whose
results it folds with `MAX`: a swapped page is read back, a copy-on-write page under a
write fault is copied, and whatever gave no `0` is allocated lazily.  Over an entry that
is neither swapped nor, under a write, copy-on-write, only the last one runs
(`handlePagefault_fallback`), and `lazyalloc` maps a fresh frame with `PTE_W | PTE_U`
over whatever the entry held.

That fallback is reached by three kinds of fault that the handler should not resolve
this way:

* a fault at `va = sz`: the bound is `va > sz`, so the page just past the image is
  mapped (`handlePagefault_maps_page_at_sz`);
* a fault on a present page that is neither copy-on-write nor swapped, such as the stack
  guard page whose `PTE_U` `exec` cleared: `mappage` finds it present and panics with
  `remap` (`handlePagefault_remap_panics`);
* a fault without `PTE_W` on a present copy-on-write page, such as the guard page after
  `fork`: its frame is replaced without `dec_ref_pa`, so the old frame keeps a count for
  a mapping that is gone, and the page becomes writable and user-accessible
  (`handlePagefault_drops_cow_mapping`).
-/

set_option autoImplicit false

namespace Xv6

section Handler

variable (kernEnd : Nat)

/-- Outside `[PGSIZE, KERNBASE)` and above `sz`, the handler returns `-1` and changes
nothing. -/
theorem handlePagefault_refuses (s : Vm) (cur : Fin nproc) (addr err : Nat)
    (h : pgrounddown addr = 0 ∨ kernbase ≤ pgrounddown addr ∨ (s.proc cur).sz < pgrounddown addr) :
    handlePagefault kernEnd s cur addr err = .ok (s, -1) := by
  unfold handlePagefault
  dsimp only
  split_ifs with h0 hk hsz
  · rfl
  · rfl
  · rfl
  · omega

/-- A fault in range on an entry that is not swapped and is not copy-on-write under a
write fault goes to `lazyalloc`: the swap-in and copy-on-write strategies both give
`-1`. -/
theorem handlePagefault_fallback (s : Vm) (cur : Fin nproc) (addr err : Nat)
    (h0 : pgrounddown addr ≠ 0) (hk : pgrounddown addr < kernbase)
    (hsz : pgrounddown addr ≤ (s.proc cur).sz)
    (hpde : hasFlag (s.mem.word (pdeOf (s.proc cur).pgdir (pgrounddown addr))) pteP = true)
    (hs : hasFlag (s.mem.word (pteOf s.mem (s.proc cur).pgdir (pgrounddown addr))) pteS = false)
    (hc : (hasFlag (s.mem.word (pteOf s.mem (s.proc cur).pgdir (pgrounddown addr))) pteC &&
      hasFlag err pteW) = false) :
    handlePagefault kernEnd s cur addr err =
      (lazyalloc kernEnd s.mem (pgrounddown addr) (s.proc cur).pgdir) >>=
        fun r => pure ({ s with mem := r.1 }, r.2) := by
  unfold handlePagefault
  simp only [h0, Nat.not_le.mpr hk, Nat.not_lt.mpr hsz, if_false]
  rw [walkpgdir_present false hpde]
  simp only [Run.ok_bind, pure_bind, hs, hc, Bool.false_eq_true, if_false]
  rfl

/-- **A fault at `sz` is resolved.**  At the page-aligned size of a process, where the page
table of that page exists and the page is not mapped, the handler maps the first free
frame and returns `0`, though the page is not below `sz`. -/
theorem handlePagefault_maps_page_at_sz (s : Vm) (cur : Fin nproc) (addr err pa : Nat)
    (rest : List Nat) (hva : pgrounddown addr = (s.proc cur).sz) (hsz : pgsize ≤ (s.proc cur).sz)
    (hk : (s.proc cur).sz < kernbase) (hpgdir : (s.proc cur).pgdir % pgsize = 0)
    (hpde : hasFlag (s.mem.word (pdeOf (s.proc cur).pgdir (s.proc cur).sz)) pteP = true)
    (hpte : s.mem.word (pteOf s.mem (s.proc cur).pgdir (s.proc cur).sz) = 0)
    (hfl : s.mem.freelist = pa :: rest) (hpa : pa ≤ phystop) (href : s.mem.getRef pa = 0)
    (hpaa : pa % pgsize = 0) (hpd : pa ≠ (s.proc cur).pgdir)
    (hpt : pa ≠ pteAddr (s.mem.word (pdeOf (s.proc cur).pgdir (s.proc cur).sz))) :
    ¬ pgrounddown addr < (s.proc cur).sz ∧
      ∃ s', handlePagefault kernEnd s cur addr err = .ok (s', 0) ∧
        s'.mem.word (pteOf s.mem (s.proc cur).pgdir (s.proc cur).sz) =
          pa ||| (pteW ||| pteU) ||| pteP ∧
        s'.mem.freelist = rest := by
  set pte := pteOf s.mem (s.proc cur).pgdir (s.proc cur).sz
  have hvaa : (s.proc cur).sz % pgsize = 0 := hva ▸ pgrounddown_aligned addr
  have hw : (s.mem.takeZeroed pa rest).word pte = 0 := by
    rw [Mem.takeZeroed_pte _ _ _ hpaa hpt, hpte]
  have hmap := @mappage_ok _ (s.proc cur).sz _ _ (pteW ||| pteU)
    (by rw [hw, hasFlag_zero, Bool.false_and, Bool.false_and]) hk hpa
  refine ⟨by omega, { s with mem := ((s.mem.takeZeroed pa rest).setWord pte
      (pa ||| (pteW ||| pteU) ||| pteP)).setLa pa (s.proc cur).sz }, ?_, by simp, by simp⟩
  have hfall := handlePagefault_fallback kernEnd s cur addr err (by unfold pgsize at hsz; omega)
    (by omega) (by omega) (by rw [hva]; exact hpde) (by rw [hva, hpte, hasFlag_zero])
    (by rw [hva, hpte, hasFlag_zero, Bool.false_and])
  rw [hfall, hva, lazyalloc_present kernEnd hfl hpa href hpaa hvaa hk hpgdir hpde hpd, hmap]
  rfl

/-- **A fault on a present page panics.**  A fault in range on an entry that is present,
not copy-on-write and not swapped, such as the stack guard page, falls through to
`lazyalloc`, whose `mappage` finds the entry present: `panic("remap")`. -/
theorem handlePagefault_remap_panics (s : Vm) (cur : Fin nproc) (addr err pa : Nat)
    (rest : List Nat) (h0 : pgrounddown addr ≠ 0) (hk : pgrounddown addr < kernbase)
    (hsz : pgrounddown addr ≤ (s.proc cur).sz) (hpgdir : (s.proc cur).pgdir % pgsize = 0)
    (hpde : hasFlag (s.mem.word (pdeOf (s.proc cur).pgdir (pgrounddown addr))) pteP = true)
    (hp : hasFlag (s.mem.word (pteOf s.mem (s.proc cur).pgdir (pgrounddown addr))) pteP = true)
    (hc : hasFlag (s.mem.word (pteOf s.mem (s.proc cur).pgdir (pgrounddown addr))) pteC = false)
    (hs : hasFlag (s.mem.word (pteOf s.mem (s.proc cur).pgdir (pgrounddown addr))) pteS = false)
    (hfl : s.mem.freelist = pa :: rest) (hpa : pa ≤ phystop) (href : s.mem.getRef pa = 0)
    (hpaa : pa % pgsize = 0) (hpd : pa ≠ (s.proc cur).pgdir)
    (hpt : pa ≠ pteAddr (s.mem.word (pdeOf (s.proc cur).pgdir (pgrounddown addr)))) :
    handlePagefault kernEnd s cur addr err = .error "remap" := by
  have hw := Mem.takeZeroed_pte s.mem rest (pgrounddown addr) hpaa hpt
  have hfall := handlePagefault_fallback kernEnd s cur addr err h0 hk hsz hpde hs
    (by rw [hc, Bool.false_and])
  rw [hfall, lazyalloc_present kernEnd hfl hpa href hpaa (pgrounddown_aligned addr) hk hpgdir hpde hpd,
    mappage_remap (hw ▸ hp) (hw ▸ hc) (hw ▸ hs)]
  rfl

/-- **A read fault on a copy-on-write page drops a mapping and keeps its count.**  A
fault without `PTE_W` on a present copy-on-write entry falls through to `lazyalloc`,
which maps a fresh frame writable and user-accessible over the entry: the frame the entry
shared loses that mapping, but `dec_ref_pa` is never called, so its count stays. -/
theorem handlePagefault_drops_cow_mapping (s : Vm) (cur : Fin nproc) (addr err pa : Nat)
    (rest : List Nat) (h0 : pgrounddown addr ≠ 0) (hk : pgrounddown addr < kernbase)
    (hsz : pgrounddown addr ≤ (s.proc cur).sz) (hpgdir : (s.proc cur).pgdir % pgsize = 0)
    (hpde : hasFlag (s.mem.word (pdeOf (s.proc cur).pgdir (pgrounddown addr))) pteP = true)
    (hc : hasFlag (s.mem.word (pteOf s.mem (s.proc cur).pgdir (pgrounddown addr))) pteC = true)
    (hs : hasFlag (s.mem.word (pteOf s.mem (s.proc cur).pgdir (pgrounddown addr))) pteS = false)
    (herr : hasFlag err pteW = false)
    (hfl : s.mem.freelist = pa :: rest) (hpa : pa ≤ phystop) (href : s.mem.getRef pa = 0)
    (hpaa : pa % pgsize = 0) (hpd : pa ≠ (s.proc cur).pgdir)
    (hpt : pa ≠ pteAddr (s.mem.word (pdeOf (s.proc cur).pgdir (pgrounddown addr))))
    (hold : pteAddr (s.mem.word (pteOf s.mem (s.proc cur).pgdir (pgrounddown addr))) ≠ pa) :
    ∃ s', handlePagefault kernEnd s cur addr err = .ok (s', 0) ∧
      s'.mem.word (pteOf s.mem (s.proc cur).pgdir (pgrounddown addr)) =
        pa ||| (pteW ||| pteU) ||| pteP ∧
      s'.mem.getRef (pteAddr (s.mem.word (pteOf s.mem (s.proc cur).pgdir (pgrounddown addr)))) =
        s.mem.getRef (pteAddr (s.mem.word (pteOf s.mem (s.proc cur).pgdir (pgrounddown addr)))) := by
  set pte := pteOf s.mem (s.proc cur).pgdir (pgrounddown addr)
  have hw := Mem.takeZeroed_pte s.mem rest (pgrounddown addr) hpaa hpt
  -- a copy-on-write entry is no `remap`
  have hmap := @mappage_ok (s.mem.takeZeroed pa rest) (pgrounddown addr) pte _ (pteW ||| pteU)
    (by rw [hw, hc]; simp) hk hpa
  refine ⟨{ s with mem := ((s.mem.takeZeroed pa rest).setWord pte
      (pa ||| (pteW ||| pteU) ||| pteP)).setLa pa (pgrounddown addr) }, ?_, by simp, ?_⟩
  · have hfall := handlePagefault_fallback kernEnd s cur addr err h0 hk hsz hpde hs
      (by rw [herr, Bool.and_false])
    rw [hfall, lazyalloc_present kernEnd hfl hpa href hpaa (pgrounddown_aligned addr) hk hpgdir hpde hpd,
      hmap]
    rfl
  · -- only the new frame's count changed
    have hne : pteAddr (s.mem.word pte) / pgsize ≠ pa / pgsize :=
      frame_ne_of_aligned (pteAddr_aligned _) hpaa hold
    simp only [Mem.getRef_eq_of_ref _ (Mem.setLa_ref _ _ _), Mem.getRef_eq_of_ref _ (Mem.setWord_ref _ _ _),
      Mem.takeZeroed_getRef, hne, if_false]

end Handler

/-- One live process, in slot 0, of size `sz` with its page directory at `0x10000`, whose
first entry points to the page table at `0x11000`; the entry there of the page at
`0x2000` holds `w`, pointing, if at all, to the frame at `0x13000` of count `ref`, whose
page data records that address.  The other slots are unused, and the frame `0x12000` is
free. -/
def faultDemo (sz w : Nat) (ref : Int) : Vm where
  mem :=
    { ref := fun n => if n = 0x13 then ref else 0
      la := fun n => if n = 0x13 then 0x2000 else 0
      freelist := [0x12000]
      word := fun a => if a = 0x10000 then 0x11007 else if a = 0x11008 then w else 0
      byte := fun _ => 0 }
  proc := fun i => if i.val = 0 then ⟨.running, 0x10000, sz, false⟩ else ⟨.unused, 0, 0, false⟩
  swapfile := ⟨0, fun _ => 0, 0, fun _ => 0, 7040⟩
  swapMap := SwapMap.empty
  held := []

/-- A process of two pages faults at `0x2000`, its size. -/
theorem fault_at_sz_of_two_pages_maps :
    ¬ pgrounddown 0x2000 < 0x2000 ∧
      ∃ s', handlePagefault 0 (faultDemo 0x2000 0 0) ⟨0, by decide⟩ 0x2000 6 = .ok (s', 0) ∧
        s'.mem.word 0x11008 = 0x12000 ||| (pteW ||| pteU) ||| pteP ∧ s'.mem.freelist = [] :=
  (handlePagefault_maps_page_at_sz 0 (faultDemo 0x2000 0 0) ⟨0, by decide⟩ 0x2000 6 0x12000 []
    (by decide) (by decide) (by decide) (by decide) (by decide) (by decide) (by decide)
    (by decide) (by decide) (by decide) (by decide) (by decide) :)

/-- The stack guard page, present and writable but not user-accessible, under a user
write: `remap`. -/
theorem guard_page_fault_panics :
    handlePagefault 0 (faultDemo 0x4000 (0x13000 ||| pteW ||| pteP) 1) ⟨0, by decide⟩ 0x2000 7 =
      .error "remap" :=
  (handlePagefault_remap_panics 0 (faultDemo 0x4000 (0x13000 ||| pteW ||| pteP) 1) ⟨0, by decide⟩
    0x2000 7 0x12000 [] (by decide) (by decide) (by decide) (by decide) (by decide) (by decide)
    (by decide) (by decide) (by decide) (by decide) (by decide) (by decide) (by decide) (by decide) :)

/-- The guard page after `fork`, copy-on-write and shared by two, under a user read: the
entry maps a fresh user page and the shared frame keeps its count of two. -/
theorem forked_guard_page_read_keeps_count :
    ∃ s', handlePagefault 0 (faultDemo 0x4000 (0x13000 ||| pteC ||| pteP) 2) ⟨0, by decide⟩
        0x2000 5 = .ok (s', 0) ∧
      s'.mem.word 0x11008 = 0x12000 ||| (pteW ||| pteU) ||| pteP ∧
        s'.mem.getRef 0x13000 = (faultDemo 0x4000 (0x13000 ||| pteC ||| pteP) 2).mem.getRef 0x13000 :=
  (handlePagefault_drops_cow_mapping 0 (faultDemo 0x4000 (0x13000 ||| pteC ||| pteP) 2)
    ⟨0, by decide⟩ 0x2000 5 0x12000 [] (by decide) (by decide) (by decide) (by decide) (by decide)
    (by decide) (by decide) (by decide) (by decide) (by decide) (by decide) (by decide) (by decide)
    (by decide) (by decide) :)

end Xv6
