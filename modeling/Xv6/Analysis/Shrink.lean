import Xv6.Model.Syscall
import Xv6.Analysis.Fault

/-!
# Shrinking an address space

`growproc(n)` with `n < 0` calls `deallocuvm(pgdir, sz, sz + n)`, a `uint` sum, and takes
its result for the new size, `0` meaning failure.  Two boundaries go wrong:

* For `-n > sz` the sum wraps to a size above `sz`; `deallocuvm` then frees nothing and
  returns `sz`, and `growproc` reports success with the size unchanged
  (`growproc_shrink_past_zero_succeeds`).
* A swapped page in the range goes to `swapfree_file`, which releases `ptable.lock` when
  it drops the page's last PTE.  `growproc` runs from `sys_sbrk` without that lock, and
  `release` panics (`growproc_frees_swapped_page_panics`).
-/

set_option autoImplicit false

namespace Xv6

/-! ## Sizes -/

@[simp] theorem Vm.setSz_proc_self (s : Vm) (cur : Fin nproc) (sz : Nat) :
    ((s.setSz cur sz).proc cur).sz = sz := by
  simp [Vm.setSz]

/-- Setting a process's size to what it is changes nothing. -/
theorem Vm.setSz_same (s : Vm) (cur : Fin nproc) : s.setSz cur (s.proc cur).sz = s := by
  unfold Vm.setSz
  rw [show ({ s.proc cur with sz := (s.proc cur).sz } : VmProc) = s.proc cur from rfl,
    Function.update_eq_self]

/-- `sz + n` for a negative `int` `n`, as the `uint` sum `growproc` passes on: `sz - |n|`
when that is not below zero, and `sz + 2^32 - |n|` otherwise. -/
theorem add_toUint_of_neg {sz : Nat} {n : Int} (hn : -(uintMod : Int) ≤ n) (h : n < 0)
    (hsz : sz < uintMod) :
    (((sz + toUint n) % uintMod : Nat) : Int) = if -n ≤ sz then sz + n else sz + n + uintMod := by
  have hu : (toUint n : Int) = n + uintMod := toUint_of_neg hn h
  split_ifs with hle
  · -- the sum wraps once, to `sz - |n|`
    have hge : uintMod ≤ sz + toUint n := by omega
    rw [Nat.mod_eq_sub_mod hge, Nat.mod_eq_of_lt (by omega)]
    omega
  · rw [Nat.mod_eq_of_lt (by omega)]
    omega

/-! ## The swap map -/

/-- A PTE found in a bin is under a key the bin has. -/
theorem SwapMap.hasKey_of_findPte {bin : List SwapNode} {key : SwapUniqueKey} {pte : Nat}
    {r : Nat × SwapNode} (h : SwapMap.findPte bin key pte = some r) : SwapMap.hasKey bin key = true := by
  induction bin generalizing r with
  | nil => simp [SwapMap.findPte] at h
  | cons n bin ih =>
      unfold SwapMap.findPte at h
      unfold SwapMap.hasKey
      split_ifs at h with hn
      · simp [hn.1]
      · obtain ⟨r', hr', -⟩ := Option.map_eq_some_iff.mp h
        have := ih hr'
        unfold SwapMap.hasKey at this
        simp [this]

section Locks

variable (kernEnd : Nat)

/-- `swapfree_file` dropping the last PTE of a node releases `ptable.lock`, which a caller
that does not hold it cannot give up: `panic("release")`. -/
theorem swapfreeFile_release_panics (s : Vm) (pa la pte j : Nat) (node : SwapNode)
    (hfind : SwapMap.findPte (s.swapMap (swapMapHash kernEnd ⟨la, pa⟩)) ⟨la, pa⟩ pte = some (j, node))
    (hlast : node.ptes.erase pte = []) (hmap : Spinlock.swapMap ∉ s.held)
    (hpt : Spinlock.ptable ∉ s.held) :
    swapfreeFile kernEnd s pa la pte = .error "release" := by
  have hkey := SwapMap.hasKey_of_findPte hfind
  unfold swapfreeFile
  simp [acquire, release, hmap, hpt, hkey, hfind, hlast]
  rfl

end Locks

/-! ## `deallocuvm` -/

section Dealloc

variable (kernEnd : Nat)

/-- `deallocuvm` to a size that is not smaller frees nothing. -/
theorem deallocuvm_of_ge (s : Vm) (pgdir oldsz newsz : Nat) (h : oldsz ≤ newsz) :
    deallocuvm kernEnd s pgdir oldsz newsz = .ok (s, oldsz) := by
  simp [deallocuvm, h, pure, Except.pure]

/-- `deallocuvm` to a smaller size runs its loop from `PGROUNDUP(newsz)`. -/
theorem deallocuvm_of_lt (s : Vm) (pgdir oldsz newsz : Nat) (h : newsz < oldsz) :
    deallocuvm kernEnd s pgdir oldsz newsz =
      (deallocuvmLoop kernEnd pgdir oldsz (oldsz / pgsize + 1) s (pgroundup newsz)) >>=
        fun s => pure (s, newsz) := by
  simp [deallocuvm, Nat.not_le.mpr h]

/-- One pass of the loop of `deallocuvm` over a swapped page: `swapfree_file`, then the
entry is cleared. -/
theorem deallocuvmLoop_swapped (pgdir oldsz fuel : Nat) (s : Vm) {a : Nat} (ha : a < oldsz)
    (hpde : hasFlag (s.mem.word (pdeOf pgdir a)) pteP = true)
    (hp : hasFlag (s.mem.word (pteOf s.mem pgdir a)) pteP = false)
    (hs : hasFlag (s.mem.word (pteOf s.mem pgdir a)) pteS = true)
    (h0 : pteAddr (s.mem.word (pteOf s.mem pgdir a)) ≠ 0) :
    deallocuvmLoop kernEnd pgdir oldsz (fuel + 1) s a = (do
      let s' ← swapfreeFile kernEnd s (pteAddr (s.mem.word (pteOf s.mem pgdir a))) a (pteOf s.mem pgdir a)
      deallocuvmLoop kernEnd pgdir oldsz fuel { s' with mem := s'.mem.setWord (pteOf s.mem pgdir a) 0 }
        ((a + pgsize) % uintMod)) := by
  rw [deallocuvmLoop, if_pos ha, walkpgdir_present false hpde]
  simp only [Run.ok_bind, pure_bind, hp, hs, h0, Bool.false_eq_true, if_false, if_true]

end Dealloc

/-! ## `growproc` -/

section Grow

variable (kernEnd : Nat)

/-- `growproc` of a negative `n` is `deallocuvm` to the `uint` sum `sz + n`. -/
theorem growproc_of_neg (s : Vm) (cur : Fin nproc) {n : Int} (h : n < 0) :
    growproc kernEnd s cur n =
      (deallocuvm kernEnd s (s.proc cur).pgdir (s.proc cur).sz
        (((s.proc cur).sz + toUint n) % uintMod)) >>=
        fun r => if r.2 = 0 then pure (r.1, -1) else pure (r.1.setSz cur r.2, 0) := by
  unfold growproc
  simp only [show ¬ n > 0 by omega, h, if_false, if_true]

/-- **Shrinking past zero succeeds and changes nothing.**  For `-n > sz` the `uint` sum
`sz + n` wraps above `sz`, `deallocuvm` returns `sz`, and `growproc` returns `0`: a
shrink by more than the size is reported done, and the size is what it was. -/
theorem growproc_shrink_past_zero_succeeds (s : Vm) (cur : Fin nproc) (n : Int)
    (hn : -2 ^ 31 ≤ n) (hpos : 0 < (s.proc cur).sz) (hsz : ((s.proc cur).sz : Int) < -n)
    (hk : (s.proc cur).sz < 2 ^ 32) :
    growproc kernEnd s cur n = .ok (s, 0) := by
  have hneg : n < 0 := by omega
  have hwrap := @add_toUint_of_neg (s.proc cur).sz n (by rw [uintMod_eq]; omega) hneg
    (by rw [uintMod_eq]; exact hk)
  rw [if_neg (by omega), uintMod_eq] at hwrap
  -- the new size is above the old one
  have hge : (s.proc cur).sz ≤ ((s.proc cur).sz + toUint n) % uintMod := by
    rw [uintMod_eq]
    omega
  rw [growproc_of_neg kernEnd s cur hneg, deallocuvm_of_ge kernEnd _ _ _ _ hge, Run.ok_bind]
  simp [Nat.pos_iff_ne_zero.mp hpos, Vm.setSz_same, pure, Except.pure]

/-- **Freeing a swapped page from `sbrk` panics.**  `sbrk(-PGSIZE)` of a process whose
top page is swapped out, its entry the last PTE of its node in the swap map, reaches
`swapfree_file` from `deallocuvm`; with no spinlock held, the `release(&ptable.lock)`
there panics. -/
theorem growproc_frees_swapped_page_panics (s : Vm) (cur : Fin nproc) (top pte w j : Nat)
    (node : SwapNode) (htop : (s.proc cur).sz = top + pgsize) (hal : top % pgsize = 0)
    (hk : (s.proc cur).sz < 2 ^ 32)
    (hpde : hasFlag (s.mem.word (pdeOf (s.proc cur).pgdir top)) pteP = true)
    (hpte : pteOf s.mem (s.proc cur).pgdir top = pte) (hw : s.mem.word pte = w)
    (hp : hasFlag w pteP = false) (hs : hasFlag w pteS = true) (h0 : pteAddr w ≠ 0)
    (hfind : SwapMap.findPte (s.swapMap (swapMapHash kernEnd ⟨top, pteAddr w⟩)) ⟨top, pteAddr w⟩ pte =
      some (j, node))
    (hlast : node.ptes.erase pte = []) (hmap : Spinlock.swapMap ∉ s.held)
    (hpt : Spinlock.ptable ∉ s.held) :
    growproc kernEnd s cur (-(pgsize : Int)) = .error "release" := by
  have hneg : -(pgsize : Int) < 0 := by decide
  have hsum := @add_toUint_of_neg (s.proc cur).sz _ (by rw [uintMod_eq]; decide) hneg
    (by rw [uintMod_eq]; exact hk)
  rw [if_pos (by omega)] at hsum
  -- `sz + (-PGSIZE)` is the top page
  have hnew : ((s.proc cur).sz + toUint (-(pgsize : Int))) % uintMod = top := by omega
  have hup : pgroundup top = top := pgroundup_of_aligned hal (by rw [uintMod_eq]; omega)
  rw [growproc_of_neg kernEnd s cur hneg, hnew, deallocuvm_of_lt kernEnd _ _ _ _ (by omega), hup,
    deallocuvmLoop_swapped kernEnd _ _ _ s (by omega) hpde (by rw [hpte, hw]; exact hp)
      (by rw [hpte, hw]; exact hs) (by rw [hpte, hw]; exact h0), hpte, hw,
    swapfreeFile_release_panics kernEnd s _ _ _ j node hfind hlast hmap hpt]
  rfl

end Grow

/-- A process of two pages shrunk by three. -/
theorem sbrk_minus_three_pages_of_two_succeeds :
    growproc 0 (faultDemo 0x2000 0 0) ⟨0, by decide⟩ (-0x3000) = .ok (faultDemo 0x2000 0 0, 0) :=
  growproc_shrink_past_zero_succeeds 0 (faultDemo 0x2000 0 0) ⟨0, by decide⟩ (-0x3000)
    (by decide) (by decide) (by decide) (by decide)

/-- A process of three pages whose top page, at `0x2000`, was swapped out from the frame
`0x13000` to page 0 of the swap file; its entry at `0x11008` is the only PTE of its
node. -/
def swapDemo : Vm :=
  { faultDemo 0x3000 (0x13000 ||| pteS ||| pteW ||| pteU) 0 with
    swapMap := fun b =>
      if b = swapMapHash 0 ⟨0x2000, 0x13000⟩ then [⟨⟨0x2000, 0x13000⟩, 0, [0x11008]⟩] else [] }

/-- `sbrk(-PGSIZE)` of that process. -/
theorem sbrk_of_swapped_top_page_panics :
    growproc 0 swapDemo ⟨0, by decide⟩ (-(pgsize : Int)) = .error "release" :=
  (growproc_frees_swapped_page_panics 0 swapDemo ⟨0, by decide⟩ 0x2000 0x11008
    (0x13000 ||| pteS ||| pteW ||| pteU) 0 ⟨⟨0x2000, 0x13000⟩, 0, [0x11008]⟩ (by decide) (by decide)
    (by decide) (by decide) (by decide) (by decide) (by decide) (by decide) (by decide) rfl
    (by decide) (by decide) (by decide) :)

end Xv6
