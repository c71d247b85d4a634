import Xv6.Model.Trap
import Xv6.Analysis.Shrink
import Xv6.Analysis.Fork

/-!
# Shrinking an image to nothing

`sbrk(-sz)` asks `growproc` for size 0.  `deallocuvm(pgdir, sz, 0)` frees every page of
the image and returns the new size, 0, which `growproc` takes for its failure value: it
returns `-1` and leaves `sz` as it was.  The pages below `sz` are gone, so the next load
from the image faults, and `handle_pagefault`, finding the entry empty and the address
below `sz`, maps a fresh zero page.

The free of the image is a run over the loop of `deallocuvm` (`DeallocInv`): for a
process whose image lies in one page table (`OneTable`), each pass frees the page it
reaches, if present, and leaves the later ones as they were (`DeallocInv.step`).
-/

set_option autoImplicit false

namespace Xv6

/-! ## Flags the MMU sets -/

/-- Setting a flag of the low twelve bits keeps the address of an entry. -/
theorem pteAddr_setFlag (w : Nat) {fl : Nat} (hfl : fl < pgsize) : pteAddr (setFlag w fl) = pteAddr w := by
  apply Nat.eq_of_testBit_eq
  intro j
  rw [show pteAddr (setFlag w fl) = (w ||| fl) / 2 ^ 12 * 2 ^ 12 from rfl,
    show pteAddr w = w / 2 ^ 12 * 2 ^ 12 from rfl, Bits.testBit_addr, Bits.testBit_addr, Nat.testBit_lor]
  by_cases hj : 12 ≤ j
  · have : fl.testBit j = false :=
      Nat.testBit_lt_two_pow (lt_of_lt_of_le hfl (Nat.pow_le_pow_right (by norm_num : 0 < 2) hj))
    simp [hj, this]
  · simp [hj]

/-- Setting `PTE_A` keeps every other flag. -/
theorem hasFlag_setFlag_pteA (w : Nat) {k : Nat} (hk : k ≠ 5) :
    hasFlag (setFlag w pteA) (2 ^ k) = hasFlag w (2 ^ k) := by
  rw [hasFlag_two_pow, hasFlag_two_pow, setFlag, show pteA = 2 ^ 5 from rfl, Nat.testBit_lor,
    Nat.testBit_two_pow]
  simp [Ne.symm hk]

/-! ## Freeing a frame -/

namespace Mem

/-- The memory after `kfree` dropped the last reference to the frame `pa`: the frame
filled with junk, its count zero, and the frame at the head of the free list. -/
def freeLast (m : Mem) (pa : Nat) : Mem :=
  { (m.memsetPage pa 1).setRef pa 0 with freelist := pa :: m.freelist }

@[simp] theorem freeLast_freelist (m : Mem) (pa : Nat) : (m.freeLast pa).freelist = pa :: m.freelist := rfl

theorem freeLast_getRef (m : Mem) (pa pb : Nat) :
    (m.freeLast pa).getRef pb = if pb / pgsize = pa / pgsize then 0 else m.getRef pb := by
  unfold freeLast
  rw [show ({ (m.memsetPage pa 1).setRef pa 0 with freelist := pa :: m.freelist } : Mem).getRef pb =
    ((m.memsetPage pa 1).setRef pa 0).getRef pb from rfl, getRef_setRef]
  rfl

/-- Freeing a frame leaves the words of every other frame alone. -/
theorem freeLast_word_of_ne (m : Mem) {pa a : Nat} (hpa : pa % pgsize = 0) (ha : a / pgsize ≠ pa / pgsize) :
    (m.freeLast pa).word a = m.word a :=
  memsetPage_word_of_ne m 1 hpa ha

end Mem

section Free

variable (kernEnd : Nat)

/-- `kfree` of the last reference to a frame. -/
theorem kfree_of_ref_one {m : Mem} {pa : Nat} (hal : pa % pgsize = 0) (hk : kernEnd ≤ pa)
    (hp : pa < phystop) (h1 : m.getRef pa = 1) : kfree kernEnd m pa = .ok (m.freeLast pa) := by
  have hchk : ¬(pa % pgsize ≠ 0 ∨ pa < kernEnd ∨ phystop ≤ pa) := by omega
  have hm : (m.memsetPage pa 1).getRef pa = 1 := by
    rw [Mem.getRef_eq_of_ref m (Mem.memsetPage_ref m pa 1), h1]
  unfold kfree
  simp only [hchk, if_false, h1, if_true, hm, ne_eq, one_ne_zero, not_false_eq_true, decRefPa,
    Nat.not_lt.mpr hp.le, sub_self, lt_self_iff_false, Except.map, pure_bind, Run.ok_bind,
    Mem.getRef_setRef]
  rfl

/-- One pass of the loop of `deallocuvm` over a present page: `kfree`, then the entry is
cleared. -/
theorem deallocuvmLoop_present (pgdir oldsz fuel : Nat) (s : Vm) {a : Nat} {m' : Mem} (ha : a < oldsz)
    (hpde : hasFlag (s.mem.word (pdeOf pgdir a)) pteP = true)
    (hp : hasFlag (s.mem.word (pteOf s.mem pgdir a)) pteP = true)
    (h0 : pteAddr (s.mem.word (pteOf s.mem pgdir a)) ≠ 0)
    (hk : kfree kernEnd s.mem (pteAddr (s.mem.word (pteOf s.mem pgdir a))) = .ok m') :
    deallocuvmLoop kernEnd pgdir oldsz (fuel + 1) s a =
      deallocuvmLoop kernEnd pgdir oldsz fuel { s with mem := m'.setWord (pteOf s.mem pgdir a) 0 }
        ((a + pgsize) % uintMod) := by
  rw [deallocuvmLoop, if_pos ha, walkpgdir_present false hpde]
  simp only [Run.ok_bind, pure_bind, hp, h0, hk, if_true, if_false]

/-- One pass of the loop of `deallocuvm` over an entry neither present nor swapped: nothing
changes. -/
theorem deallocuvmLoop_unmapped (pgdir oldsz fuel : Nat) (s : Vm) {a : Nat} (ha : a < oldsz)
    (hpde : hasFlag (s.mem.word (pdeOf pgdir a)) pteP = true)
    (hp : hasFlag (s.mem.word (pteOf s.mem pgdir a)) pteP = false)
    (hs : hasFlag (s.mem.word (pteOf s.mem pgdir a)) pteS = false) :
    deallocuvmLoop kernEnd pgdir oldsz (fuel + 1) s a =
      deallocuvmLoop kernEnd pgdir oldsz fuel s ((a + pgsize) % uintMod) := by
  rw [deallocuvmLoop, if_pos ha, walkpgdir_present false hpde]
  simp only [Run.ok_bind, pure_bind, hp, hs, Bool.false_eq_true, if_false]

/-- The loop of `deallocuvm` at the end of the range. -/
theorem deallocuvmLoop_done (pgdir oldsz fuel : Nat) (s : Vm) {a : Nat} (ha : oldsz ≤ a) :
    deallocuvmLoop kernEnd pgdir oldsz fuel s a = .ok s := by
  cases fuel with
  | zero => rfl
  | succ fuel =>
      rw [deallocuvmLoop, if_neg (by omega)]
      rfl

end Free

/-! ## An image in one page table -/

section Image

variable (kernEnd : Nat)

/-- A frame of a page of the image: after the kernel and below `PHYSTOP`, neither the page
directory nor the page table, and of one reference. -/
structure OwnFrame (m : Mem) (pgdir T f : Nat) : Prop where
  ne0 : f ≠ 0
  low : kernEnd ≤ f
  high : f < phystop
  neP : f ≠ pgdir
  neT : f ≠ T
  one : m.getRef f = 1

/-- **An image in one page table.**  The pages of a process below `sz` lie under the first
entry of its page directory `pgdir`, a present user entry that maps the page table `T`;
the entry of the page at `x` is at `T + 4 * (x / PGSIZE)`.  Each entry is either neither
present nor swapped, or present with a frame of its own. -/
structure OneTable (m : Mem) (pgdir T sz : Nat) : Prop where
  small : sz ≤ 2 ^ 22
  alignP : pgdir % pgsize = 0
  alignT : T % pgsize = 0
  PT : pgdir ≠ T
  pde : hasFlag (m.word pgdir) pteP = true
  pdeU : hasFlag (m.word pgdir) pteU = true
  table : pteAddr (m.word pgdir) = T
  unswapped : ∀ x, x < sz → x % pgsize = 0 → hasFlag (m.word (T + 4 * (x / pgsize))) pteS = false
  frame : ∀ x, x < sz → x % pgsize = 0 → hasFlag (m.word (T + 4 * (x / pgsize))) pteP = true →
    OwnFrame kernEnd m pgdir T (pteAddr (m.word (T + 4 * (x / pgsize))))
  distinct : ∀ x y, x < sz → y < sz → x % pgsize = 0 → y % pgsize = 0 → x ≠ y →
    hasFlag (m.word (T + 4 * (x / pgsize))) pteP = true → hasFlag (m.word (T + 4 * (y / pgsize))) pteP = true →
    pteAddr (m.word (T + 4 * (x / pgsize))) ≠ pteAddr (m.word (T + 4 * (y / pgsize)))

/-- The head of the free list is a frame of no reference, neither the page directory nor
the page table. -/
def FreeHead (m : Mem) (pgdir T : Nat) : Prop :=
  ∃ g rest, m.freelist = g :: rest ∧ m.getRef g = 0 ∧ g % pgsize = 0 ∧ g ≤ phystop ∧ g ≠ pgdir ∧ g ≠ T

/-- The loop of `deallocuvm(pgdir, sz, 0)` at page `a`, from the memory `m₀` of an image
in one page table: the page directory as it was; the entries from `a` on as they were,
their frames of one reference; those below `a` neither present nor swapped; and, once a
page was freed, a freed frame at the head of the free list. -/
structure DeallocInv (m₀ : Mem) (pgdir T sz : Nat) (m : Mem) (a : Nat) : Prop where
  pde : m.word pgdir = m₀.word pgdir
  later : ∀ x, a ≤ x → x < sz → x % pgsize = 0 →
    m.word (T + 4 * (x / pgsize)) = m₀.word (T + 4 * (x / pgsize))
  refs : ∀ x, a ≤ x → x < sz → x % pgsize = 0 → hasFlag (m₀.word (T + 4 * (x / pgsize))) pteP = true →
    m.getRef (pteAddr (m₀.word (T + 4 * (x / pgsize)))) = 1
  earlier : ∀ x, x < a → x < sz → x % pgsize = 0 →
    hasFlag (m.word (T + 4 * (x / pgsize))) pteP = false ∧ hasFlag (m.word (T + 4 * (x / pgsize))) pteS = false
  head : ∀ x, x < a → x < sz → x % pgsize = 0 → hasFlag (m₀.word (T + 4 * (x / pgsize))) pteP = true →
    FreeHead m pgdir T

variable {kernEnd} {m₀ : Mem} {pgdir T sz : Nat}

/-- INTERNAL: an image in one page table is read from the page directory's entry, the
counts, and the flags and addresses of the entries. -/
theorem OneTable.congr {m' : Mem} (h : OneTable kernEnd m₀ pgdir T sz)
    (hpde : m'.word pgdir = m₀.word pgdir) (href : m'.ref = m₀.ref)
    (hent : ∀ x, x < sz → x % pgsize = 0 →
      hasFlag (m'.word (T + 4 * (x / pgsize))) pteP = hasFlag (m₀.word (T + 4 * (x / pgsize))) pteP ∧
      hasFlag (m'.word (T + 4 * (x / pgsize))) pteS = hasFlag (m₀.word (T + 4 * (x / pgsize))) pteS ∧
      pteAddr (m'.word (T + 4 * (x / pgsize))) = pteAddr (m₀.word (T + 4 * (x / pgsize)))) :
    OneTable kernEnd m' pgdir T sz := by
  have hone : ∀ f, m'.getRef f = m₀.getRef f := Mem.getRef_eq_of_ref m₀ href
  refine ⟨h.small, h.alignP, h.alignT, h.PT, by rw [hpde]; exact h.pde, by rw [hpde]; exact h.pdeU,
    by rw [hpde]; exact h.table, fun x hx hal => ?_, fun x hx hal hp => ?_, fun x y hx hy hxal hyal hxy hpx hpy => ?_⟩
  · rw [(hent x hx hal).2.1]
    exact h.unswapped x hx hal
  · obtain ⟨hp', -, ha⟩ := hent x hx hal
    obtain ⟨h0, hk, hph, hP, hT, h1⟩ := h.frame x hx hal (by rw [← hp']; exact hp)
    rw [ha]
    exact ⟨h0, hk, hph, hP, hT, by rw [hone]; exact h1⟩
  · rw [(hent x hx hxal).2.2, (hent y hy hyal).2.2]
    exact h.distinct x y hx hy hxal hyal hxy (by rw [← (hent x hx hxal).1]; exact hpx)
      (by rw [← (hent y hy hyal).1]; exact hpy)

theorem DeallocInv.init (h : OneTable kernEnd m₀ pgdir T sz) : DeallocInv m₀ pgdir T sz m₀ 0 where
  pde := rfl
  later _ _ _ _ := rfl
  refs x _ hx hal hp := (h.frame x hx hal hp).one
  earlier _ h := absurd h (Nat.not_lt_zero _)
  head _ h := absurd h (Nat.not_lt_zero _)

/-- INTERNAL: the page-directory entry of a page of the image is the first. -/
theorem pdeOf_of_lt (pgdir : Nat) {a : Nat} (ha : a < 2 ^ 22) : pdeOf pgdir a = pgdir := by
  rw [pdeOf, pdx_of_lt ha, Nat.mul_zero, Nat.add_zero]

/-- INTERNAL: the walk to a page of the image, in a memory that keeps the page
directory's entry: the table is present, and the entry is the `a / PGSIZE`-th of `T`. -/
theorem OneTable.walk (himg : OneTable kernEnd m₀ pgdir T sz) {m : Mem} (hpde : m.word pgdir = m₀.word pgdir)
    {a : Nat} (ha : a < sz) :
    hasFlag (m.word (pdeOf pgdir a)) pteP = true ∧ pteOf m pgdir a = T + 4 * (a / pgsize) := by
  have hsmall := himg.small
  rw [pteOf, pdeOf_of_lt pgdir (by omega), hpde, himg.table, ptx_of_lt (by omega)]
  exact ⟨himg.pde, rfl⟩

/-- INTERNAL: the address of the page after one of the image does not wrap. -/
theorem OneTable.next_page (himg : OneTable kernEnd m₀ pgdir T sz) {a : Nat} (ha : a < sz) :
    (a + pgsize) % uintMod = a + pgsize := by
  have hsmall := himg.small
  exact Nat.mod_eq_of_lt (by rw [uintMod_eq]; unfold pgsize; omega)

/-- INTERNAL: the page directory's entry is no entry of the page table. -/
theorem OneTable.pgdir_ne_entry (himg : OneTable kernEnd m₀ pgdir T sz) {x : Nat} (hx : x < sz) :
    pgdir ≠ T + 4 * (x / pgsize) := fun h =>
  frame_ne_of_aligned himg.alignP himg.alignT himg.PT
    (by rw [h, entry_frame himg.alignT (j := x) (by have := himg.small; omega)])

/-- INTERNAL: the entries of the page table lie outside every other aligned frame. -/
theorem OneTable.entry_frame_ne (himg : OneTable kernEnd m₀ pgdir T sz) {x f : Nat} (hx : x < sz)
    (hfal : f % pgsize = 0) (hfT : f ≠ T) : (T + 4 * (x / pgsize)) / pgsize ≠ f / pgsize := by
  rw [entry_frame himg.alignT (j := x) (by have := himg.small; omega)]
  exact frame_ne_of_aligned himg.alignT hfal hfT.symm

/-- INTERNAL: two present pages of the image lie in two frames. -/
theorem OneTable.frames_apart (himg : OneTable kernEnd m₀ pgdir T sz) {x y : Nat} (hx : x < sz) (hy : y < sz)
    (hxal : x % pgsize = 0) (hyal : y % pgsize = 0) (hxy : x ≠ y)
    (hpx : hasFlag (m₀.word (T + 4 * (x / pgsize))) pteP = true)
    (hpy : hasFlag (m₀.word (T + 4 * (y / pgsize))) pteP = true) :
    pteAddr (m₀.word (T + 4 * (x / pgsize))) / pgsize ≠ pteAddr (m₀.word (T + 4 * (y / pgsize))) / pgsize :=
  frame_ne_of_aligned (pteAddr_aligned _) (pteAddr_aligned _) (himg.distinct x y hx hy hxal hyal hxy hpx hpy)

/-- One pass of the loop keeps the invariant: a present page is freed and its entry
cleared, and an unmapped one is passed over. -/
theorem DeallocInv.step (himg : OneTable kernEnd m₀ pgdir T sz) {s : Vm} {a : Nat}
    (hinv : DeallocInv m₀ pgdir T sz s.mem a) (ha : a < sz) (hal : a % pgsize = 0) (fuel : Nat) :
    ∃ m', deallocuvmLoop kernEnd pgdir sz (fuel + 1) s a =
        deallocuvmLoop kernEnd pgdir sz fuel { s with mem := m' } (a + pgsize) ∧
      DeallocInv m₀ pgdir T sz m' (a + pgsize) := by
  obtain ⟨hpde, hpte⟩ := himg.walk hinv.pde ha
  have hw := hinv.later a le_rfl ha hal
  have hwrap := himg.next_page ha
  -- the entries of the pages after `a`, and those before
  have hnext : ∀ x, x % pgsize = 0 → ¬x < a → x < a + pgsize → x = a := fun x hx h₁ h₂ => by
    unfold pgsize at *
    omega
  by_cases hp : hasFlag (m₀.word (T + 4 * (a / pgsize))) pteP = true
  · -- a present page: its frame is freed
    obtain ⟨hf0, hfk, hfp, hfP, hfT, -⟩ := himg.frame a ha hal hp
    have hfal : pteAddr (m₀.word (T + 4 * (a / pgsize))) % pgsize = 0 := pteAddr_aligned _
    have hk := kfree_of_ref_one kernEnd hfal hfk hfp (hinv.refs a le_rfl ha hal hp)
    have hPf := frame_ne_of_aligned himg.alignP hfal hfP.symm
    -- the words the pass leaves alone: outside the freed frame, and not the entry of `a`
    have hword : ∀ b, b / pgsize ≠ pteAddr (m₀.word (T + 4 * (a / pgsize))) / pgsize →
        b ≠ T + 4 * (a / pgsize) →
        ((s.mem.freeLast (pteAddr (m₀.word (T + 4 * (a / pgsize))))).setWord (T + 4 * (a / pgsize)) 0).word b =
          s.mem.word b := fun b hb hba => by
      rw [Mem.setWord_word, if_neg hba, Mem.freeLast_word_of_ne _ hfal hb]
    refine ⟨(s.mem.freeLast (pteAddr (m₀.word (T + 4 * (a / pgsize))))).setWord (T + 4 * (a / pgsize)) 0,
      ?_, ⟨?_, fun x hx₁ hx₂ hxal => ?_, fun x hx₁ hx₂ hxal hpx => ?_, fun x hx₁ hx₂ hxal => ?_,
        fun _ _ _ _ _ => ?_⟩⟩
    · rw [deallocuvmLoop_present kernEnd pgdir sz fuel s ha hpde (by rw [hpte, hw]; exact hp)
        (by rw [hpte, hw]; exact hf0) (by rw [hpte, hw]; exact hk), hpte, hwrap]
    · rw [hword pgdir hPf (himg.pgdir_ne_entry ha), hinv.pde]
    · rw [hword _ (himg.entry_frame_ne hx₂ hfal hfT) (entry_ne (by unfold pgsize at *; omega)), hinv.later x (by omega) hx₂ hxal]
    · rw [Mem.getRef_eq_of_ref _ (Mem.setWord_ref _ _ _), Mem.freeLast_getRef,
        if_neg (himg.frames_apart hx₂ ha hxal hal (by unfold pgsize at *; omega) hpx hp)]
      exact hinv.refs x (by omega) hx₂ hxal hpx
    · by_cases hxa : x < a
      · rw [hword _ (himg.entry_frame_ne hx₂ hfal hfT) (entry_ne (by unfold pgsize at *; omega))]
        exact hinv.earlier x hxa hx₂ hxal
      · obtain rfl := hnext x hxal hxa hx₁
        simp
    · refine ⟨pteAddr (m₀.word (T + 4 * (a / pgsize))), s.mem.freelist, by simp, ?_, hfal, hfp.le, hfP, hfT⟩
      rw [Mem.getRef_eq_of_ref _ (Mem.setWord_ref _ _ _), Mem.freeLast_getRef, if_pos rfl]
  · -- a page not mapped: nothing changes
    have hp' : hasFlag (m₀.word (T + 4 * (a / pgsize))) pteP = false := by simpa using hp
    refine ⟨s.mem, ?_, ⟨hinv.pde, fun x hx => hinv.later x (by omega), fun x hx => hinv.refs x (by omega),
      fun x hx₁ hx₂ hxal => ?_, fun x hx₁ hx₂ hxal hpx => ?_⟩⟩
    · rw [deallocuvmLoop_unmapped kernEnd pgdir sz fuel s ha hpde (by rw [hpte, hw]; exact hp')
        (by rw [hpte, hw]; exact himg.unswapped a ha hal), hwrap]
    · by_cases hxa : x < a
      · exact hinv.earlier x hxa hx₂ hxal
      · obtain rfl := hnext x hxal hxa hx₁
        rw [hw]
        exact ⟨hp', himg.unswapped x hx₂ hxal⟩
    · by_cases hxa : x < a
      · exact hinv.head x hxa hx₂ hxal hpx
      · obtain rfl := hnext x hxal hxa hx₁
        exact absurd hpx (by rw [hp']; decide)

/-- The loop from page `a`, `k` pages before `PGROUNDUP(sz)`: every page up to there is
freed or passed over. -/
theorem DeallocInv.run (himg : OneTable kernEnd m₀ pgdir T sz) :
    ∀ k fuel (s : Vm) a, a + k * pgsize = (sz + pgsize - 1) / pgsize * pgsize → a % pgsize = 0 →
      DeallocInv m₀ pgdir T sz s.mem a →
      ∃ m', deallocuvmLoop kernEnd pgdir sz (fuel + k) s a =
          deallocuvmLoop kernEnd pgdir sz fuel { s with mem := m' } ((sz + pgsize - 1) / pgsize * pgsize) ∧
        DeallocInv m₀ pgdir T sz m' ((sz + pgsize - 1) / pgsize * pgsize) := by
  intro k
  induction k with
  | zero =>
      intro fuel s a ha _ hinv
      rw [Nat.zero_mul, Nat.add_zero] at ha
      subst ha
      exact ⟨s.mem, rfl, hinv⟩
  | succ k ih =>
      intro fuel s a ha hal hinv
      -- the page `a` is below the size, and the next one is `k` pages before the end
      have hlt : a < sz := by
        unfold pgsize at *
        omega
      obtain ⟨m₁, h₁, hinv₁⟩ := hinv.step himg hlt hal (fuel + k)
      obtain ⟨m', h', hinv'⟩ := ih fuel { s with mem := m₁ } (a + pgsize)
        (by rw [Nat.succ_mul] at ha; omega) (by unfold pgsize at *; omega) hinv₁
      refine ⟨m', ?_, hinv'⟩
      rw [show fuel + (k + 1) = fuel + k + 1 by omega, h₁, h']

end Image

/-! ## `sbrk(-sz)` -/

section Sbrk

variable (kernEnd : Nat) {T : Nat}

/-- **`sbrk(-sz)` frees the image and reports failure.**  `growproc` asks `deallocuvm`
for size 0, which frees every page below `sz` and returns 0; `growproc` takes the 0 for
failure, and `sbrk` returns `-1` with `sz` as it was. -/
theorem sysSbrk_minus_sz (s : Vm) (cur : Fin nproc)
    (himg : OneTable kernEnd s.mem (s.proc cur).pgdir T (s.proc cur).sz) (hpos : 0 < (s.proc cur).sz) :
    ∃ m', sysSbrk kernEnd s cur (-((s.proc cur).sz : Int)) = .ok ({ s with mem := m' }, -1) ∧
      DeallocInv s.mem (s.proc cur).pgdir T (s.proc cur).sz m'
        (((s.proc cur).sz + pgsize - 1) / pgsize * pgsize) := by
  have hsmall := himg.small
  have hneg : -((s.proc cur).sz : Int) < 0 := by omega
  have hsum := @add_toUint_of_neg (s.proc cur).sz _ (by rw [uintMod_eq]; omega) hneg
    (by rw [uintMod_eq]; omega)
  rw [if_pos (by omega)] at hsum
  -- the new size is 0, and the loop runs from page 0 over every page of the image
  have hzero : ((s.proc cur).sz + toUint (-((s.proc cur).sz : Int))) % uintMod = 0 := by omega
  have h0 : pgroundup 0 = 0 := pgroundup_of_aligned (by decide) (by rw [uintMod_eq]; decide)
  have hfuel : (s.proc cur).sz / pgsize + 1 =
      ((s.proc cur).sz / pgsize + 1 - ((s.proc cur).sz + pgsize - 1) / pgsize) +
        ((s.proc cur).sz + pgsize - 1) / pgsize := by
    unfold pgsize
    omega
  obtain ⟨m', hrun, hinv⟩ := DeallocInv.run himg (((s.proc cur).sz + pgsize - 1) / pgsize)
    ((s.proc cur).sz / pgsize + 1 - ((s.proc cur).sz + pgsize - 1) / pgsize) s 0
    (by unfold pgsize; omega) (by decide) (DeallocInv.init himg)
  refine ⟨m', ?_, hinv⟩
  unfold sysSbrk
  rw [if_neg (by omega), growproc_of_neg kernEnd s cur hneg, hzero, deallocuvm_of_lt kernEnd _ _ _ _ hpos,
    h0, hfuel, hrun, deallocuvmLoop_done kernEnd _ _ _ _ (by unfold pgsize; omega)]
  rfl

end Sbrk

/-! ## Loads after the free -/

section Load

variable (kernEnd : Nat)

/-- INTERNAL: a page and its rounded-down address have the same page-directory entry. -/
theorem pdeOf_pgrounddown (pgdir a : Nat) : pdeOf pgdir (pgrounddown a) = pdeOf pgdir a := by
  unfold pdeOf pdx pgrounddown pgsize
  omega

/-- INTERNAL: and the same page-table entry. -/
theorem pteOf_pgrounddown (m : Mem) (pgdir a : Nat) : pteOf m pgdir (pgrounddown a) = pteOf m pgdir a := by
  unfold pteOf
  rw [pdeOf_pgrounddown]
  unfold ptx pgrounddown pgsize
  omega

/-- A fault in range on an entry neither present nor swapped, not a write: `lazyalloc`
maps the head of the free list, zeroed, writable and user-accessible, and the handler
returns 0. -/
theorem handlePagefault_unmapped (s : Vm) (cur : Fin nproc) {va err g : Nat} {rest : List Nat}
    (hva : pgsize ≤ va) (hk : va < kernbase) (hsz : pgrounddown va ≤ (s.proc cur).sz)
    (hpgdir : (s.proc cur).pgdir % pgsize = 0)
    (hpde : hasFlag (s.mem.word (pdeOf (s.proc cur).pgdir va)) pteP = true)
    (hp : hasFlag (s.mem.word (pteOf s.mem (s.proc cur).pgdir va)) pteP = false)
    (hs : hasFlag (s.mem.word (pteOf s.mem (s.proc cur).pgdir va)) pteS = false)
    (hw : hasFlag err pteW = false) (hfl : s.mem.freelist = g :: rest) (hg : g ≤ phystop)
    (href : s.mem.getRef g = 0) (hgal : g % pgsize = 0) (hgP : g ≠ (s.proc cur).pgdir)
    (hgT : g ≠ pteAddr (s.mem.word (pdeOf (s.proc cur).pgdir va))) :
    handlePagefault kernEnd s cur va err =
      .ok ({ s with mem := ((s.mem.takeZeroed g rest).setWord (pteOf s.mem (s.proc cur).pgdir va)
        (g ||| (pteW ||| pteU) ||| pteP)).setLa g (pgrounddown va) }, 0) := by
  have hdown : pgrounddown va < kernbase := lt_of_le_of_lt (Nat.div_mul_le_self va pgsize) hk
  have hword : (s.mem.takeZeroed g rest).word (pteOf s.mem (s.proc cur).pgdir va) =
      s.mem.word (pteOf s.mem (s.proc cur).pgdir va) := Mem.takeZeroed_pte _ rest va hgal hgT
  have hmap := @mappage_ok _ (pgrounddown va) _ _ (pteW ||| pteU)
    (by rw [hword, hp, Bool.false_and, Bool.false_and]) hdown hg
  have hfall := handlePagefault_fallback kernEnd s cur va err
    (by unfold pgrounddown pgsize at *; omega) hdown hsz (by rw [pdeOf_pgrounddown]; exact hpde)
    (by rw [pteOf_pgrounddown]; exact hs) (by rw [hw, Bool.and_false])
  rw [hfall, lazyalloc_present kernEnd hfl hg href hgal (pgrounddown_aligned va) hdown hpgdir
    (by rw [pdeOf_pgrounddown]; exact hpde) hgP, pteOf_pgrounddown, hmap]
  rfl

/-- **A load from an unmapped page of the image reads zero.**  Below 4 MiB, in a page
table `T` the first user entry of the page directory maps, a load from a page whose entry
is neither present nor swapped faults; `handle_pagefault` maps the head of the free list,
zeroed, and the retried load reads a zero. -/
theorem userLoad_unmapped (s : Vm) (cur : Fin nproc) {va T : Nat} (hva : pgsize ≤ va)
    (hsz : va < (s.proc cur).sz) (hsmall : (s.proc cur).sz ≤ 2 ^ 22)
    (hpgdir : (s.proc cur).pgdir % pgsize = 0) (hT : T % pgsize = 0) (hPT : (s.proc cur).pgdir ≠ T)
    (hpde : hasFlag (s.mem.word (s.proc cur).pgdir) pteP = true)
    (hpdeU : hasFlag (s.mem.word (s.proc cur).pgdir) pteU = true)
    (htable : pteAddr (s.mem.word (s.proc cur).pgdir) = T)
    (hp : hasFlag (s.mem.word (T + 4 * (va / pgsize))) pteP = false)
    (hs : hasFlag (s.mem.word (T + 4 * (va / pgsize))) pteS = false)
    (hhead : FreeHead s.mem (s.proc cur).pgdir T) :
    ∃ s', userLoad kernEnd cur va 2 s = .ok (s', .done 0) := by
  obtain ⟨g, rest, hfl, hg0, hgal, hgp, hgP, hgT⟩ := hhead
  have hpdeOf : pdeOf (s.proc cur).pgdir va = (s.proc cur).pgdir := pdeOf_of_lt _ (by omega)
  have hptx : ptx va = va / pgsize := ptx_of_lt (by omega)
  have hpteOf : pteOf s.mem (s.proc cur).pgdir va = T + 4 * (va / pgsize) := by
    rw [pteOf, hpdeOf, htable, hptx]
  have hpf := @handlePagefault_unmapped kernEnd s cur va pteU g rest hva (by unfold kernbase; omega)
    (by unfold pgrounddown pgsize at *; omega) hpgdir (by rw [hpdeOf]; exact hpde)
    (by rw [hpteOf]; exact hp) (by rw [hpteOf]; exact hs) (by decide) hfl hgp hg0 hgal hgP
    (by rw [hpdeOf, htable]; exact hgT)
  rw [hpteOf] at hpf
  -- the memory after the fault: the entry maps `g`, and the page directory is as it was
  set m := ((s.mem.takeZeroed g rest).setWord (T + 4 * (va / pgsize)) (g ||| (pteW ||| pteU) ||| pteP)).setLa g
    (pgrounddown va) with hm
  have hgTf := frame_ne_of_aligned hgal hT hgT
  have hPe : (s.proc cur).pgdir ≠ T + 4 * (va / pgsize) := fun h =>
    frame_ne_of_aligned hpgdir hT hPT (by rw [h, entry_frame hT (j := va) (by omega)])
  have hmpde : m.word (s.proc cur).pgdir = s.mem.word (s.proc cur).pgdir := by
    rw [hm, Mem.setLa_word, Mem.setWord_word, if_neg hPe,
      Mem.takeZeroed_word_of_ne _ _ hgal (frame_ne_of_aligned hpgdir hgal hgP.symm)]
  have hmE : m.word (T + 4 * (va / pgsize)) = g ||| (pteW ||| pteU) ||| pteP := by
    rw [hm, Mem.setLa_word, Mem.setWord_word, if_pos rfl]
  have hgw : pteAddr (g ||| (pteW ||| pteU) ||| pteP) = g := by
    rw [Nat.lor_assoc]
    exact pteAddr_or_flags hgal (by decide)
  have hbyte : m.byte (g + va % pgsize) = 0 := by
    have hlt : va % pgsize < pgsize := Nat.mod_lt _ (by decide)
    simp [hm, Mem.takeZeroed, Mem.memsetPage, Mem.setLa, Mem.setWord, hlt]
  -- the fault, then the retried load
  have hflags : hasFlag (g ||| (pteW ||| pteU) ||| pteP) pteP = true ∧
      hasFlag (g ||| (pteW ||| pteU) ||| pteP) pteU = true := by
    constructor
    · rw [show pteP = 2 ^ 0 from rfl, hasFlag_two_pow, Nat.testBit_lor]
      simp
    · rw [show pteU = 2 ^ 2 from rfl, hasFlag_two_pow]
      simp only [Nat.testBit_lor, Nat.testBit_two_pow_self, Bool.or_true, Bool.true_or]
  refine ⟨{ s with mem := m.setWord (T + 4 * (va / pgsize)) (setFlag (g ||| (pteW ||| pteU) ||| pteP) pteA) },
    ?_⟩
  rw [show (2 : Nat) = 1 + 1 from rfl, userLoad]
  simp only [pdx_of_lt (show va < 2 ^ 22 by omega), Nat.mul_zero, Nat.add_zero, htable, hptx,
    userAllows, hp, Bool.and_false, Bool.false_and, Bool.false_eq_true, if_false]
  have herr : faultErr (s.mem.word (s.proc cur).pgdir) (s.mem.word (T + 4 * (va / pgsize))) false = pteU := by
    simp only [faultErr, hp, Bool.and_false, Bool.false_eq_true, if_false]
    decide
  rw [herr, hpf, Run.ok_bind, if_pos rfl, userLoad]
  simp only [pdx_of_lt (show va < 2 ^ 22 by omega), Nat.mul_zero, Nat.add_zero, hmpde, htable, hptx, hmE,
    userAllows, hpde, hpdeU, hflags, Bool.and_self, Bool.not_false, Bool.true_or, if_true, hgw, hbyte]
  rfl

/-- A store through an entry the MMU lets a user store through, below 4 MiB: the byte is
written and `PTE_A` set. -/
theorem userStore_allowed (s : Vm) (cur : Fin nproc) {va T : Nat} (v : UInt8) (fuel : Nat)
    (hsmall : va < 2 ^ 22) (htable : pteAddr (s.mem.word (s.proc cur).pgdir) = T)
    (hw : userAllows (s.mem.word (s.proc cur).pgdir) (s.mem.word (T + 4 * (va / pgsize))) true = true) :
    userStore kernEnd cur va v (fuel + 1) s =
      .ok ({ s with
        mem :=
          { s.mem.setWord (T + 4 * (va / pgsize)) (setFlag (s.mem.word (T + 4 * (va / pgsize))) pteA) with
            byte := Function.update s.mem.byte (pteAddr (s.mem.word (T + 4 * (va / pgsize))) + va % pgsize) v } },
        .done ()) := by
  rw [userStore]
  simp only [pdx_of_lt hsmall, Nat.mul_zero, Nat.add_zero, htable, ptx_of_lt hsmall, hw, if_true]
  rfl

end Load

/-- **A failed `sbrk(-sz)` loses what the process stored.**  A process whose image lies
in one page table stores `b` at an address of a present, writable user page, then calls
`sbrk(-sz)`.  `sbrk` returns `-1` and the process is as it was, its size `sz`; but
`deallocuvm` has freed the image, so the next load from the address, still below `sz`,
faults, gets a fresh page, and reads 0 whatever `b` was. -/
theorem sbrk_minus_sz_loses_stored_byte (kernEnd : Nat) (s : Vm) (cur : Fin nproc) {T va : Nat}
    (b : UInt8) (himg : OneTable kernEnd s.mem (s.proc cur).pgdir T (s.proc cur).sz)
    (hva : pgsize ≤ va) (hsz : va < (s.proc cur).sz)
    (hw : userAllows (s.mem.word (s.proc cur).pgdir) (s.mem.word (T + 4 * (va / pgsize))) true = true) :
    ∃ s₁ s₂ s₃, userStore kernEnd cur va b 1 s = .ok (s₁, .done ()) ∧
      sysSbrk kernEnd s₁ cur (-((s.proc cur).sz : Int)) = .ok (s₂, -1) ∧ s₂.proc = s.proc ∧
      userLoad kernEnd cur va 2 s₂ = .ok (s₃, .done 0) := by
  have hsmall := himg.small
  have hE : ∀ x, x < (s.proc cur).sz → T + 4 * (x / pgsize) ≠ (s.proc cur).pgdir := fun x hx =>
    (himg.pgdir_ne_entry hx).symm
  have hstore := userStore_allowed kernEnd s cur b 0 (by omega) himg.table hw
  -- the store sets `PTE_A` in the entry of `va` and keeps the image in one page table
  set E := T + 4 * (va / pgsize) with hEdef
  set w := s.mem.word E with hwdef
  have hEva : (s.proc cur).pgdir ≠ E := (hE va hsz).symm
  have hwP : hasFlag w pteP = true := by
    simp only [userAllows, Bool.and_eq_true] at hw
    exact hw.1.1.2
  have himg₁ : OneTable kernEnd { s.mem.setWord E (setFlag w pteA) with
      byte := Function.update s.mem.byte (pteAddr w + va % pgsize) b } (s.proc cur).pgdir T (s.proc cur).sz := by
    refine himg.congr (by simp [Mem.setWord_word, hEva]) rfl fun x hx hal => ?_
    show hasFlag ((s.mem.setWord E (setFlag w pteA)).word _) pteP = _ ∧
      hasFlag ((s.mem.setWord E (setFlag w pteA)).word _) pteS = _ ∧
      pteAddr ((s.mem.setWord E (setFlag w pteA)).word _) = _
    rw [Mem.setWord_word]
    split_ifs with hx'
    · rw [hx', show pteP = 2 ^ 0 from rfl, show pteS = 2 ^ 10 from rfl, hasFlag_setFlag_pteA _ (by decide),
        hasFlag_setFlag_pteA _ (by decide), pteAddr_setFlag _ (by decide)]
      exact ⟨rfl, rfl, rfl⟩
    · exact ⟨rfl, rfl, rfl⟩
  obtain ⟨m', hsbrk, hinv⟩ := sysSbrk_minus_sz kernEnd { s with mem := { s.mem.setWord E (setFlag w pteA) with
      byte := Function.update s.mem.byte (pteAddr w + va % pgsize) b } } cur himg₁ (show 0 < (s.proc cur).sz by omega)
  -- after the free the entry of `va` is empty and a freed frame heads the free list
  have hdown : pgrounddown va / pgsize = va / pgsize := by
    unfold pgrounddown pgsize
    omega
  have hva' : pgrounddown va < (s.proc cur).sz := lt_of_le_of_lt (Nat.div_mul_le_self va pgsize) hsz
  have hend : pgrounddown va < ((s.proc cur).sz + pgsize - 1) / pgsize * pgsize := by
    unfold pgrounddown pgsize
    omega
  obtain ⟨hp, hs⟩ := hinv.earlier (pgrounddown va) hend hva' (pgrounddown_aligned va)
  have hhead := hinv.head (pgrounddown va) hend hva' (pgrounddown_aligned va)
    (by rw [hdown, Mem.setWord_word, if_pos rfl, show pteP = 2 ^ 0 from rfl,
      hasFlag_setFlag_pteA _ (by decide)]; exact hwP)
  rw [hdown] at hp hs
  have hpde : m'.word (s.proc cur).pgdir = s.mem.word (s.proc cur).pgdir := by
    rw [hinv.pde]
    simp [Mem.setWord_word, hEva]
  obtain ⟨s₃, hload⟩ := userLoad_unmapped kernEnd { s with mem := m' } cur hva hsz hsmall himg.alignP himg.alignT
    himg.PT (by rw [← himg.pde, ← hpde]) (by rw [← himg.pdeU, ← hpde]) (by rw [← himg.table, ← hpde]) hp hs hhead
  exact ⟨_, _, s₃, hstore, hsbrk, rfl, hload⟩

/-- A process of three pages whose page at `0x2000` is present, writable and
user-accessible on the frame `0x13000` of one reference; the pages at `0` and `0x1000`
were never touched. -/
def sbrkDemo : Vm := faultDemo 0x3000 (0x13000 ||| pteW ||| pteU ||| pteP) 1

/-- INTERNAL: of the pages of that process only the one at `0x2000` is present. -/
theorem sbrkDemo_present {x : Nat} (hx : x < 0x3000)
    (hp : hasFlag (sbrkDemo.mem.word (0x11000 + 4 * (x / pgsize))) pteP = true) : x / pgsize = 2 := by
  have hpages : x / pgsize = 0 ∨ x / pgsize = 1 ∨ x / pgsize = 2 := by
    unfold pgsize
    omega
  rcases hpages with h | h | h
  · rw [h] at hp
    exact absurd hp (by decide)
  · rw [h] at hp
    exact absurd hp (by decide)
  · exact h

theorem sbrkDemo_oneTable : OneTable 0 sbrkDemo.mem 0x10000 0x11000 0x3000 where
  small := by decide
  alignP := by decide
  alignT := by decide
  PT := by decide
  pde := by decide
  pdeU := by decide
  table := by decide
  unswapped x hx _ := by
    have hpages : x / pgsize = 0 ∨ x / pgsize = 1 ∨ x / pgsize = 2 := by
      unfold pgsize
      omega
    rcases hpages with h | h | h <;> rw [h] <;> decide
  frame x hx _ hp := by
    rw [sbrkDemo_present hx hp]
    exact ⟨by decide, by decide, by decide, by decide, by decide, by decide⟩
  distinct x y hx hy hxal hyal hxy hpx hpy := by
    have h2x := sbrkDemo_present hx hpx
    have h2y := sbrkDemo_present hy hpy
    unfold pgsize at *
    omega

theorem sbrk_demo_loses_stored_byte :
    ∃ s₁ s₂ s₃, userStore 0 ⟨0, by decide⟩ 0x2005 1 1 sbrkDemo = .ok (s₁, .done ()) ∧
      sysSbrk 0 s₁ ⟨0, by decide⟩ (-0x3000) = .ok (s₂, -1) ∧ s₂.proc = sbrkDemo.proc ∧
      userLoad 0 ⟨0, by decide⟩ 0x2005 2 s₂ = .ok (s₃, .done 0) :=
  sbrk_minus_sz_loses_stored_byte 0 sbrkDemo ⟨0, by decide⟩ 1 sbrkDemo_oneTable (by decide) (by decide)
    (by decide)

end Xv6
