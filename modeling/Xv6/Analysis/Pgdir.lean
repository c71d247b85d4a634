import Xv6.Model.Vm
import Xv6.Lib.Bits
import Xv6.Analysis.File

/-!
# Frames, page tables and mappings

The functions of `Xv6.Model.Vm` are built from a few memory operations: `kalloc` and
`kfree` of the frame allocator, `walkpgdir`, which reads the page-directory entry of an
address, and `mappage`, which writes the page-table entry.  This module gives each its
equations, so that the page-fault handler, `copyuvm` and the system calls are analysed
from them without unfolding the allocator again:

* the fields of memory each update of `Mem` leaves alone (the `Mem.*` simp lemmas);
* the flags of a page-table entry as bits of the word (`hasFlag_two_pow`);
* `kalloc` from a non-empty free list (`kalloc_cons`), `walkpgdir` at a present
  page-directory entry (`walkpgdir_present`), `mappage` on an entry it may overwrite and
  on one it refuses (`mappage_ok`, `mappage_remap`), and `mappages` of one page
  (`mappages_present`);
* `lazyalloc` at an address whose page table exists (`lazyalloc_present`).

The address of the page-directory entry of `va` is `pdeOf pgdir va`, and the address of
its page-table entry, when the page table is present, `pteOf m pgdir va`: the two words
`walkpgdir` reads.
-/

set_option autoImplicit false

namespace Xv6

/-! ## Memory updates -/

namespace Mem

variable (m : Mem)

@[simp] theorem setWord_word (a w b : Nat) :
    (m.setWord a w).word b = if b = a then w else m.word b := by
  simp [setWord, Function.update_apply]

@[simp] theorem setWord_ref (a w : Nat) : (m.setWord a w).ref = m.ref := rfl

@[simp] theorem setWord_la (a w : Nat) : (m.setWord a w).la = m.la := rfl

@[simp] theorem setWord_freelist (a w : Nat) : (m.setWord a w).freelist = m.freelist := rfl

@[simp] theorem setWord_byte (a w : Nat) : (m.setWord a w).byte = m.byte := rfl

@[simp] theorem setLa_word (pa la : Nat) : (m.setLa pa la).word = m.word := rfl

@[simp] theorem setLa_ref (pa la : Nat) : (m.setLa pa la).ref = m.ref := rfl

@[simp] theorem setLa_freelist (pa la : Nat) : (m.setLa pa la).freelist = m.freelist := rfl

@[simp] theorem setRef_word (pa : Nat) (c : Int) : (m.setRef pa c).word = m.word := rfl

@[simp] theorem setRef_la (pa : Nat) (c : Int) : (m.setRef pa c).la = m.la := rfl

@[simp] theorem setRef_byte (pa : Nat) (c : Int) : (m.setRef pa c).byte = m.byte := rfl

@[simp] theorem setRef_freelist (pa : Nat) (c : Int) : (m.setRef pa c).freelist = m.freelist :=
  rfl

@[simp] theorem memsetPage_ref (pa : Nat) (c : UInt8) : (m.memsetPage pa c).ref = m.ref := rfl

@[simp] theorem memsetPage_la (pa : Nat) (c : UInt8) : (m.memsetPage pa c).la = m.la := rfl

@[simp] theorem memsetPage_freelist (pa : Nat) (c : UInt8) :
    (m.memsetPage pa c).freelist = m.freelist := rfl

@[simp] theorem getRef_setRef (pa pb : Nat) (c : Int) :
    (m.setRef pa c).getRef pb = if pb / pgsize = pa / pgsize then c else m.getRef pb := by
  simp [getRef, setRef, Function.update_apply]

/-- INTERNAL: the count of a frame, read through its `ref` field. -/
theorem getRef_eq_of_ref {m' : Mem} (h : m'.ref = m.ref) (pa : Nat) : m'.getRef pa = m.getRef pa := by
  simp [getRef, h]

/-- The words after `memset` of a frame. -/
theorem memsetPage_word (pa : Nat) (c : UInt8) (a : Nat) :
    (m.memsetPage pa c).word a = if pa ≤ a ∧ a < pa + pgsize then c.toNat * 0x01010101 else m.word a :=
  rfl

/-- `memset` of a frame leaves every word of another frame alone. -/
theorem memsetPage_word_of_ne {pa a : Nat} (c : UInt8) (hpa : pa % pgsize = 0)
    (ha : a / pgsize ≠ pa / pgsize) : (m.memsetPage pa c).word a = m.word a := by
  have hout : ¬(pa ≤ a ∧ a < pa + pgsize) := by
    unfold pgsize at *
    omega
  simp [memsetPage, hout]

/-- `memset` of a frame leaves every byte of another frame alone. -/
theorem memsetPage_byte_of_ne {pa a : Nat} (c : UInt8) (hpa : pa % pgsize = 0)
    (ha : a / pgsize ≠ pa / pgsize) : (m.memsetPage pa c).byte a = m.byte a := by
  have hout : ¬(pa ≤ a ∧ a < pa + pgsize) := by
    unfold pgsize at *
    omega
  simp [memsetPage, hout]

end Mem

/-! ## Entries of page tables -/

/-- A flag that is one bit is that bit of the entry. -/
theorem hasFlag_two_pow (w k : Nat) : hasFlag w (2 ^ k) = w.testBit k := by
  rw [Bool.eq_iff_iff, hasFlag, bne_iff_ne]
  exact Bits.and_two_pow_ne_zero w k

/-- An empty entry has no flag. -/
@[simp] theorem hasFlag_zero (flag : Nat) : hasFlag 0 flag = false := by
  simp [hasFlag]

/-- INTERNAL: an aligned address has no bit below the alignment. -/
theorem testBit_of_aligned {f : Nat} (hf : f % pgsize = 0) {j : Nat} (hj : j < 12) :
    f.testBit j = false := by
  have h := Nat.testBit_mod_two_pow f 12 j
  rw [show f % 2 ^ 12 = 0 from hf, Nat.zero_testBit] at h
  simpa [hj] using h.symm

/-- The address part of an entry made of an aligned address and flags is the address. -/
theorem pteAddr_or_flags {f fl : Nat} (hf : f % pgsize = 0) (hfl : fl < pgsize) :
    pteAddr (f ||| fl) = f := by
  apply Nat.eq_of_testBit_eq
  intro j
  rw [show pteAddr (f ||| fl) = (f ||| fl) / 2 ^ 12 * 2 ^ 12 from rfl, Bits.testBit_addr,
    Bits.testBit_or_low (show f % 2 ^ 12 = 0 from hf) (show fl < 2 ^ 12 from hfl)]
  by_cases hj : 12 ≤ j
  · simp [hj, Nat.not_lt.mpr hj]
  · simp [hj, testBit_of_aligned hf (Nat.lt_of_not_le hj)]

/-- Making a 32-bit entry copy-on-write and read-only keeps its address. -/
theorem pteAddr_cow {w : Nat} (hw : w < uintMod) :
    pteAddr (setFlag (clearFlag w pteW) pteC) = pteAddr w := by
  apply Nat.eq_of_testBit_eq
  intro j
  rw [uintMod_eq] at hw
  have hmask : clearFlag w pteW = w &&& (2 ^ 32 - 1 - 2 ^ 1) := by
    rw [clearFlag, uintMod_eq]
    rfl
  rw [show pteAddr (setFlag (clearFlag w pteW) pteC) = (clearFlag w pteW ||| 2 ^ 9) / 2 ^ 12 * 2 ^ 12
      from rfl, show pteAddr w = w / 2 ^ 12 * 2 ^ 12 from rfl, Bits.testBit_addr, Bits.testBit_addr,
    Nat.testBit_lor, hmask, Bits.testBit_clear w (by norm_num), Nat.testBit_two_pow]
  by_cases hj : 12 ≤ j
  · -- above the flags, the mask keeps every bit of a 32-bit word
    by_cases h32 : j < 32
    · simp [hj, h32, show j ≠ 1 by omega, show 9 ≠ j by omega]
    · have : w.testBit j = false := Nat.testBit_lt_two_pow
        (lt_of_lt_of_le hw (Nat.pow_le_pow_right (by norm_num) (by omega)))
      simp [hj, h32, this, show 9 ≠ j by omega]
  · simp [hj]

/-- The address of the page-directory entry of `va`. -/
def pdeOf (pgdir va : Nat) : Nat := pgdir + 4 * pdx va

/-- The address of the page-table entry of `va`, in the page table its page-directory
entry points to. -/
def pteOf (m : Mem) (pgdir va : Nat) : Nat := pteAddr (m.word (pdeOf pgdir va)) + 4 * ptx va

/-- Two distinct aligned addresses are in distinct frames. -/
theorem frame_ne_of_aligned {a b : Nat} (ha : a % pgsize = 0) (hb : b % pgsize = 0) (h : a ≠ b) :
    a / pgsize ≠ b / pgsize := by
  unfold pgsize at *
  omega

/-- A rounded-down address is aligned. -/
theorem pgrounddown_aligned (a : Nat) : pgrounddown a % pgsize = 0 := by
  unfold pgrounddown pgsize
  omega

/-- The address part of an entry is aligned. -/
theorem pteAddr_aligned (w : Nat) : pteAddr w % pgsize = 0 := by
  unfold pteAddr pgsize
  omega

/-- The page-directory entry of `va` lies in the page directory's frame. -/
theorem pdeOf_frame {pgdir : Nat} (h : pgdir % pgsize = 0) (va : Nat) :
    pdeOf pgdir va / pgsize = pgdir / pgsize := by
  have hpdx : pdx va < 1024 := Nat.mod_lt _ (by norm_num)
  unfold pdeOf pgsize at *
  omega

/-- The page-table entry of `va` lies in the frame of its page table. -/
theorem pteOf_frame (m : Mem) (pgdir va : Nat) :
    pteOf m pgdir va / pgsize = pteAddr (m.word (pdeOf pgdir va)) / pgsize := by
  have hptx : ptx va < 1024 := Nat.mod_lt _ (by norm_num)
  unfold pteOf pteAddr pgsize
  omega

/-- A present page table is read from memory that agrees on the page-directory entry. -/
theorem pteOf_congr {m m' : Mem} {pgdir va : Nat}
    (h : m'.word (pdeOf pgdir va) = m.word (pdeOf pgdir va)) : pteOf m' pgdir va = pteOf m pgdir va := by
  simp [pteOf, h]

/-- INTERNAL: a frame other than the page directory holds none of its entries. -/
theorem pdeOf_frame_ne {pgdir pa : Nat} (hpgdir : pgdir % pgsize = 0) (hpa : pa % pgsize = 0)
    (h : pa ≠ pgdir) (va : Nat) : pdeOf pgdir va / pgsize ≠ pa / pgsize := by
  rw [pdeOf_frame hpgdir]
  exact (frame_ne_of_aligned hpa hpgdir h).symm

/-- INTERNAL: a frame other than the page table of `va` does not hold its entry. -/
theorem pteOf_frame_ne (m : Mem) {pgdir pa : Nat} (va : Nat) (hpa : pa % pgsize = 0)
    (h : pa ≠ pteAddr (m.word (pdeOf pgdir va))) : pteOf m pgdir va / pgsize ≠ pa / pgsize := by
  rw [pteOf_frame]
  exact (frame_ne_of_aligned hpa (pteAddr_aligned _) h).symm

/-! ## The frame allocator -/

/-- `kalloc` takes the head of the free list and gives it one reference. -/
theorem kalloc_cons {m : Mem} {pa : Nat} {rest : List Nat} (hfl : m.freelist = pa :: rest)
    (hpa : pa ≤ phystop) (href : m.getRef pa = 0) :
    kalloc m = .ok (({ m with freelist := rest } : Mem).setRef pa 1, some pa) := by
  have hget : ({ m with freelist := rest } : Mem).getRef pa = 0 := href
  unfold kalloc
  simp [hfl, incRefPa, hget, Nat.not_lt.mpr hpa, pure, Except.pure]

/-! ## Walking and mapping -/

/-- `walkpgdir` of an address whose page table is present. -/
theorem walkpgdir_present {m : Mem} {pgdir va : Nat} (alloc : Bool)
    (h : hasFlag (m.word (pdeOf pgdir va)) pteP = true) :
    walkpgdir m pgdir va alloc = .ok (m, some (pteOf m pgdir va)) := by
  unfold walkpgdir
  simp only [pdeOf] at h
  simp [h, pteOf, pdeOf, pure, Except.pure]

/-- `walkpgdir` with `alloc` of an address whose page table is missing: a frame from
`kalloc`, zeroed, becomes the page table. -/
theorem walkpgdir_alloc {m m' : Mem} {pgdir va pt : Nat}
    (h : hasFlag (m.word (pdeOf pgdir va)) pteP = false) (hk : kalloc m = .ok (m', some pt)) :
    walkpgdir m pgdir va true = .ok ((m'.memsetPage pt 0).setWord (pdeOf pgdir va)
      (pt ||| pteP ||| pteW ||| pteU), some (pt + 4 * ptx va)) := by
  unfold walkpgdir
  simp only [pdeOf] at h
  simp only [h, Bool.false_eq_true, if_false, hk, Run.ok_bind]
  rfl

/-- The page-directory entry `walkpgdir` writes for a new page table is present. -/
theorem hasFlag_pde (pt : Nat) : hasFlag (pt ||| pteP ||| pteW ||| pteU) pteP = true := by
  rw [show pteP = 2 ^ 0 from rfl, hasFlag_two_pow]
  simp

/-- The page-directory entry `walkpgdir` writes for a new page table points to it. -/
theorem pteAddr_pde {pt : Nat} (h : pt % pgsize = 0) : pteAddr (pt ||| pteP ||| pteW ||| pteU) = pt := by
  rw [Nat.lor_assoc, Nat.lor_assoc]
  exact pteAddr_or_flags h (by decide)

/-- `inc_ref_pa` of a frame below `PHYSTOP`. -/
theorem incRefPa_ok (m : Mem) {pa : Nat} (h : pa ≤ phystop) :
    incRefPa m pa = .ok (m.setRef pa (m.getRef pa + 1), m.getRef pa + 1) := by
  simp [incRefPa, Nat.not_lt.mpr h]

/-- `mappage` refuses an entry that is present, not copy-on-write and not swapped. -/
theorem mappage_remap {m : Mem} {la pte pa perm : Nat}
    (hp : hasFlag (m.word pte) pteP = true) (hc : hasFlag (m.word pte) pteC = false)
    (hs : hasFlag (m.word pte) pteS = false) :
    mappage m la pte pa perm = .error "remap" := by
  unfold mappage
  simp only [hp, hc, hs, Bool.not_false, Bool.and_self, if_true]
  rfl

/-- `mappage` of a user page over an entry it may overwrite: the entry maps the frame,
and the frame records the address. -/
theorem mappage_ok {m : Mem} {la pte pa perm : Nat}
    (hw : (hasFlag (m.word pte) pteP && !hasFlag (m.word pte) pteC && !hasFlag (m.word pte) pteS)
      = false)
    (hla : la < kernbase) (hpa : pa ≤ phystop) :
    mappage m la pte pa perm = .ok ((m.setWord pte (pa ||| perm ||| pteP)).setLa pa la) := by
  unfold mappage
  simp [hw, hla, Nat.not_lt.mpr hpa, pure, Except.pure]

/-- `mappage` of a kernel address over an empty entry: the entry maps the frame, and no
frame records the address. -/
theorem mappage_kernel {m : Mem} {la pte pa perm : Nat} (hw : hasFlag (m.word pte) pteP = false)
    (hla : kernbase ≤ la) :
    mappage m la pte pa perm = .ok (m.setWord pte (pa ||| perm ||| pteP)) := by
  unfold mappage
  simp [hw, Nat.not_lt.mpr hla, pure, Except.pure]

/-- One pass of `mappages`' loop where `walkpgdir` and `mappage` succeed: done at `last`,
else on to the next page. -/
theorem mappagesLoop_succ {m m₁ m₂ : Mem} {pgdir last perm fuel a pa pte : Nat}
    (hw : walkpgdir m pgdir a true = .ok (m₁, some pte)) (hm : mappage m₁ a pte pa perm = .ok m₂) :
    mappagesLoop pgdir last perm (fuel + 1) m a pa =
      if a = last then .ok (m₂, 0)
      else mappagesLoop pgdir last perm fuel m₂ ((a + pgsize) % uintMod) ((pa + pgsize) % uintMod) := by
  rw [mappagesLoop, hw]
  simp only [Run.ok_bind, hm]
  split <;> rfl

/-- Rounding down any address of an aligned page gives the page. -/
theorem pgrounddown_add_of_aligned {va : Nat} (hva : va % pgsize = 0) {k : Nat} (hk : k < pgsize) :
    pgrounddown (va + k) = va := by
  unfold pgsize at hva hk
  unfold pgrounddown pgsize
  omega

/-- Rounding up an aligned address that is not in the last page gives the address. -/
theorem pgroundup_of_aligned {a : Nat} (ha : a % pgsize = 0) (hk : a + pgsize ≤ uintMod) :
    pgroundup a = a := by
  have hlt : a + (pgsize - 1) < uintMod := by
    unfold pgsize at *
    omega
  unfold pgroundup
  rw [Nat.add_sub_assoc (by decide), Nat.mod_eq_of_lt hlt]
  exact pgrounddown_add_of_aligned ha (by decide)

/-- `mappages` of one page at an aligned user address is one `walkpgdir` and one
`mappage`. -/
theorem mappages_page (m : Mem) {pgdir va : Nat} (pa perm : Nat) (hva : va % pgsize = 0)
    (hk : va < kernbase) :
    mappages m pgdir va pgsize pa perm = (do
      let (m, pte) ← walkpgdir m pgdir va true
      match pte with
      | none => pure (m, -1)
      | some pte => do
          let m ← mappage m va pte pa perm
          pure (m, 0)) := by
  have hdown : pgrounddown va = va := by
    simpa using pgrounddown_add_of_aligned hva (k := 0) (by decide)
  have hlt : va + (pgsize - 1) < uintMod := by
    rw [uintMod_eq]
    unfold kernbase pgsize at *
    omega
  have hlast : pgrounddown ((va + pgsize - 1) % uintMod) = va := by
    rw [Nat.add_sub_assoc (by decide), Nat.mod_eq_of_lt hlt]
    exact pgrounddown_add_of_aligned hva (by decide)
  unfold mappages
  simp only [hdown, hlast, Nat.sub_self, Nat.zero_div, Nat.zero_add]
  rw [mappagesLoop]
  -- the two sides match on the entry `walkpgdir` returns; compare them case by case
  congr 1
  funext r
  rcases r with ⟨m', _ | pte⟩
  · rfl
  · simp

/-- `mappages` of one page where the page table is present. -/
theorem mappages_present {m : Mem} {pgdir va : Nat} (pa perm : Nat) (hva : va % pgsize = 0)
    (hk : va < kernbase) (h : hasFlag (m.word (pdeOf pgdir va)) pteP = true) :
    mappages m pgdir va pgsize pa perm =
      (mappage m va (pteOf m pgdir va) pa perm) >>= fun m => pure (m, 0) := by
  rw [mappages_page m pa perm hva hk, walkpgdir_present true h]
  rfl

/-! ## Lazy allocation -/

section Alloc

variable (kernEnd : Nat)

/-- The memory after `kalloc` took the head `pa` of the free list, `rest` being the
others, and `memset` zeroed it. -/
def Mem.takeZeroed (m : Mem) (pa : Nat) (rest : List Nat) : Mem :=
  (({ m with freelist := rest } : Mem).setRef pa 1).memsetPage pa 0

@[simp] theorem Mem.takeZeroed_freelist (m : Mem) (pa : Nat) (rest : List Nat) :
    (m.takeZeroed pa rest).freelist = rest := rfl

@[simp] theorem Mem.takeZeroed_la (m : Mem) (pa : Nat) (rest : List Nat) :
    (m.takeZeroed pa rest).la = m.la := rfl

theorem Mem.takeZeroed_getRef (m : Mem) (pa : Nat) (rest : List Nat) (pb : Nat) :
    (m.takeZeroed pa rest).getRef pb = if pb / pgsize = pa / pgsize then 1 else m.getRef pb := by
  unfold takeZeroed
  rw [getRef_eq_of_ref _ (memsetPage_ref _ _ _), getRef_setRef]
  rfl

/-- Taking a frame leaves the words of every other frame alone. -/
theorem Mem.takeZeroed_word_of_ne (m : Mem) {pa : Nat} (rest : List Nat) {a : Nat}
    (hpa : pa % pgsize = 0) (ha : a / pgsize ≠ pa / pgsize) : (m.takeZeroed pa rest).word a = m.word a :=
  memsetPage_word_of_ne _ 0 hpa ha

/-- Taking a frame leaves the bytes of every other frame alone. -/
theorem Mem.takeZeroed_byte_of_ne (m : Mem) {pa : Nat} (rest : List Nat) {a : Nat}
    (hpa : pa % pgsize = 0) (ha : a / pgsize ≠ pa / pgsize) : (m.takeZeroed pa rest).byte a = m.byte a :=
  memsetPage_byte_of_ne _ 0 hpa ha

/-- The words of a frame just taken are zero. -/
theorem takeZeroed_word_self (m : Mem) {pa : Nat} (rest : List Nat) {a : Nat} (h₁ : pa ≤ a)
    (h₂ : a < pa + pgsize) : (m.takeZeroed pa rest).word a = 0 := by
  simp [Mem.takeZeroed, Mem.memsetPage, h₁, h₂]

/-- `lazyalloc` at an aligned user address whose page table is present, with a frame on
the free list that is neither the page directory nor that page table: the frame, zeroed,
is mapped writable and user-accessible at the address, over the entry as it was. -/
theorem lazyalloc_present {m : Mem} {va pgdir pa : Nat} {rest : List Nat}
    (hfl : m.freelist = pa :: rest) (hpa : pa ≤ phystop) (href : m.getRef pa = 0)
    (hpaa : pa % pgsize = 0) (hva : va % pgsize = 0) (hk : va < kernbase)
    (hpgdir : pgdir % pgsize = 0) (hpde : hasFlag (m.word (pdeOf pgdir va)) pteP = true)
    (hpd : pa ≠ pgdir) :
    lazyalloc kernEnd m va pgdir =
      (mappage (m.takeZeroed pa rest) va (pteOf m pgdir va) pa (pteW ||| pteU)) >>=
        fun m => pure (m, 0) := by
  have hword : (m.takeZeroed pa rest).word (pdeOf pgdir va) = m.word (pdeOf pgdir va) :=
    Mem.takeZeroed_word_of_ne m rest hpaa (pdeOf_frame_ne hpgdir hpaa hpd va)
  unfold lazyalloc
  rw [kalloc_cons hfl hpa href]
  simp only [Run.ok_bind]
  rw [show (({ m with freelist := rest } : Mem).setRef pa 1).memsetPage pa 0 = m.takeZeroed pa rest from rfl,
    mappages_present pa _ hva hk (hword ▸ hpde), pteOf_congr hword]
  cases mappage (m.takeZeroed pa rest) va (pteOf m pgdir va) pa (pteW ||| pteU) with
  | error e => rfl
  | ok m' => rfl

/-- INTERNAL: the entry `lazyalloc` overwrites is read as it was before the frame was
taken. -/
theorem Mem.takeZeroed_pte (m : Mem) {pgdir pa : Nat} (rest : List Nat) (va : Nat)
    (hpaa : pa % pgsize = 0) (hpt : pa ≠ pteAddr (m.word (pdeOf pgdir va))) :
    (m.takeZeroed pa rest).word (pteOf m pgdir va) = m.word (pteOf m pgdir va) :=
  Mem.takeZeroed_word_of_ne m rest hpaa (pteOf_frame_ne m va hpaa hpt)

end Alloc

end Xv6
