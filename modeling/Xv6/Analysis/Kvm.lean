import Xv6.Analysis.Pgdir

/-!
# The kernel half of a new page directory (vm.c:115-166)

`setupkvm` zeroes a page directory and maps each entry of `kmap` with `mappages`, whose
loop walks the entry's pages upwards and allocates a page table at the first page of
every 4 MiB region.  The four entries cover two runs of whole regions, `[KERNBASE,
KERNBASE + PHYSTOP)` (page-directory entries 512 to 567) and `[DEVSPACE, 2^32)`
(entries 1016 to 1023), so the call takes exactly 65 frames: the page directory and 64
page tables, in the order the walk reaches the regions.

`KvmInv` is the state of the walk: the page tables of the regions that start below `b`
are present, each the frame the walk took for it; the entries of the pages from `a` on
are empty; memory outside the 65 frames is as it was.  `walkpgdir` (`kvm_walk`) and
`mappage` (`kvm_map`) of one page keep it, a run of pages (`mappagesLoop_kvm`) and each
entry of `kmap` (`mappages_kvm`) then do, and `setupkvm_ok` follows: with 65 frames on
the free list `setupkvm` succeeds, the kernel half points to the 64 tables, the user half
is empty, and nothing else in memory changed.
-/

set_option autoImplicit false

namespace Xv6

/-! ## The regions of the kernel map -/

/-- The page-directory entries `kmap` fills: those of `[KERNBASE, KERNBASE + PHYSTOP)`
and of `[DEVSPACE, 2^32)`. -/
def KernPde (i : Nat) : Prop := (512 ≤ i ∧ i < 568) ∨ (1016 ≤ i ∧ i < 1024)

/-- The pages `a` to `last` of one entry of `kmap`: aligned, inside one of the two runs of
regions `KernPde` names. -/
def KernRun (a last : Nat) : Prop :=
  a % pgsize = 0 ∧ last % pgsize = 0 ∧ a ≤ last ∧
    ((kernbase ≤ a ∧ last < kernbase + phystop) ∨ (devspace ≤ a ∧ last < 2 ^ 32))

/-- The position of the page table of entry `i` among the tables `setupkvm` takes, in
the order its walk reaches them. -/
def tableIdx (i : Nat) : Nat := if i < 568 then i - 512 else i - 960

/-- The number of page tables the walk has taken when it reaches address `b`: one for
every region of `KernPde` that starts below `b`. -/
def taken (b : Nat) : Nat :=
  min 56 ((b - kernbase + (2 ^ 22 - 1)) / 2 ^ 22) + min 8 ((b - devspace + (2 ^ 22 - 1)) / 2 ^ 22)

/-- INTERNAL: every entry of the kernel map has a table among the 64. -/
theorem tableIdx_lt {i : Nat} (h : KernPde i) : tableIdx i < 64 := by
  unfold KernPde at h
  unfold tableIdx
  split <;> omega

/-- INTERNAL: distinct entries of the kernel map have distinct tables. -/
theorem tableIdx_inj {i i' : Nat} (h : KernPde i) (h' : KernPde i') (he : tableIdx i = tableIdx i') :
    i = i' := by
  unfold KernPde at h h'
  unfold tableIdx at he
  split at he <;> split at he <;> omega

/-- INTERNAL: the walk starts with no table taken. -/
theorem taken_kernbase : taken kernbase = 0 := by
  unfold taken kernbase devspace
  norm_num

/-- INTERNAL: the walk ends with all 64 tables taken. -/
theorem taken_top : taken (2 ^ 32) = 64 := by
  unfold taken kernbase devspace
  norm_num

namespace KernRun

variable {a last : Nat} (h : KernRun a last)
include h

/-- INTERNAL: the region of a page of the kernel map is one of `KernPde`. -/
theorem pde : KernPde (a / 2 ^ 22) := by
  obtain ⟨_, _, _, h⟩ := h
  unfold KernPde
  unfold kernbase phystop devspace at h
  omega

/-- INTERNAL: a page of the kernel map is below `2^32`, so `PDX` is its region. -/
theorem pdx_eq : pdx a = a / 2 ^ 22 := by
  obtain ⟨_, _, _, h⟩ := h
  unfold pdx
  unfold kernbase phystop devspace at h
  omega

/-- INTERNAL: a page is its region's start plus its `PTX` pages. -/
theorem page_eq : a / 2 ^ 22 * 2 ^ 22 + ptx a * pgsize = a := by
  obtain ⟨hal, _, _, _⟩ := h
  unfold ptx
  unfold pgsize at *
  omega

/-- INTERNAL: at the first page of a region the walk takes the next table, the
region's. -/
theorem taken_start (hs : a % 2 ^ 22 = 0) :
    tableIdx (a / 2 ^ 22) = taken a ∧ taken (a + pgsize) = taken a + 1 := by
  obtain ⟨_, _, _, h⟩ := h
  unfold tableIdx taken
  unfold kernbase phystop devspace pgsize at *
  constructor
  · split <;> omega
  · omega

/-- INTERNAL: inside a region the walk takes no table. -/
theorem taken_mid (hs : a % 2 ^ 22 ≠ 0) : taken (a + pgsize) = taken a := by
  obtain ⟨hal, _, _, h⟩ := h
  unfold taken
  unfold kernbase phystop devspace pgsize at *
  omega

/-- INTERNAL: the pages after the first. -/
theorem next (hne : a ≠ last) : KernRun (a + pgsize) last := by
  obtain ⟨hal, hl, hle, h⟩ := h
  unfold KernRun
  unfold pgsize at *
  omega

/-- INTERNAL: the first page alone. -/
theorem first : KernRun a a := by
  obtain ⟨hal, _, _, h⟩ := h
  exact ⟨hal, hal, le_rfl, by omega⟩

end KernRun

/-! ## The frames it takes -/

/-- The address `w` lies in none of the frames `fs`. -/
def Outside (fs : List Nat) (w : Nat) : Prop := ∀ f ∈ fs, w / pgsize ≠ f / pgsize

/-- Frames as `kalloc` can hand them out: distinct, aligned, not above `PHYSTOP`, and
with no reference. -/
structure FreeFrames (m : Mem) (fs : List Nat) : Prop where
  nodup : fs.Nodup
  aligned : ∀ f ∈ fs, f % pgsize = 0
  le : ∀ f ∈ fs, f ≤ phystop
  unref : ∀ f ∈ fs, m.getRef f = 0

/-- The page table of entry `i`, among the tables `ks` in the order they are taken. -/
def tbl (ks : List Nat) (i : Nat) : Nat := ks.getD (tableIdx i) 0

/-- INTERNAL: the `j`-th entry of an aligned table lies in its frame. -/
theorem entry_in_table {f : Nat} (hf : f % pgsize = 0) {j : Nat} (hj : j < 1024) :
    (f + 4 * j) / pgsize = f / pgsize := by
  unfold pgsize at *
  omega

/-- INTERNAL: entries of distinct aligned tables are distinct words. -/
theorem entry_ne_of_table_ne {f f' j j' : Nat} (hf : f % pgsize = 0) (hf' : f' % pgsize = 0)
    (hne : f ≠ f') (hj : j < 1024) (hj' : j' < 1024) : f + 4 * j ≠ f' + 4 * j' := by
  unfold pgsize at *
  omega

/-- INTERNAL: an address outside a frame is none of its entries. -/
theorem Outside.ne_entry {fs : List Nat} {w f : Nat} (hw : Outside fs w) (hf : f ∈ fs)
    (hal : f % pgsize = 0) {j : Nat} (hj : j < 1024) : w ≠ f + 4 * j := by
  rintro rfl
  exact hw f hf (entry_in_table hal hj)

/-- INTERNAL: an address in an aligned frame that none of the aligned frames `fs` is lies
outside them. -/
theorem outside_of_ne {fs : List Nat} {F w : Nat} (hF : F % pgsize = 0)
    (hal : ∀ f ∈ fs, f % pgsize = 0) (hne : ∀ f ∈ fs, f ≠ F) (hw : w / pgsize = F / pgsize) :
    Outside fs w := fun f hf => by
  rw [hw]
  exact frame_ne_of_aligned hF (hal f hf) (hne f hf).symm

section Frames

variable {m₀ : Mem} {pd : Nat} {ks : List Nat} (hfree : FreeFrames m₀ (pd :: ks))
  (hks : ks.length = 64)

include hks in
/-- INTERNAL: the table of an entry of the kernel map is one of the frames. -/
theorem tbl_mem {i : Nat} (h : KernPde i) : tbl ks i ∈ ks := by
  unfold tbl
  rw [List.getD_eq_getElem _ _ (by rw [hks]; exact tableIdx_lt h)]
  exact List.getElem_mem _

include hfree

theorem FreeFrames.pd_aligned : pd % pgsize = 0 := hfree.aligned pd List.mem_cons_self

include hks

theorem FreeFrames.tbl_aligned {i : Nat} (h : KernPde i) : tbl ks i % pgsize = 0 :=
  hfree.aligned _ (List.mem_cons_of_mem _ (tbl_mem hks h))

theorem FreeFrames.tbl_ne_pd {i : Nat} (h : KernPde i) : tbl ks i ≠ pd := by
  rintro heq
  have hnd := hfree.nodup
  rw [List.nodup_cons] at hnd
  exact hnd.1 (heq ▸ tbl_mem hks h)

omit hfree in
/-- INTERNAL: the `j`-th table is one of the frames. -/
theorem getD_mem_frames {j : Nat} (hj : j < 64) : ks.getD j 0 ∈ pd :: ks := by
  rw [List.getD_eq_getElem _ _ (by omega)]
  exact List.mem_cons_of_mem _ (List.getElem_mem _)

/-- INTERNAL: distinct tables lie in distinct frames. -/
theorem FreeFrames.getD_frame_ne {j j' : Nat} (hj : j < 64) (hj' : j' < 64) (hne : j ≠ j') :
    ks.getD j 0 / pgsize ≠ ks.getD j' 0 / pgsize := by
  have hnd := (List.nodup_cons.mp hfree.nodup).2
  refine frame_ne_of_aligned (hfree.aligned _ (getD_mem_frames hks hj))
    (hfree.aligned _ (getD_mem_frames hks hj')) ?_
  rw [List.getD_eq_getElem _ _ (by omega), List.getD_eq_getElem _ _ (by omega)]
  exact fun heq => hne ((List.Nodup.getElem_inj_iff hnd).mp heq)

/-- INTERNAL: a table lies in another frame than the page directory. -/
theorem FreeFrames.getD_frame_ne_pd {j : Nat} (hj : j < 64) : ks.getD j 0 / pgsize ≠ pd / pgsize := by
  have hnd := List.nodup_cons.mp hfree.nodup
  refine frame_ne_of_aligned (hfree.aligned _ (getD_mem_frames hks hj)) hfree.pd_aligned ?_
  rintro heq
  rw [List.getD_eq_getElem _ _ (by omega)] at heq
  exact hnd.1 (heq ▸ List.getElem_mem _)

/-- INTERNAL: distinct entries of the kernel map get distinct tables. -/
theorem FreeFrames.tbl_ne {i i' : Nat} (h : KernPde i) (h' : KernPde i') (hne : i ≠ i') :
    tbl ks i ≠ tbl ks i' := by
  intro heq
  refine hfree.getD_frame_ne hks (tableIdx_lt h) (tableIdx_lt h') (fun hi => hne ?_) (by rw [← tbl, heq, tbl])
  exact tableIdx_inj h h' hi

/-- INTERNAL: the page directory's entries are none of a table's. -/
theorem FreeFrames.pde_ne_entry {i i' j : Nat} (h : KernPde i) (hi' : i' < 1024) (hj : j < 1024) :
    pd + 4 * i' ≠ tbl ks i + 4 * j :=
  entry_ne_of_table_ne hfree.pd_aligned (hfree.tbl_aligned hks h) (hfree.tbl_ne_pd hks h).symm hi' hj

/-- INTERNAL: entries of two pages of the kernel map in distinct places are distinct
words. -/
theorem FreeFrames.entry_ne {i i' j j' : Nat} (h : KernPde i) (h' : KernPde i') (hj : j < 1024)
    (hj' : j' < 1024) (hne : i ≠ i' ∨ j ≠ j') : tbl ks i + 4 * j ≠ tbl ks i' + 4 * j' := by
  by_cases hi : i = i'
  · subst hi
    have : j ≠ j' := hne.resolve_left (not_not.mpr rfl)
    omega
  · exact entry_ne_of_table_ne (hfree.tbl_aligned hks h) (hfree.tbl_aligned hks h')
      (hfree.tbl_ne hks h h' hi) hj hj'

end Frames

/-! ## The walk -/

/-- The state of `setupkvm`'s walk, against the memory `m₀` before the call: the page
directory `pd` holds a table for every region of the kernel map that starts below `b`,
the table the walk took for it, and nothing else; the entries of the pages from `a` on
are empty; the free list is the tables not yet taken, then `rest`; memory outside the
frames `pd :: ks` is that of `m₀`, and the frames taken have one reference. -/
structure KvmInv (m₀ : Mem) (pd : Nat) (ks rest : List Nat) (b a : Nat) (m : Mem) : Prop where
  freelist : m.freelist = ks.drop (taken b) ++ rest
  word : ∀ w, Outside (pd :: ks) w → m.word w = m₀.word w
  byte : ∀ w, Outside (pd :: ks) w → m.byte w = m₀.byte w
  ref : ∀ pa, Outside (pd :: ks) pa → m.getRef pa = m₀.getRef pa
  ref_pd : m.getRef pd = 1
  ref_taken : ∀ j, j < taken b → m.getRef (ks.getD j 0) = 1
  ref_free : ∀ j, taken b ≤ j → j < 64 → m.getRef (ks.getD j 0) = 0
  la : m.la = m₀.la
  present : ∀ i, KernPde i → i * 2 ^ 22 < b → m.word (pd + 4 * i) = tbl ks i ||| pteP ||| pteW ||| pteU
  absent : ∀ i, i < 1024 → ¬(KernPde i ∧ i * 2 ^ 22 < b) → m.word (pd + 4 * i) = 0
  empty : ∀ i, KernPde i → i * 2 ^ 22 < b → ∀ j, j < 1024 → a ≤ i * 2 ^ 22 + j * pgsize →
    m.word (tbl ks i + 4 * j) = 0

section Walk

variable {m₀ : Mem} {pd : Nat} {ks rest : List Nat} (hfree : FreeFrames m₀ (pd :: ks))
  (hks : ks.length = 64)

/-- INTERNAL: the same memory at other bounds, where they take the same tables and
leave at least the same entries empty. -/
theorem KvmInv.shift {b a b' a' : Nat} {m : Mem} (hinv : KvmInv m₀ pd ks rest b a m)
    (ht : taken b' = taken b) (hb : ∀ i, KernPde i → (i * 2 ^ 22 < b' ↔ i * 2 ^ 22 < b))
    (ha : ∀ i, KernPde i → i * 2 ^ 22 < b → ∀ j, j < 1024 → a' ≤ i * 2 ^ 22 + j * pgsize →
      a ≤ i * 2 ^ 22 + j * pgsize) :
    KvmInv m₀ pd ks rest b' a' m where
  freelist := by rw [ht]; exact hinv.freelist
  word := hinv.word
  byte := hinv.byte
  ref := hinv.ref
  ref_pd := hinv.ref_pd
  ref_taken j hj := hinv.ref_taken j (by rw [← ht]; exact hj)
  ref_free j hj := hinv.ref_free j (by rw [← ht]; exact hj)
  la := hinv.la
  present i hi hlt := hinv.present i hi ((hb i hi).mp hlt)
  absent i hi hn := hinv.absent i hi fun ⟨hk, hlt⟩ => hn ⟨hk, (hb i hk).mpr hlt⟩
  empty i hi hlt j hj hle := hinv.empty i hi ((hb i hi).mp hlt) j hj (ha i hi ((hb i hi).mp hlt) j hj hle)

include hfree hks

/-- INTERNAL: the table of the region of a page, once present. -/
theorem KvmInv.walk_present {b a : Nat} {m : Mem} (hinv : KvmInv m₀ pd ks rest b a m)
    (hrun : KernRun a a) (hb : a / 2 ^ 22 * 2 ^ 22 < b) :
    walkpgdir m pd a true = .ok (m, some (tbl ks (a / 2 ^ 22) + 4 * ptx a)) := by
  have hpde : m.word (pdeOf pd a) = tbl ks (a / 2 ^ 22) ||| pteP ||| pteW ||| pteU := by
    rw [pdeOf, hrun.pdx_eq]
    exact hinv.present _ hrun.pde hb
  rw [walkpgdir_present true (by rw [hpde]; exact hasFlag_pde _), pteOf, hpde,
    pteAddr_pde (hfree.tbl_aligned hks hrun.pde)]

/-- INTERNAL: **the first page of a region**: `kalloc` takes the next table, which is
zeroed and entered for the region. -/
theorem KvmInv.alloc {a : Nat} {m : Mem} (hinv : KvmInv m₀ pd ks rest a a m) (hrun : KernRun a a)
    (hs : a % 2 ^ 22 = 0) :
    KvmInv m₀ pd ks rest (a + pgsize) a
      ((m.takeZeroed (tbl ks (a / 2 ^ 22)) (ks.drop (taken a + 1) ++ rest)).setWord
        (pd + 4 * (a / 2 ^ 22)) (tbl ks (a / 2 ^ 22) ||| pteP ||| pteW ||| pteU)) := by
  have hkp := hrun.pde
  obtain ⟨hidx, htk⟩ := hrun.taken_start hs
  have hlt : taken a < 64 := hidx ▸ tableIdx_lt hkp
  have hT : tbl ks (a / 2 ^ 22) = ks.getD (taken a) 0 := by rw [tbl, hidx]
  have hTal := hfree.tbl_aligned hks hkp
  have hTmem : tbl ks (a / 2 ^ 22) ∈ pd :: ks := List.mem_cons_of_mem _ (tbl_mem hks hkp)
  have hpdT : pd / pgsize ≠ tbl ks (a / 2 ^ 22) / pgsize := by
    rw [hT]
    exact (hfree.getD_frame_ne_pd hks hlt).symm
  -- an entry of the page directory lies outside the new table
  have hpde_out : ∀ i', i' < 1024 → (pd + 4 * i') / pgsize ≠ tbl ks (a / 2 ^ 22) / pgsize :=
    fun i' hi' => by rw [entry_in_table hfree.pd_aligned hi']; exact hpdT
  have hapage := hrun.page_eq
  refine ⟨?_, fun w hw => ?_, fun w hw => ?_, fun pa hpa => ?_, ?_, fun j hj => ?_, fun j hj hj' => ?_,
    by rw [Mem.setWord_la, Mem.takeZeroed_la, hinv.la], fun i' hk hb => ?_, fun i' hi' hn => ?_,
    fun i' hk hb j hj hle => ?_⟩
  · rw [Mem.setWord_freelist, Mem.takeZeroed_freelist, htk]
  · rw [Mem.setWord_word, if_neg (hw.ne_entry List.mem_cons_self hfree.pd_aligned (by
      unfold KernPde at hkp; omega)), Mem.takeZeroed_word_of_ne _ _ hTal (hw _ hTmem), hinv.word w hw]
  · rw [Mem.setWord_byte, Mem.takeZeroed_byte_of_ne _ _ hTal (hw _ hTmem), hinv.byte w hw]
  · rw [Mem.getRef_eq_of_ref _ (Mem.setWord_ref _ _ _), Mem.takeZeroed_getRef, if_neg (hpa _ hTmem),
      hinv.ref pa hpa]
  · rw [Mem.getRef_eq_of_ref _ (Mem.setWord_ref _ _ _), Mem.takeZeroed_getRef, if_neg hpdT, hinv.ref_pd]
  · rw [Mem.getRef_eq_of_ref _ (Mem.setWord_ref _ _ _), Mem.takeZeroed_getRef]
    by_cases hja : j = taken a
    · rw [hja, ← hT, if_pos rfl]
    · rw [hT, if_neg (hfree.getD_frame_ne hks (by omega) hlt hja), hinv.ref_taken j (by omega)]
  · rw [Mem.getRef_eq_of_ref _ (Mem.setWord_ref _ _ _), Mem.takeZeroed_getRef, hT,
      if_neg (hfree.getD_frame_ne hks hj' hlt (by omega)), hinv.ref_free j (by omega) hj']
  · rw [Mem.setWord_word]
    by_cases hii : i' = a / 2 ^ 22
    · rw [if_pos (by rw [hii]), hii]
    · have hik : i' < 1024 := by unfold KernPde at hk; omega
      rw [if_neg (by omega), Mem.takeZeroed_word_of_ne _ _ hTal (hpde_out i' hik),
        hinv.present i' hk (by unfold pgsize at hb; omega)]
  · have hii : i' ≠ a / 2 ^ 22 := by
      rintro rfl
      exact hn ⟨hkp, by unfold pgsize; omega⟩
    rw [Mem.setWord_word, if_neg (by omega), Mem.takeZeroed_word_of_ne _ _ hTal (hpde_out i' hi'),
      hinv.absent i' hi' fun ⟨hk, hlt'⟩ => hn ⟨hk, by omega⟩]
  · -- only the new table has entries from `a` on, and it is zero
    have hii : i' = a / 2 ^ 22 := by unfold pgsize at hb hle; omega
    subst hii
    rw [Mem.setWord_word, if_neg (hfree.pde_ne_entry hks hkp (by unfold KernPde at hkp; omega) hj).symm,
      takeZeroed_word_self _ _ (by omega) (by unfold pgsize; omega)]

/-- **`walkpgdir` of a page of the kernel map**: the table of its region, allocated from
the head of the free list at the region's first page. -/
theorem kvm_walk {a : Nat} {m : Mem} (hinv : KvmInv m₀ pd ks rest a a m) (hrun : KernRun a a) :
    ∃ m₁, walkpgdir m pd a true = .ok (m₁, some (tbl ks (a / 2 ^ 22) + 4 * ptx a)) ∧
      KvmInv m₀ pd ks rest (a + pgsize) a m₁ := by
  have hkp := hrun.pde
  have hal : a % pgsize = 0 := hrun.1
  by_cases hs : a % 2 ^ 22 = 0
  · -- the first page of a region: its table is the next frame
    obtain ⟨hidx, -⟩ := hrun.taken_start hs
    have hlt : taken a < 64 := hidx ▸ tableIdx_lt hkp
    have hT : tbl ks (a / 2 ^ 22) = ks.getD (taken a) 0 := by rw [tbl, hidx]
    have hfl : m.freelist = tbl ks (a / 2 ^ 22) :: (ks.drop (taken a + 1) ++ rest) := by
      rw [hinv.freelist, hT, List.getD_eq_getElem _ _ (by omega),
        List.drop_eq_getElem_cons (by omega), List.cons_append]
    have href : m.getRef (tbl ks (a / 2 ^ 22)) = 0 := by
      rw [hT]
      exact hinv.ref_free _ le_rfl hlt
    have habs : m.word (pdeOf pd a) = 0 := by
      rw [pdeOf, hrun.pdx_eq]
      exact hinv.absent _ (by unfold KernPde at hkp; omega) fun h => by
        obtain ⟨_, h⟩ := h
        omega
    have hwalk := walkpgdir_alloc (by rw [habs, hasFlag_zero])
      (kalloc_cons hfl (hfree.le _ (List.mem_cons_of_mem _ (tbl_mem hks hkp))) href)
    rw [pdeOf, hrun.pdx_eq] at hwalk
    exact ⟨_, hwalk, hinv.alloc hfree hks hrun hs⟩
  · -- inside a region: its table is present
    refine ⟨m, hinv.walk_present hfree hks hrun (by omega), hinv.shift (hrun.taken_mid hs) ?_ ?_⟩
    · intro i _
      unfold pgsize at *
      omega
    · exact fun _ _ _ _ _ hle => hle

/-- **`mappage` of a page of the kernel map**: its entry, empty, maps the page, and the
pages after it are still empty. -/
theorem kvm_map {a : Nat} {m : Mem} (pa perm : Nat) (hinv : KvmInv m₀ pd ks rest (a + pgsize) a m)
    (hrun : KernRun a a) :
    mappage m a (tbl ks (a / 2 ^ 22) + 4 * ptx a) pa perm =
        .ok (m.setWord (tbl ks (a / 2 ^ 22) + 4 * ptx a) (pa ||| perm ||| pteP)) ∧
      KvmInv m₀ pd ks rest (a + pgsize) (a + pgsize)
        (m.setWord (tbl ks (a / 2 ^ 22) + 4 * ptx a) (pa ||| perm ||| pteP)) := by
  have hkp := hrun.pde
  have hapage := hrun.page_eq
  have hptx : ptx a < 1024 := Nat.mod_lt _ (by norm_num)
  have hTmem : tbl ks (a / 2 ^ 22) ∈ pd :: ks := List.mem_cons_of_mem _ (tbl_mem hks hkp)
  have hzero : m.word (tbl ks (a / 2 ^ 22) + 4 * ptx a) = 0 :=
    hinv.empty _ hkp (by unfold pgsize; omega) _ hptx (by omega)
  have hk : kernbase ≤ a := by
    obtain ⟨-, -, -, h⟩ := hrun
    unfold kernbase devspace at *
    omega
  refine ⟨mappage_kernel (by rw [hzero, hasFlag_zero]) hk, ?_⟩
  refine ⟨hinv.freelist, fun w hw => ?_, hinv.byte, fun pa hpa => ?_, hinv.ref_pd, hinv.ref_taken,
    hinv.ref_free, hinv.la, fun i hi hb => ?_, fun i hi hn => ?_, fun i hi hb j hj hle => ?_⟩
  · rw [Mem.setWord_word, if_neg (hw.ne_entry hTmem (hfree.tbl_aligned hks hkp) hptx), hinv.word w hw]
  · rw [Mem.getRef_eq_of_ref _ (Mem.setWord_ref _ _ _), hinv.ref pa hpa]
  · rw [Mem.setWord_word, if_neg (hfree.pde_ne_entry hks hkp (by unfold KernPde at hi; omega) hptx),
      hinv.present i hi hb]
  · rw [Mem.setWord_word, if_neg (hfree.pde_ne_entry hks hkp hi hptx), hinv.absent i hi hn]
  · -- a page after `a` has another entry
    have hne : i ≠ a / 2 ^ 22 ∨ j ≠ ptx a := by
      by_cases hi' : i = a / 2 ^ 22
      · refine Or.inr fun hj' => ?_
        rw [hi', hj'] at hle
        unfold pgsize at hle hapage
        omega
      · exact Or.inl hi'
    rw [Mem.setWord_word, if_neg (hfree.entry_ne hks hi hkp hj hptx hne), hinv.empty i hi hb j hj (by omega)]

/-- **A run of pages of the kernel map**: from `a` to `last`, `mappages`' loop maps every
page, allocating the tables of the regions it enters, and leaves the pages after `last`
empty. -/
theorem mappagesLoop_kvm (perm last : Nat) :
    ∀ (n : Nat) (m : Mem) (a pa : Nat), KernRun a last → a + n * pgsize = last →
      KvmInv m₀ pd ks rest a a m →
      ∃ m', mappagesLoop pd last perm (n + 1) m a pa = .ok (m', 0) ∧
        KvmInv m₀ pd ks rest (last + pgsize) (last + pgsize) m' := by
  intro n
  -- induction on the pages left after `a`, the page and its frame generalized
  induction n with
  | zero =>
      intro m a pa hrun hn hinv
      obtain ⟨m₁, hwalk, hinv₁⟩ := kvm_walk hfree hks hinv hrun.first
      obtain ⟨hmap, hinv₂⟩ := kvm_map hfree hks pa perm hinv₁ hrun.first
      rw [Nat.zero_mul, Nat.add_zero] at hn
      subst hn
      exact ⟨_, by rw [mappagesLoop_succ hwalk hmap, if_pos rfl], hinv₂⟩
  | succ n ih =>
      intro m a pa hrun hn hinv
      obtain ⟨m₁, hwalk, hinv₁⟩ := kvm_walk hfree hks hinv hrun.first
      obtain ⟨hmap, hinv₂⟩ := kvm_map hfree hks pa perm hinv₁ hrun.first
      have hne : a ≠ last := by
        unfold pgsize at hn
        omega
      have hmod : (a + pgsize) % uintMod = a + pgsize := by
        obtain ⟨-, -, -, h⟩ := hrun
        rw [uintMod_eq]
        unfold pgsize kernbase phystop devspace at *
        omega
      obtain ⟨m', hloop, hinv'⟩ := ih _ (a + pgsize) ((pa + pgsize) % uintMod) (hrun.next hne)
        (by rw [← hn, Nat.succ_mul]; omega) hinv₂
      exact ⟨m', by rw [mappagesLoop_succ hwalk hmap, if_neg hne, hmod, hloop], hinv'⟩

/-- **`mappages` of an entry of the kernel map**: `size` bytes at the aligned `va`, inside
one run of regions. -/
theorem mappages_kvm {m : Mem} (va size pa perm : Nat) (hrun : KernRun va (va + size - pgsize))
    (hsz : size % pgsize = 0) (hpos : 0 < size) (hinv : KvmInv m₀ pd ks rest va va m) :
    ∃ m', mappages m pd va size pa perm = .ok (m', 0) ∧
      KvmInv m₀ pd ks rest (va + size) (va + size) m' := by
  have hva := hrun.1
  have hseg := hrun.2.2.2
  have hdown : pgrounddown va = va := by
    simpa using pgrounddown_add_of_aligned hva (k := 0) (by decide)
  have hlast : pgrounddown ((va + size - 1) % uintMod) = va + size - pgsize := by
    rw [uintMod_eq]
    unfold pgrounddown
    unfold pgsize kernbase phystop devspace at *
    omega
  have hfuel : (va + size - pgsize - va) / pgsize = size / pgsize - 1 := by
    unfold pgsize at *
    omega
  have hend : va + size - pgsize + pgsize = va + size := by
    unfold pgsize at *
    omega
  obtain ⟨m', hloop, hinv'⟩ := mappagesLoop_kvm hfree hks perm (va + size - pgsize) (size / pgsize - 1) m va pa
    hrun (by unfold pgsize at *; omega) hinv
  refine ⟨m', ?_, hend ▸ hinv'⟩
  unfold mappages
  simp only [hdown, hlast, hfuel]
  exact hloop

end Walk

/-! ## `setupkvm` -/

/-- One entry of `kmap` that `mappages` maps. -/
theorem setupkvmLoop_cons {pgdir virt physStart physEnd perm : Nat} {kms : List Kmap} {m m' : Mem}
    (h : mappages m pgdir virt ((physEnd + uintMod - physStart) % uintMod) physStart perm = .ok (m', 0)) :
    setupkvmLoop pgdir (⟨virt, physStart, physEnd, perm⟩ :: kms) m = setupkvmLoop pgdir kms m' := by
  rw [setupkvmLoop, h]
  rfl

/-- What `setupkvm` leaves, against the memory `m₀` before the call: the page directory
`pd` points every entry of the kernel map to its table from `ks` and has an empty user
half, the free list is `rest`, the 65 frames have one reference each, and memory outside
them is that of `m₀`. -/
structure KvmPost (m₀ : Mem) (pd : Nat) (ks rest : List Nat) (m : Mem) : Prop where
  freelist : m.freelist = rest
  word : ∀ w, Outside (pd :: ks) w → m.word w = m₀.word w
  byte : ∀ w, Outside (pd :: ks) w → m.byte w = m₀.byte w
  ref : ∀ pa, Outside (pd :: ks) pa → m.getRef pa = m₀.getRef pa
  ref_taken : ∀ f ∈ pd :: ks, m.getRef f = 1
  la : m.la = m₀.la
  kernel : ∀ i, KernPde i → m.word (pd + 4 * i) = tbl ks i ||| pteP ||| pteW ||| pteU
  user : ∀ i, i < 512 → m.word (pd + 4 * i) = 0

section Setup

variable {m₀ : Mem} {pd : Nat} {ks rest : List Nat} (hfree : FreeFrames m₀ (pd :: ks))
  (hks : ks.length = 64)
include hfree hks

/-- INTERNAL: the walk starts from the page directory, taken and zeroed. -/
theorem kvm_init : KvmInv m₀ pd ks rest kernbase kernbase (m₀.takeZeroed pd (ks ++ rest)) := by
  have hpd := hfree.pd_aligned
  refine ⟨?_, fun w hw => ?_, fun w hw => ?_, fun pa hpa => ?_, ?_, fun j hj => ?_, fun j _ hj => ?_, rfl,
    fun i hi hb => ?_, fun i hi _ => ?_, fun i hi hb => ?_⟩
  · rw [Mem.takeZeroed_freelist, taken_kernbase, List.drop_zero]
  · exact Mem.takeZeroed_word_of_ne _ _ hpd (hw pd List.mem_cons_self)
  · exact Mem.takeZeroed_byte_of_ne _ _ hpd (hw pd List.mem_cons_self)
  · rw [Mem.takeZeroed_getRef, if_neg (hpa pd List.mem_cons_self)]
  · rw [Mem.takeZeroed_getRef, if_pos rfl]
  · rw [taken_kernbase] at hj
    omega
  · rw [Mem.takeZeroed_getRef, if_neg (hfree.getD_frame_ne_pd hks hj)]
    exact hfree.unref _ (getD_mem_frames hks hj)
  -- no region of the kernel map starts below `KERNBASE`
  · unfold KernPde kernbase at *
    omega
  · exact takeZeroed_word_self _ _ (by omega) (by unfold pgsize; omega)
  · unfold KernPde kernbase at *
    omega

/-- INTERNAL: the walk ends with every table taken. -/
theorem KvmInv.post {m : Mem} (hinv : KvmInv m₀ pd ks rest (2 ^ 32) (2 ^ 32) m) :
    KvmPost m₀ pd ks rest m := by
  refine ⟨?_, hinv.word, hinv.byte, hinv.ref, fun f hf => ?_, hinv.la,
    fun i hi => hinv.present i hi (by unfold KernPde at hi; omega),
    fun i hi => hinv.absent i (by omega) fun ⟨hk, _⟩ => by unfold KernPde at hk; omega⟩
  · rw [hinv.freelist, taken_top, List.drop_eq_nil_of_le (by omega), List.nil_append]
  · rcases List.mem_cons.mp hf with rfl | hf
    · exact hinv.ref_pd
    · obtain ⟨j, hj, rfl⟩ := List.getElem_of_mem hf
      have := hinv.ref_taken j (by rw [taken_top]; omega)
      rwa [List.getD_eq_getElem _ _ hj] at this

/-- INTERNAL: **the walk over `kmap`**, entry by entry, with `data` page-aligned between
`EXTMEM` and `PHYSTOP`. -/
theorem setupkvmLoop_kvm {kernData : Nat} (hlo : extmem < kernData) (hhi : kernData < phystop)
    (hal : kernData % pgsize = 0) {m : Mem} (hinv : KvmInv m₀ pd ks rest kernbase kernbase m) :
    ∃ m', setupkvmLoop pd (kmap kernData) m = .ok (m', true) ∧
      KvmInv m₀ pd ks rest (2 ^ 32) (2 ^ 32) m' := by
  have hv1 : v2p kernlink = extmem := by
    unfold v2p kernlink
    rw [uintMod_eq]
    unfold kernbase extmem
    norm_num
  have hv2 : p2v kernData = kernbase + kernData := by
    unfold p2v
    rw [uintMod_eq]
    unfold kernbase phystop at *
    omega
  have hs : ∀ a b, b ≤ a → a < 2 ^ 32 → (a + uintMod - b) % uintMod = a - b := by
    intro a b hb ha
    rw [uintMod_eq]
    omega
  unfold extmem at hlo
  unfold phystop at hhi
  unfold pgsize at hal
  -- I/O space
  obtain ⟨m₁, h₁, hinv₁⟩ := mappages_kvm hfree hks kernbase extmem 0 pteW
    (by unfold KernRun kernbase extmem phystop pgsize; omega) (by decide) (by decide) hinv
  -- the kernel's text and read-only data
  obtain ⟨m₂, h₂, hinv₂⟩ := mappages_kvm hfree hks kernlink (kernData - extmem) extmem 0
    (by unfold KernRun kernlink kernbase extmem phystop pgsize; omega)
    (by unfold extmem pgsize; omega) (by unfold extmem; omega) hinv₁
  -- the kernel's data and the rest of physical memory
  obtain ⟨m₃, h₃, hinv₃⟩ := mappages_kvm hfree hks (kernbase + kernData) (phystop - kernData)
    kernData pteW (by unfold KernRun kernbase phystop pgsize; omega)
    (by unfold phystop pgsize; omega) (by unfold phystop; omega)
    (by
      have he : kernlink + (kernData - extmem) = kernbase + kernData := by
        unfold kernlink extmem
        omega
      exact he ▸ hinv₂)
  -- no region of the kernel map starts between `KERNBASE + PHYSTOP` and `DEVSPACE`
  have hgap : KvmInv m₀ pd ks rest devspace devspace m₃ := by
    have he : kernbase + kernData + (phystop - kernData) = kernbase + phystop := by
      unfold phystop
      omega
    refine (he ▸ hinv₃).shift (by unfold taken kernbase phystop devspace; norm_num) ?_ ?_
    · intro i hi
      unfold KernPde at hi
      unfold kernbase phystop devspace
      omega
    · intro i hi hb j hj _
      unfold KernPde at hi
      unfold kernbase phystop devspace pgsize at *
      omega
  -- the devices
  obtain ⟨m₄, h₄, hinv₄⟩ := mappages_kvm hfree hks devspace (2 ^ 32 - devspace) devspace pteW
    (by unfold KernRun devspace pgsize; omega) (by unfold devspace pgsize; omega)
    (by unfold devspace; omega) hgap
  have e₁ : mappages m pd kernbase ((extmem + uintMod - 0) % uintMod) 0 pteW = .ok (m₁, 0) := by
    rw [hs _ _ (Nat.zero_le _) (by unfold extmem; omega)]
    exact h₁
  have e₂ : mappages m₁ pd kernlink ((kernData + uintMod - v2p kernlink) % uintMod) (v2p kernlink) 0 =
      .ok (m₂, 0) := by
    rw [hv1, hs _ _ (by unfold extmem; omega) (by omega)]
    exact h₂
  have e₃ : mappages m₂ pd (p2v kernData) ((phystop + uintMod - kernData) % uintMod) kernData pteW =
      .ok (m₃, 0) := by
    rw [hv2, hs _ _ (by unfold phystop; omega) (by unfold phystop; omega)]
    exact h₃
  have e₄ : mappages m₃ pd devspace ((0 + uintMod - devspace) % uintMod) devspace pteW = .ok (m₄, 0) := by
    have : (0 + uintMod - devspace) % uintMod = 2 ^ 32 - devspace := by
      rw [uintMod_eq]
      unfold devspace
      norm_num
    rw [this]
    exact h₄
  refine ⟨m₄, ?_, by
    have he : devspace + (2 ^ 32 - devspace) = 2 ^ 32 := by
      unfold devspace
      norm_num
    exact he ▸ hinv₄⟩
  rw [kmap, setupkvmLoop_cons e₁, setupkvmLoop_cons e₂, setupkvmLoop_cons e₃, setupkvmLoop_cons e₄]
  rfl

end Setup

section Kernel

variable (kernEnd kernData : Nat)

/-- **`setupkvm` with 65 frames on the free list**: it takes the page directory `pd` and
the 64 page tables `ks` from the head of the free list, maps the kernel half, and
succeeds, memory outside the 65 frames unchanged and the user half of `pd` empty.
`V2P(data)` is page-aligned between `EXTMEM` and `PHYSTOP`, as the linker places it. -/
theorem setupkvm_ok (s : Vm) {pd : Nat} {ks rest : List Nat} (hfl : s.mem.freelist = pd :: ks ++ rest)
    (hks : ks.length = 64) (hfree : FreeFrames s.mem (pd :: ks)) (hlo : extmem < kernData)
    (hhi : kernData < phystop) (hal : kernData % pgsize = 0) :
    ∃ m, setupkvm kernEnd kernData s = .ok ({ s with mem := m }, some pd) ∧ KvmPost s.mem pd ks rest m := by
  have hkal := kalloc_cons (by rw [hfl, List.cons_append]) (hfree.le pd List.mem_cons_self)
    (hfree.unref pd List.mem_cons_self)
  obtain ⟨m, hloop, hinv⟩ := setupkvmLoop_kvm hfree hks hlo hhi hal (kvm_init hfree hks : KvmInv s.mem pd ks rest kernbase kernbase _)
  have hhigh : ¬(p2v phystop > devspace) := by
    unfold p2v
    rw [uintMod_eq]
    unfold phystop kernbase devspace
    norm_num
  refine ⟨m, ?_, hinv.post hfree hks⟩
  unfold setupkvm
  rw [hkal]
  simp only [Run.ok_bind]
  rw [if_neg hhigh, show (((({ s.mem with freelist := ks ++ rest } : Mem).setRef pd 1).memsetPage pd 0)) =
    s.mem.takeZeroed pd (ks ++ rest) from rfl, hloop]
  rfl

end Kernel

end Xv6
