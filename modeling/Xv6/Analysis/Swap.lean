import Xv6.Analysis.Sbrk
import Xv6.Analysis.SwapFile

/-!
# The swap bitmap after one `swap()`

The swap bookkeeping keeps the bitmap of the swap file and the nodes of the swap map in
step: a bit is set exactly when a node carries its page number (`BitmapMatchesMap`).
`swap()` sends every page of a process that is present, neither copy-on-write nor
accessed, to the swap file, one `swapwrite_file` each (`SwapLoopInv`).  The file holds
fifteen pages; the seventeenth is written over the bitmap (`swapfile_writes_seventeen`),
whose bits then mark pages that no node carries.
-/

set_option autoImplicit false

namespace Xv6

/-- The swap file's bitmap agrees with the swap map: the bit of a page number is set
exactly when some node carries that number. -/
def BitmapMatchesMap (s : Vm) : Prop :=
  ∀ j < s.swapfile.bmapSize * 8,
    swapfileBitmapIsUsed (s.swapfile.data (j / 8)) j = true ↔ ∃ b, ∃ n ∈ s.swapMap b, n.pageNo = j

/-! ## The memory `swapwrite_file` leaves -/

namespace Mem

/-- Freeing a frame leaves the bytes of every other frame alone. -/
theorem freeLast_byte_of_ne (m : Mem) {pa a : Nat} (hpa : pa % pgsize = 0) (ha : a / pgsize ≠ pa / pgsize) :
    (m.freeLast pa).byte a = m.byte a := by
  have hout : ¬(pa ≤ a ∧ a < pa + pgsize) := by
    unfold pgsize at *
    omega
  simp [freeLast, memsetPage, setRef, hout]

/-- INTERNAL: the memory after `swapwrite_file` sent the frame `pa` of the entry `pte` to the
swap file: the entry swapped and not present, the frame's address forgotten, its count
reset and the frame freed. -/
def swappedOut (m : Mem) (pa pte : Nat) : Mem :=
  ({ m.setWord pte (clearFlag (setFlag (m.word pte) pteS) pteP) with
      la := Function.update m.la (pa / pgsize) 0, ref := Function.update m.ref (pa / pgsize) 1 } : Mem).freeLast pa

variable (m : Mem) {pa pte : Nat}

theorem swappedOut_word (hpa : pa % pgsize = 0) {y : Nat} (hy : y ≠ pte) (hf : y / pgsize ≠ pa / pgsize) :
    (m.swappedOut pa pte).word y = m.word y := by
  rw [swappedOut, freeLast_word_of_ne _ hpa hf]
  show (m.setWord pte _).word y = m.word y
  rw [setWord_word, if_neg hy]

theorem swappedOut_getRef {q : Nat} (hf : q / pgsize ≠ pa / pgsize) :
    (m.swappedOut pa pte).getRef q = m.getRef q := by
  rw [swappedOut, freeLast_getRef, if_neg hf]
  show Function.update m.ref (pa / pgsize) 1 (q / pgsize) = m.ref (q / pgsize)
  rw [Function.update_of_ne hf]

theorem swappedOut_byte (hpa : pa % pgsize = 0) {y : Nat} (hf : y / pgsize ≠ pa / pgsize) :
    (m.swappedOut pa pte).byte y = m.byte y := by
  rw [swappedOut, freeLast_byte_of_ne _ hpa hf]
  rfl

end Mem

/-- INTERNAL: a node of the map after `add` is the new one or was there. -/
theorem SwapMap.mem_add {m : SwapMap} {b b' : Nat} {node n : SwapNode} (h : n ∈ (m.add b node) b') :
    n ∈ m b' ∨ n = node := by
  unfold SwapMap.add at h
  by_cases hb : b' = b
  · subst hb
    rw [Function.update_self, List.mem_append, List.mem_singleton] at h
    exact h
  · rw [Function.update_of_ne hb] at h
    exact Or.inl h

section Pass

variable (kernEnd : Nat)

/-- **`swapwrite_file`** of a frame of one reference, after the kernel and below
`PHYSTOP`, with no lock held: the page goes to the slot the swap file gives, the map gets
a node for it, and the frame is freed. -/
theorem swapwriteFile_ok {s : Vm} {pa la pte : Nat} {g : SwapFile} {i : Nat}
    (hget : swapfileGetFreePage s.swapfile = .ok (g, i)) (hheld : s.held = [])
    (hal : pa % pgsize = 0) (hk : kernEnd ≤ pa) (hp : pa < phystop) (h1 : s.mem.getRef pa = 1) :
    swapwriteFile kernEnd s pa la pte = .ok { s with
      mem := s.mem.swappedOut pa pte,
      swapfile := swapfileWritePage g (fun a => s.mem.byte (pa + a)) i,
      swapMap := s.swapMap.add (swapMapHash kernEnd ⟨la, pa⟩) ⟨⟨la, pa⟩, i, [pte]⟩,
      held := [] } := by
  -- `reset_and_free_pa_pd` sets the count to one, so `kfree` drops the last reference
  have hfree : resetAndFreePaPd kernEnd (s.mem.setWord pte (clearFlag (setFlag (s.mem.word pte) pteS) pteP))
      pa = .ok (s.mem.swappedOut pa pte) :=
    kfree_of_ref_one kernEnd hal hk hp (by simp [Mem.getRef])
  unfold swapwriteFile
  simp only [hget, Run.ok_bind, hheld, acquire, release, List.not_mem_nil, if_false,
    Nat.not_lt.mpr hp.le, h1, ne_eq, not_true_eq_false, List.mem_cons, true_or, if_true,
    hfree, pure_bind, List.erase_cons_head]
  rfl

/-- One pass of the loop of `swap()` over a page that is present, neither copy-on-write
nor accessed: `swapwrite_file`, then the next page. -/
theorem swapPagesLoop_swapped (pgdir top fuel : Nat) (s : Vm) {a : Nat} {s' : Vm} (ha : a < top)
    (hpde : hasFlag (s.mem.word (pdeOf pgdir a)) pteP = true)
    (hP : hasFlag (s.mem.word (pteOf s.mem pgdir a)) pteP = true)
    (hC : hasFlag (s.mem.word (pteOf s.mem pgdir a)) pteC = false)
    (hA : hasFlag (s.mem.word (pteOf s.mem pgdir a)) pteA = false)
    (hw : swapwriteFile kernEnd s (pteAddr (s.mem.word (pteOf s.mem pgdir a))) a (pteOf s.mem pgdir a) = .ok s') :
    swapPagesLoop kernEnd pgdir top (fuel + 1) s a =
      swapPagesLoop kernEnd pgdir top fuel s' ((a + pgsize) % uintMod) := by
  rw [swapPagesLoop, if_pos ha, walkpgdir_present false hpde]
  simp only [Run.ok_bind, hP, hC, hA, Bool.not_false, Bool.and_self, if_true, Bool.false_eq_true,
    if_false]
  rw [hw, Run.ok_bind]

end Pass

/-! ## `swap()` over an image in one page table -/

section Loop

variable {kernEnd : Nat}

/-- The frame of the page at `x` of an image in the page table `T`. -/
def pageFrame (m : Mem) (T x : Nat) : Nat := pteAddr (m.word (T + 4 * (x / pgsize)))

/-- The bytes of the `i`-th page of such an image. -/
def pageBytes (m : Mem) (T : Nat) (i : Nat) : Nat → UInt8 := fun b => m.byte (pageFrame m T (i * pgsize) + b)

/-- Every page of the image is present and neither copy-on-write nor accessed: `swap()`
sends each to the swap file. -/
def Swappable (m : Mem) (T sz : Nat) : Prop :=
  ∀ x, x < sz → x % pgsize = 0 →
    hasFlag (m.word (T + 4 * (x / pgsize))) pteP = true ∧ hasFlag (m.word (T + 4 * (x / pgsize))) pteC = false ∧
      hasFlag (m.word (T + 4 * (x / pgsize))) pteA = false

/-- The loop of `swap()` at page `a` of an image in one page table, from the memory `m₀`
and the swap file `f₀`: the page directory, and the entries, counts and bytes of the pages
from `a` on, as they were; the swap file after the writes of the pages below `a`, with
a node for each of them only; no lock held, and the processes as they were. -/
structure SwapLoopInv (m₀ : Mem) (pgdir T sz : Nat) (f₀ : SwapFile) (P₀ : Fin nproc → VmProc)
    (s : Vm) (a : Nat) : Prop where
  pde : s.mem.word pgdir = m₀.word pgdir
  later : ∀ x, a ≤ x → x < sz → x % pgsize = 0 →
    s.mem.word (T + 4 * (x / pgsize)) = m₀.word (T + 4 * (x / pgsize))
  refs : ∀ x, a ≤ x → x < sz → x % pgsize = 0 → s.mem.getRef (pageFrame m₀ T x) = 1
  bytes : ∀ x, a ≤ x → x < sz → x % pgsize = 0 → ∀ b, b < pgsize →
    s.mem.byte (pageFrame m₀ T x + b) = m₀.byte (pageFrame m₀ T x + b)
  file : Run.runE swapfileStep f₀ (pageWrites (pageBytes m₀ T) (a / pgsize)) =
    .ok (s.swapfile, (List.range (a / pgsize)).map SwapFileOut.page)
  nodes : ∀ b, ∀ n ∈ s.swapMap b, n.pageNo < a / pgsize
  held : s.held = []
  proc : s.proc = P₀

variable {m₀ : Mem} {pgdir T sz : Nat}

theorem SwapLoopInv.init (himg : OneTable kernEnd m₀ pgdir T sz) (hsw : Swappable m₀ T sz) {s : Vm}
    (hm : s.mem = m₀) (hmap : s.swapMap = SwapMap.empty) (hheld : s.held = []) :
    SwapLoopInv m₀ pgdir T sz s.swapfile s.proc s 0 where
  pde := by rw [hm]
  later _ _ _ _ := by rw [hm]
  refs x _ hx hal := by rw [hm]; exact (himg.frame x hx hal (hsw x hx hal).1).one
  bytes _ _ _ _ _ _ := by rw [hm]
  file := rfl
  nodes b n hn := by rw [hmap] at hn; cases hn
  held := hheld
  proc := rfl

variable {f₀ : SwapFile} {P₀ : Fin nproc → VmProc}

/-- **One pass of `swap()` keeps the invariant**: the page at `a` goes to the slot the swap
file gives it, and the later pages are left as they were. -/
theorem SwapLoopInv.step (himg : OneTable kernEnd m₀ pgdir T sz) (hsw : Swappable m₀ T sz) {s : Vm}
    {a : Nat} (hinv : SwapLoopInv m₀ pgdir T sz f₀ P₀ s a) (ha : a < sz) (hal : a % pgsize = 0)
    {F : SwapFile}
    (hnext : swapfileStep s.swapfile (.write (pageBytes m₀ T (a / pgsize))) = .ok (F, .page (a / pgsize)))
    (fuel : Nat) :
    ∃ s', swapPagesLoop kernEnd pgdir sz (fuel + 1) s a = swapPagesLoop kernEnd pgdir sz fuel s' (a + pgsize) ∧
      SwapLoopInv m₀ pgdir T sz f₀ P₀ s' (a + pgsize) := by
  obtain ⟨hpde, hpte⟩ := himg.walk hinv.pde ha
  have hw := hinv.later a le_rfl ha hal
  obtain ⟨hP, hC, hA⟩ := hsw a ha hal
  obtain ⟨-, hfk, hfp, hfP, hfT, -⟩ := himg.frame a ha hal hP
  have hfal : pageFrame m₀ T a % pgsize = 0 := pteAddr_aligned _
  -- the slot the swap file gives, and the page written there
  obtain ⟨⟨g, i⟩, hget, hwr⟩ := Run.bind_eq_ok hnext
  cases hwr
  have hsrc : swapfileWritePage g (fun b => s.mem.byte (pageFrame m₀ T a + b)) (a / pgsize) =
      swapfileWritePage g (pageBytes m₀ T (a / pgsize)) (a / pgsize) :=
    SwapFile.swapfileWritePage_congr g _ fun b hb => by
      rw [hinv.bytes a le_rfl ha hal b hb, pageBytes, Nat.div_mul_cancel (Nat.dvd_of_mod_eq_zero hal)]
  have hwf := @swapwriteFile_ok kernEnd s (pageFrame m₀ T a) a (T + 4 * (a / pgsize)) g (a / pgsize) hget
    hinv.held hfal hfk hfp (hinv.refs a le_rfl ha hal)
  refine ⟨{ s with
      mem := s.mem.swappedOut (pageFrame m₀ T a) (T + 4 * (a / pgsize)),
      swapfile := swapfileWritePage g (fun b => s.mem.byte (pageFrame m₀ T a + b)) (a / pgsize),
      swapMap := s.swapMap.add (swapMapHash kernEnd ⟨a, pageFrame m₀ T a⟩)
        ⟨⟨a, pageFrame m₀ T a⟩, a / pgsize, [T + 4 * (a / pgsize)]⟩,
      held := [] }, ?_, ?_⟩
  · rw [swapPagesLoop_swapped kernEnd pgdir sz fuel s ha hpde (by rw [hpte, hw]; exact hP)
      (by rw [hpte, hw]; exact hC) (by rw [hpte, hw]; exact hA) (by rw [hpte, hw]; exact hwf), himg.next_page ha]
  -- the frames the pass touches: the entry of `a` in `T`, and the frame of `a`
  have hPf := frame_ne_of_aligned himg.alignP hfal hfP.symm
  have hother : ∀ x, a + pgsize ≤ x → x < sz → x % pgsize = 0 →
      pageFrame m₀ T x / pgsize ≠ pageFrame m₀ T a / pgsize := fun x hx₁ hx₂ hxal =>
    himg.frames_apart hx₂ ha hxal hal (by unfold pgsize at hx₁; omega) (hsw x hx₂ hxal).1 hP
  have hdiv : (a + pgsize) / pgsize = a / pgsize + 1 := by
    unfold pgsize
    omega
  refine ⟨?_, fun x hx₁ hx₂ hxal => ?_, fun x hx₁ hx₂ hxal => ?_, fun x hx₁ hx₂ hxal b hb => ?_, ?_,
    fun b n hn => ?_, rfl, hinv.proc⟩
  · show (s.mem.swappedOut _ _).word pgdir = _
    rw [Mem.swappedOut_word _ hfal (himg.pgdir_ne_entry ha) hPf, hinv.pde]
  · show (s.mem.swappedOut _ _).word _ = _
    rw [Mem.swappedOut_word _ hfal (entry_ne (by unfold pgsize at *; omega)) (himg.entry_frame_ne hx₂ hfal hfT),
      hinv.later x (by omega) hx₂ hxal]
  · show (s.mem.swappedOut _ _).getRef _ = _
    rw [Mem.swappedOut_getRef _ (hother x hx₁ hx₂ hxal)]
    exact hinv.refs x (by omega) hx₂ hxal
  · -- a later frame is outside the freed one
    have hout : (pageFrame m₀ T x + b) / pgsize ≠ pageFrame m₀ T a / pgsize := by
      have := pteAddr_aligned (m₀.word (T + 4 * (x / pgsize)))
      have := hother x hx₁ hx₂ hxal
      unfold pageFrame pgsize at *
      omega
    show (s.mem.swappedOut _ _).byte _ = _
    rw [Mem.swappedOut_byte _ hfal hout]
    exact hinv.bytes x (by omega) hx₂ hxal b hb
  · show Run.runE swapfileStep f₀ (pageWrites (pageBytes m₀ T) ((a + pgsize) / pgsize)) = .ok
      (swapfileWritePage g (fun b => s.mem.byte (pageFrame m₀ T a + b)) (a / pgsize), _)
    rw [hsrc, hdiv]
    exact runE_pageWrites_succ hinv.file hnext
  · rw [hdiv]
    rcases SwapMap.mem_add hn with hn | rfl
    · exact Nat.lt_succ_of_lt (hinv.nodes b n hn)
    · exact Nat.lt_succ_self _

/-- **The loop of `swap()` over an image of `n` pages**: given that the swap file takes the
writes of its pages one after another, the passes from page `k` on send every remaining
page to the file. -/
theorem SwapLoopInv.run {n : Nat} (himg : OneTable kernEnd m₀ pgdir T (n * pgsize))
    (hsw : Swappable m₀ T (n * pgsize))
    (hwrites : ∀ k ≤ n, ∃ F, Run.runE swapfileStep f₀ (pageWrites (pageBytes m₀ T) k) =
      .ok (F, (List.range k).map SwapFileOut.page)) :
    ∀ j k s, k + j = n → SwapLoopInv m₀ pgdir T (n * pgsize) f₀ P₀ s (k * pgsize) →
      ∃ s', swapPagesLoop kernEnd pgdir (n * pgsize) j s (k * pgsize) = .ok s' ∧
        SwapLoopInv m₀ pgdir T (n * pgsize) f₀ P₀ s' (n * pgsize) := by
  intro j
  -- on the passes left; each pass moves the invariant one page on
  induction j with
  | zero =>
      intro k s hk hinv
      obtain rfl : k = n := by omega
      exact ⟨s, rfl, hinv⟩
  | succ j ih =>
      intro k s hk hinv
      have hdiv : k * pgsize / pgsize = k := Nat.mul_div_cancel k (by decide)
      have hfile := hinv.file
      rw [hdiv] at hfile
      obtain ⟨F, hF⟩ := hwrites (k + 1) (by omega)
      have hnext := step_of_runE_pageWrites_succ hfile hF
      rw [← hdiv] at hnext
      obtain ⟨s₁, hloop, hinv₁⟩ := hinv.step himg hsw (Nat.mul_lt_mul_of_pos_right (by omega) (by decide))
        (Nat.mul_mod_left k pgsize) hnext j
      rw [← Nat.succ_mul] at hloop hinv₁
      rw [hloop]
      exact ih (k + 1) s₁ (by omega) hinv₁

end Loop

/-- **`swap()` with one process in use** runs the loop over its image and nothing else. -/
theorem swap_of_one_proc (kernEnd : Nat) {s s' : Vm} {p : Fin nproc}
    (hothers : ∀ i, i ≠ p → (s.proc i).state = .unused) (hp : (s.proc p).state ≠ .unused)
    (hloop : swapPagesLoop kernEnd (s.proc p).pgdir (pgroundup (s.proc p).sz)
      (pgroundup (s.proc p).sz / pgsize) s 0 = .ok s')
    (hproc : s'.proc = s.proc) :
    swap kernEnd s = .ok s' := by
  obtain ⟨l₁, l₂, hl⟩ := List.append_of_mem (List.mem_finRange p)
  have hnd := List.nodup_cons.mp (List.nodup_middle.mp (hl ▸ List.nodup_finRange nproc))
  -- the processes before and after `p` are unused, in the state before and after its loop
  have hskip : ∀ t : Vm, t.proc = s.proc → ∀ i ∈ l₁ ++ l₂,
      (if (t.proc i).state = .unused then pure t
        else swapPagesLoop kernEnd (t.proc i).pgdir (pgroundup (t.proc i).sz)
          (pgroundup (t.proc i).sz / pgsize) t 0) = Except.ok t := fun t ht i hi => by
    rw [ht, if_pos (hothers i fun h => hnd.1 (h ▸ hi))]
    rfl
  unfold swap
  rw [hl, List.foldlM_append, Run.foldlM_fixed _ s l₁ fun i hi => hskip s rfl i (List.mem_append_left l₂ hi),
    Run.ok_bind, List.foldlM_cons, if_neg hp, hloop, Run.ok_bind]
  exact Run.foldlM_fixed _ s' l₂ fun i hi => hskip s' hproc i (List.mem_append_right l₁ hi)

/-- INTERNAL: a byte that is not zero has a bit set, in every chunk of eight bits. -/
theorem exists_isUsed_of_ne_zero {v : UInt8} (hv : v ≠ 0) (q : Nat) :
    ∃ k < 8, swapfileBitmapIsUsed v (8 * q + k) = true := by
  have hv' : v.toNat ≠ 0 := fun h => hv (UInt8.toNat_inj.mp h)
  obtain ⟨k, hk, -⟩ := Nat.exists_most_significant_bit hv'
  have hk8 : k < 8 := by
    by_contra hge
    have hlt : v.toNat < 2 ^ k :=
      calc v.toNat < 2 ^ 8 := v.toNat_lt
        _ ≤ 2 ^ k := Nat.pow_le_pow_right (by decide) (by omega)
    rw [Nat.testBit_eq_false_of_lt hlt] at hk
    cases hk
  refine ⟨k, hk8, ?_⟩
  rw [swapfileBitmapIsUsed_eq, show (8 * q + k) % 8 = k by omega]
  exact hk

/-- The state of the first `swap()`: the swap file as `swapinit` created it, an empty swap
map, no lock held, and one process in use, whose image lies in the page table `T` with
every page present, neither copy-on-write nor accessed. -/
structure FirstSwap (kernEnd : Nat) (s : Vm) (p : Fin nproc) (T : Nat) : Prop where
  file : swapinitFile kernEnd = .ok s.swapfile
  empty : s.swapMap = SwapMap.empty
  held : s.held = []
  inUse : (s.proc p).state ≠ .unused
  others : ∀ i, i ≠ p → (s.proc i).state = .unused
  image : OneTable kernEnd s.mem (s.proc p).pgdir T (s.proc p).sz
  swappable : Swappable s.mem T (s.proc p).sz

/-- INTERNAL: the bitmap of a kernel that ends below 4 MiB fits in the file. -/
theorem swapBmapSize_le_maxfile {kernEnd : Nat} (hk : kernEnd ≤ 0x400000) :
    swapBmapSize kernEnd ≤ maxfile * bsize := by
  rw [maxfile_mul_bsize]
  have := (swapBmapSize_bounds hk).2
  omega

/-- Before the first `swap()` the bitmap agrees with the swap map: both are empty. -/
theorem FirstSwap.bitmapMatchesMap {kernEnd : Nat} (hk : kernEnd ≤ 0x400000) {s : Vm} {p : Fin nproc}
    {T : Nat} (h : FirstSwap kernEnd s p T) : BitmapMatchesMap s := by
  have hf := h.file
  rw [swapinitFile_eq kernEnd (swapBmapSize_le_maxfile hk)] at hf
  have hdata : ∀ a, s.swapfile.data a = 0 := fun a => by rw [← Except.ok.inj hf]
  intro j _
  simp [hdata, h.empty, SwapMap.empty]

/-- The first `swap()` with one running process of seventeen pages, each on a frame of
its own at `0x400000 + i * PGSIZE`, present, writable and user, every byte one: the page
directory at `0x300000` maps the page table at `0x301000`; the kernel ends at 2 MiB
and the swap file is the one `swapinit` creates. -/
def firstSwapDemo : Vm where
  mem :=
    { ref := fun _ => 1
      la := fun _ => 0
      freelist := []
      word := fun a =>
        if a = 0x300000 then 0x301007
        else if 0x301000 ≤ a ∧ a < 0x301000 + 4 * 17 then (0x400000 + (a - 0x301000) / 4 * pgsize) ||| 7
        else 0
      byte := fun _ => 1 }
  proc := fun i => if i = 0 then ⟨.running, 0x300000, 17 * pgsize, false⟩ else ⟨.unused, 0, 0, false⟩
  swapfile :=
    { size := swapBmapSize 0x200000, data := fun _ => 0, off := swapBmapSize 0x200000,
      readbuf := fun _ => 0, bmapSize := swapBmapSize 0x200000 }
  swapMap := SwapMap.empty
  held := []

/-- INTERNAL: the entry of page `i` of that process. -/
theorem firstSwapDemo_entry {i : Nat} (hi : i < 17) :
    firstSwapDemo.mem.word (0x301000 + 4 * i) = (0x400000 + i * pgsize) ||| 7 := by
  show (if 0x301000 + 4 * i = 0x300000 then _ else _) = _
  rw [if_neg (by omega), if_pos (by omega), show (0x301000 + 4 * i - 0x301000) / 4 = i by omega]

/-- INTERNAL: the entry of the page at `x` of that process. -/
theorem firstSwapDemo_page {x : Nat} (hx : x < 17 * pgsize) :
    x / pgsize < 17 ∧ firstSwapDemo.mem.word (0x301000 + 4 * (x / pgsize)) = (0x400000 + x / pgsize * pgsize) ||| 7 := by
  have hi : x / pgsize < 17 := Nat.div_lt_of_lt_mul hx
  exact ⟨hi, firstSwapDemo_entry hi⟩

/-- INTERNAL: the frames and flags of the seventeen entries. -/
theorem firstSwapDemo_flags : ∀ i < 17,
    pteAddr ((0x400000 + i * pgsize) ||| 7) = 0x400000 + i * pgsize ∧
      hasFlag ((0x400000 + i * pgsize) ||| 7) pteP = true ∧ hasFlag ((0x400000 + i * pgsize) ||| 7) pteC = false ∧
      hasFlag ((0x400000 + i * pgsize) ||| 7) pteA = false ∧ hasFlag ((0x400000 + i * pgsize) ||| 7) pteS = false := by
  decide

theorem firstSwapDemo_firstSwap : FirstSwap 0x200000 firstSwapDemo 0 0x301000 where
  file := by rw [swapinitFile_eq 0x200000 (swapBmapSize_le_maxfile (by decide))]; rfl
  empty := rfl
  held := rfl
  inUse := by decide
  others i hi := by
    show (if i = 0 then _ else _ : VmProc).state = _
    rw [if_neg hi]
  image :=
    { small := by decide
      alignP := by decide
      alignT := by decide
      PT := by decide
      pde := by decide
      pdeU := by decide
      table := by decide
      unswapped := fun x hx _ => by
        obtain ⟨hi, he⟩ := firstSwapDemo_page hx
        rw [he]
        exact (firstSwapDemo_flags _ hi).2.2.2.2
      frame := fun x hx _ _ => by
        obtain ⟨hi, he⟩ := firstSwapDemo_page hx
        rw [he, (firstSwapDemo_flags _ hi).1]
        show OwnFrame 0x200000 firstSwapDemo.mem 0x300000 0x301000 _
        unfold pgsize at *
        refine ⟨by omega, by omega, ?_, by omega, by omega, rfl⟩
        unfold phystop
        omega
      distinct := fun x y hx hy hxal hyal hxy _ _ => by
        obtain ⟨hi, he⟩ := firstSwapDemo_page hx
        obtain ⟨hj, he'⟩ := firstSwapDemo_page hy
        rw [he, he', (firstSwapDemo_flags _ hi).1, (firstSwapDemo_flags _ hj).1]
        unfold pgsize at *
        omega }
  swappable x hx _ := by
    obtain ⟨hi, he⟩ := firstSwapDemo_page hx
    rw [he]
    exact ⟨(firstSwapDemo_flags _ hi).2.1, (firstSwapDemo_flags _ hi).2.2.1, (firstSwapDemo_flags _ hi).2.2.2.1⟩

end Xv6
