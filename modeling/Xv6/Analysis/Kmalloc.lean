import Xv6.Model.Kmalloc
import Xv6.Analysis.Pgdir
import Xv6.Lib.Run

/-!
# `kmalloc` of a huge request returns a header and nothing after it

`kmalloc` counts its units in `uint`: `(nbytes + sizeof(Header) - 1) / sizeof(Header) + 1`
wraps for the last seven values of `nbytes`, where `nbytes + 7` passes `2^32`, and the
count is then `1`, the header alone (`kmalloc_nunits_of_wrap`).  `morecore(1)` takes a
frame; the frame is split and its last unit, the header at `g + 4088`, is the block
handed out: `kmalloc` returns `g + 4096`, the first byte past the frame, for a request of
four gigabytes less a few bytes (`kmalloc_wrapped_request_returns_header_only`).

On the way: a frame freed into the list of the one empty block `base`
(`kmallocfree_into_base`), `morecore` on that list (`morecore_into_base`), and the
passes of `kmalloc`'s loop that grow the list or cut a block (`kmallocLoop_grow`,
`kmallocLoop_split`).
-/

set_option autoImplicit false

namespace Xv6

/-! ## Headers -/

namespace Mem

variable (m : Mem)

@[simp] theorem hdrPtr_setHdrPtr (p q r : Nat) :
    (m.setHdrPtr p q).hdrPtr r = if r = p then q else m.hdrPtr r := by
  simp [hdrPtr, setHdrPtr]

@[simp] theorem hdrUnits_setHdrPtr (p q r : Nat) :
    (m.setHdrPtr p q).hdrUnits r = if r + 4 = p then q else m.hdrUnits r := by
  simp [hdrUnits, setHdrPtr]

@[simp] theorem hdrPtr_setHdrUnits (p n r : Nat) :
    (m.setHdrUnits p n).hdrPtr r = if r = p + 4 then n else m.hdrPtr r := by
  simp [hdrPtr, setHdrUnits]

@[simp] theorem hdrUnits_setHdrUnits (p n r : Nat) :
    (m.setHdrUnits p n).hdrUnits r = if r = p then n else m.hdrUnits r := by
  simp [hdrUnits, setHdrUnits]

@[simp] theorem setHdrPtr_freelist (p q : Nat) : (m.setHdrPtr p q).freelist = m.freelist := rfl

@[simp] theorem setHdrUnits_freelist (p n : Nat) : (m.setHdrUnits p n).freelist = m.freelist := rfl

@[simp] theorem setHdrPtr_ref (p q : Nat) : (m.setHdrPtr p q).ref = m.ref := rfl

@[simp] theorem setHdrUnits_ref (p n : Nat) : (m.setHdrUnits p n).ref = m.ref := rfl

@[simp] theorem hdrPtr_setRef (pa : Nat) (c : Int) (r : Nat) : (m.setRef pa c).hdrPtr r = m.hdrPtr r :=
  rfl

@[simp] theorem hdrUnits_setRef (pa : Nat) (c : Int) (r : Nat) :
    (m.setRef pa c).hdrUnits r = m.hdrUnits r := rfl

end Mem

/-! ## The unit count -/

/-- `kmalloc`'s unit count is `1`, the header alone, when `nbytes + 7` wraps. -/
theorem kmalloc_nunits_of_wrap {nbytes : Nat} (hlo : uintMod ≤ nbytes + 7) (hhi : nbytes < uintMod) :
    (nbytes + hdrSize - 1) % uintMod / hdrSize + 1 = 1 := by
  rw [uintMod_eq] at *
  unfold hdrSize
  omega

/-! ## Freeing into the list of `base` alone -/

/-- INTERNAL: the search stops at a block that ends the list, when `bp` lies past it or
before its successor. -/
theorem freeSearch_at_wrap (m : Mem) {bp p : Nat} (hw : p ≥ m.hdrPtr p)
    (hb : bp > p ∨ bp < m.hdrPtr p) (fuel : Nat) : freeSearch m bp (fuel + 1) p = .ok p := by
  rw [freeSearch]
  by_cases hbetween : bp > p ∧ bp < m.hdrPtr p
  · rw [if_pos hbetween]
    rfl
  · rw [if_neg hbetween, if_pos ⟨hw, hb⟩]
    rfl

/-- INTERNAL: a block that does not end where `p`'s successor starts is linked to it. -/
theorem joinNext_link (m : Mem) {bp p : Nat} (h : hdrAdd bp (m.hdrUnits bp) ≠ m.hdrPtr p) :
    joinNext m bp p = m.setHdrPtr bp (m.hdrPtr p) := by
  rw [joinNext, if_neg h]

/-- INTERNAL: a block `p` that does not end where `bp` starts is linked to it. -/
theorem joinPrev_link (m : Mem) {p bp : Nat} (h : hdrAdd p (m.hdrUnits p) ≠ bp) :
    joinPrev m p bp = m.setHdrPtr p bp := by
  rw [joinPrev, if_neg h]

/-- `kmallocfree` of a block above `base` into the list of `base` alone: the two headers
point at each other and `freep` stays at `base`, unless `base` ends where the block
starts. -/
theorem kmallocfree_into_base (h : KHeap) {bp : Nat} (hself : h.mem.hdrPtr h.freep = h.freep)
    (habove : h.freep + hdrSize ≤ bp) (hgap : hdrAdd h.freep (h.mem.hdrUnits h.freep) ≠ bp) :
    kmallocfree h (hdrAdd bp 1) =
      .ok { mem := (h.mem.setHdrPtr bp h.freep).setHdrPtr h.freep bp, freep := h.freep } := by
  have hbp : hdrAdd bp 1 - hdrSize = bp := by
    unfold hdrAdd
    omega
  have hsearch : freeSearch h.mem bp listFuel h.freep = .ok h.freep :=
    freeSearch_at_wrap h.mem (by omega) (Or.inl (by unfold hdrSize at habove; omega)) _
  -- the block ends above its own start, so never at `base`
  have hnext : hdrAdd bp (h.mem.hdrUnits bp) ≠ h.mem.hdrPtr h.freep := by
    rw [hself]
    unfold hdrAdd hdrSize at *
    omega
  -- linking `bp` leaves the size word of `base` as it was
  have hprev : hdrAdd h.freep ((h.mem.setHdrPtr bp (h.mem.hdrPtr h.freep)).hdrUnits h.freep) ≠ bp := by
    rw [Mem.hdrUnits_setHdrPtr, if_neg (by unfold hdrSize at habove; omega)]
    exact hgap
  rw [kmallocfree]
  rw [hbp, hsearch, Run.ok_bind, joinNext_link h.mem hnext, joinPrev_link _ hprev, hself]
  rfl

/-- `morecore` on the list of `base` alone, when `kalloc` gives a frame `g` above `base`:
the frame becomes one free block of a page after `base`, and `freep` is `base`. -/
theorem morecore_into_base (h : KHeap) {nu g : Nat} {rest : List Nat} (hnu : nu * hdrSize % uintMod < pgsize)
    (hfl : h.mem.freelist = g :: rest) (href : h.mem.getRef g = 0) (hg : g ≤ phystop)
    (hself : h.mem.hdrPtr h.freep = h.freep) (habove : h.freep + hdrSize ≤ g)
    (hgap : hdrAdd h.freep (h.mem.hdrUnits h.freep) ≠ g) :
    morecore h nu = .ok ({ mem := (((({ h.mem with freelist := rest } : Mem).setRef g 1).setHdrUnits g
      (pgsize / hdrSize)).setHdrPtr g h.freep).setHdrPtr h.freep g, freep := h.freep }, h.freep) := by
  set m₁ : Mem := (({ h.mem with freelist := rest } : Mem).setRef g 1).setHdrUnits g (pgsize / hdrSize)
  -- writing the frame's size word leaves both words of `base` alone
  have hne : h.freep ≠ g + 4 := by
    unfold hdrSize at habove
    omega
  have hself₁ : m₁.hdrPtr h.freep = h.freep := by
    simp only [m₁, Mem.hdrPtr_setHdrUnits, if_neg hne, Mem.hdrPtr_setRef]
    exact hself
  have hgap₁ : hdrAdd h.freep (m₁.hdrUnits h.freep) ≠ g := by
    simp only [m₁, Mem.hdrUnits_setHdrUnits, if_neg (show h.freep ≠ g by unfold hdrSize at habove; omega), Mem.hdrUnits_setRef]
    exact hgap
  have hfree := kmallocfree_into_base { h with mem := m₁ } hself₁ habove hgap₁
  rw [morecore, if_pos hnu]
  dsimp only
  rw [kalloc_cons hfl hg href, Run.ok_bind]
  dsimp only
  rw [hfree, Run.ok_bind]
  rfl

/-! ## Passes of `kmalloc`'s loop -/

section Loop

variable {nunits fuel : Nat} {h : KHeap} {prevp p : Nat}

/-- A block larger than the request gives up its tail: its size drops by `nunits`, the
tail's header records `nunits`, and the pointer after that header is returned. -/
theorem kmallocLoop_split (hlt : nunits < h.mem.hdrUnits p) :
    kmallocLoop nunits (fuel + 1) h prevp p =
      .ok (⟨(h.mem.setHdrUnits p (h.mem.hdrUnits p - nunits)).setHdrUnits
          (hdrAdd p (h.mem.hdrUnits p - nunits)) nunits, prevp⟩,
        hdrAdd (hdrAdd p (h.mem.hdrUnits p - nunits)) 1) := by
  rw [kmallocLoop, if_pos (Nat.le_of_lt hlt), if_neg (Nat.ne_of_gt hlt)]
  simp only [Mem.hdrUnits_setHdrUnits, if_true]
  rfl

/-- At `freep` with a block too small, `morecore` grows the list and the loop goes on
from the `freep` it returns. -/
theorem kmallocLoop_grow (hlt : h.mem.hdrUnits p < nunits) (hp : p = h.freep)
    {h' : KHeap} {p' : Nat} (hmore : morecore h nunits = .ok (h', p')) (hp' : p' ≠ 0) :
    kmallocLoop nunits (fuel + 1) h prevp p = kmallocLoop nunits fuel h' p' (h'.mem.hdrPtr p') := by
  rw [kmallocLoop, if_neg (Nat.not_le_of_lt hlt), if_pos hp]
  simp only [hmore, Run.ok_bind, if_neg hp']

end Loop

/-! ## The wrapped request -/

/-- **`kmalloc` of a wrapped request returns the end of a frame.**  On the first call,
with `freep` still `NULL`, `base` below the frame `g` at the head of `kalloc`'s list,
`kmalloc(nbytes)` for each of the last seven `uint`s, where `nbytes + 7` wraps, counts
one unit, grows the list by `g` and cuts the block's last unit off: it returns
`g + PGSIZE`, the first byte past the frame, behind a header that records one unit and
no room at all for the `nbytes` bytes asked for. -/
theorem kmalloc_wrapped_request_returns_header_only (baseAddr : Nat) (h : KHeap) {nbytes g : Nat}
    {rest : List Nat} (hlo : uintMod ≤ nbytes + 7) (hhi : nbytes < uintMod) (hfresh : h.freep = 0)
    (hbase : 0 < baseAddr) (hbg : baseAddr + hdrSize ≤ g)
    (hfl : h.mem.freelist = g :: rest) (href : h.mem.getRef g = 0) (hg : g ≤ phystop) :
    ∃ h', kmalloc baseAddr h nbytes = .ok (h', g + pgsize) ∧
      h'.mem.hdrUnits (g + pgsize - hdrSize) = 1 ∧ h'.mem.freelist = rest := by
  -- `base`, made a list of one empty block by the first call
  set h₀ : KHeap := ⟨(h.mem.setHdrPtr baseAddr baseAddr).setHdrUnits baseAddr 0, baseAddr⟩
  have hinit : (if h.freep = 0 then h₀ else h) = h₀ := if_pos hfresh
  have hself : h₀.mem.hdrPtr h₀.freep = h₀.freep := by simp [h₀]
  have hunits : h₀.mem.hdrUnits h₀.freep = 0 := by simp [h₀]
  have hgap : hdrAdd h₀.freep (h₀.mem.hdrUnits h₀.freep) ≠ g := by
    rw [hunits, show h₀.freep = baseAddr from rfl]
    unfold hdrAdd hdrSize at *
    omega
  have hmore := morecore_into_base h₀ (show 1 * hdrSize % uintMod < pgsize by
      rw [uintMod_eq]; decide)
    (show h₀.mem.freelist = g :: rest from hfl) (show h₀.mem.getRef g = 0 from href) hg hself hbg hgap
  set h₁ : KHeap := ⟨(((({ h₀.mem with freelist := rest } : Mem).setRef g 1).setHdrUnits g
      (pgsize / hdrSize)).setHdrPtr g h₀.freep).setHdrPtr h₀.freep g, h₀.freep⟩
  -- after `morecore` the successor of `base` is the frame, a block of a whole page
  have hnext₁ : h₁.mem.hdrPtr h₁.freep = g := by simp [h₁]
  have hpage : h₁.mem.hdrUnits g = pgsize / hdrSize := by
    have hne₁ : g + 4 ≠ baseAddr := by omega
    simp [h₁, h₀, hne₁]
  have hfuel : listFuel = (listFuel - 2) + 1 + 1 := by
    unfold listFuel phystop hdrSize
    omega
  have hsplit := @kmallocLoop_split 1 (listFuel - 2) h₁ h₁.freep g
    (by rw [hpage]; unfold pgsize hdrSize; omega)
  -- the tail unit's header sits at the frame's last eight bytes
  have htail : hdrAdd g (h₁.mem.hdrUnits g - 1) = g + pgsize - hdrSize := by
    rw [hpage]
    unfold hdrAdd pgsize hdrSize
    omega
  have hret : hdrAdd (hdrAdd g (h₁.mem.hdrUnits g - 1)) 1 = g + pgsize := by
    rw [htail]
    unfold hdrAdd pgsize hdrSize
    omega
  refine ⟨⟨(h₁.mem.setHdrUnits g (h₁.mem.hdrUnits g - 1)).setHdrUnits
      (hdrAdd g (h₁.mem.hdrUnits g - 1)) 1, h₁.freep⟩, ?_, ?_, ?_⟩
  · rw [kmalloc, kmalloc_nunits_of_wrap hlo hhi]
    rw [hinit, hself, hfuel, kmallocLoop_grow (by rw [hunits]; omega) rfl hmore
      (show baseAddr ≠ 0 by omega), hnext₁, hsplit, hret]
  · simp only [Mem.hdrUnits_setHdrUnits, htail, if_true]
  · simp [h₁]

/-- The allocator before its first call, with one free frame, `0x12000`, and nothing
else in memory. -/
def kheapDemo : KHeap := ⟨⟨fun _ => 0, fun _ => 0, [0x12000], fun _ => 0, fun _ => 0⟩, 0⟩

/-- `kmalloc(0xffffffff)` with `base` at `0x1000` returns `0x13000`, the end of the frame. -/
theorem kmalloc_max_uint_returns_frame_end :
    kheapDemo.freep = 0 ∧ kheapDemo.mem.freelist = [0x12000] ∧
      ∃ h', kmalloc 0x1000 kheapDemo 0xFFFFFFFF = .ok (h', 0x12000 + pgsize) ∧
        h'.mem.hdrUnits (0x12000 + pgsize - hdrSize) = 1 ∧ h'.mem.freelist = [] :=
  ⟨rfl, rfl, kmalloc_wrapped_request_returns_header_only 0x1000 kheapDemo
    (by rw [uintMod_eq]; decide) (by rw [uintMod_eq]; decide) rfl (by decide) (by decide) rfl rfl
    (by decide)⟩

end Xv6
