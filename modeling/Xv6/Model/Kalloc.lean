import Xv6.Model.Param

/-!
# Physical frames (kalloc.c)

Physical memory, the free list `kmem.freelist` and the per-frame records of
`phys_page_data`: a reference count and the user address `la` a frame was last mapped
at.  A frame is named by its physical address; its kernel virtual address `P2V(pa)`,
which the C code passes around, is represented by the same number, so `V2P` and `P2V`
are identities of the model.

Memory is seen two ways, as the words of page directories and page tables and as the
bytes of user pages.  Every frame is used one way at a time and every allocation fills
the view it uses, so the two never have to agree; `memset` of a whole frame writes both.

A panic is an `Except` error carrying the message of its `panic` call.  `V2P(end)`, the
first frame after the kernel image, is fixed by the linker and is the parameter
`kernEnd`.
-/

set_option autoImplicit false

namespace Xv6

/-- Physical memory and the frame allocator. -/
structure Mem where
  /-- `phys_page_data.data[pa / PGSIZE].ref_count`, by frame number. -/
  ref : Nat → Int
  /-- `phys_page_data.data[pa / PGSIZE].la`, by frame number. -/
  la : Nat → Nat
  /-- `kmem.freelist`, from its head. -/
  freelist : List Nat
  /-- Memory as words, by physical address. -/
  word : Nat → Nat
  /-- Memory as bytes, by physical address. -/
  byte : Nat → UInt8

namespace Mem

/-- The reference count of the frame holding `pa`. -/
def getRef (m : Mem) (pa : Nat) : Int := m.ref (pa / pgsize)

/-- Set the reference count of the frame holding `pa`. -/
def setRef (m : Mem) (pa : Nat) (c : Int) : Mem :=
  { m with ref := Function.update m.ref (pa / pgsize) c }

/-- Set the user address recorded for the frame holding `pa`. -/
def setLa (m : Mem) (pa la : Nat) : Mem := { m with la := Function.update m.la (pa / pgsize) la }

/-- Write one word. -/
def setWord (m : Mem) (a w : Nat) : Mem := { m with word := Function.update m.word a w }

/-- `memset(P2V(pa), c, PGSIZE)` on a whole frame, in both views. -/
def memsetPage (m : Mem) (pa : Nat) (c : UInt8) : Mem :=
  { m with
    byte := fun a => if pa ≤ a ∧ a < pa + pgsize then c else m.byte a
    word := fun a => if pa ≤ a ∧ a < pa + pgsize then c.toNat * 0x01010101 else m.word a }

/-- `memmove(P2V(dst), P2V(src), PGSIZE)` between whole frames, in both views. -/
def memmovePage (m : Mem) (dst src : Nat) : Mem :=
  { m with
    byte := fun a => if dst ≤ a ∧ a < dst + pgsize then m.byte (src + (a - dst)) else m.byte a
    word := fun a => if dst ≤ a ∧ a < dst + pgsize then m.word (src + (a - dst)) else m.word a }

end Mem

/-- `inc_ref_pa(pa)` (kalloc.c:153-172): the new count. -/
def incRefPa (m : Mem) (pa : Nat) : Except String (Mem × Int) :=
  if pa > phystop then .error "inc_ref_pa: above PHYSTOP"
  else .ok (m.setRef pa (m.getRef pa + 1), m.getRef pa + 1)

/-- `get_ref_pa(pa)` (kalloc.c:175-189). -/
def getRefPa (m : Mem) (pa : Nat) : Except String Int :=
  if pa > phystop then .error "get_ref_pa: above PHYSTOP" else .ok (m.getRef pa)

/-- `dec_ref_pa(pa)` (kalloc.c:218-237): the new count; a count below zero panics. -/
def decRefPa (m : Mem) (pa : Nat) : Except String (Mem × Int) :=
  if pa > phystop then .error "dec_ref_pa: above PHYSTOP"
  else if m.getRef pa - 1 < 0 then .error "dec_ref_pa: decrementing no ref"
  else .ok (m.setRef pa (m.getRef pa - 1), m.getRef pa - 1)

section Alloc

variable (kernEnd : Nat)

/-- `kfree(v)` (kalloc.c:74-114) for the frame at `pa`.  The count is read three times:
the last reference fills the frame with junk, a non-zero count is decremented, and a
zero count pushes the frame on the free list. -/
def kfree (m : Mem) (pa : Nat) : Except String Mem := do
  if pa % pgsize ≠ 0 ∨ pa < kernEnd ∨ phystop ≤ pa then throw "kfree"
  let m := if m.getRef pa = 1 then m.memsetPage pa 1 else m
  let m ← if m.getRef pa ≠ 0 then (decRefPa m pa).map Prod.fst else pure m
  pure (if m.getRef pa = 0 then { m with freelist := pa :: m.freelist } else m)

/-- `kalloc()` (kalloc.c:119-145): the frame at the head of the free list, now with one
reference, or `none` for `NULL`. -/
def kalloc (m : Mem) : Except String (Mem × Option Nat) :=
  match m.freelist with
  | [] => .ok (m, none)
  | pa :: rest => do
      let (m, c) ← incRefPa { m with freelist := rest } pa
      if c ≠ 1 then throw "kalloc: inc_ref_pa"
      pure (m, some pa)

/-- `reset_and_free_pa_pd(pa)` (kalloc.c:207-211): forget the frame's user address, set
its count to one and free it. -/
def resetAndFreePaPd (m : Mem) (pa : Nat) : Except String Mem :=
  kfree kernEnd { m with
    la := Function.update m.la (pa / pgsize) 0, ref := Function.update m.ref (pa / pgsize) 1 } pa

end Alloc

end Xv6
