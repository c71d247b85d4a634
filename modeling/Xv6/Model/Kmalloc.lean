import Xv6.Model.Kalloc

/-!
# The kernel's K&R allocator (kalloc.c:249-333)

`kmalloc` hands out pieces of frames from `kalloc` through the free list of
Kernighan and Ritchie: a circular list of blocks, each starting with a `Header` of a
pointer to the next free block and the block's size in header units, through the
static empty block `base`.  `kmallocfree` puts a block back in address order and joins
it to its neighbours; `morecore` frees a fresh frame into the list.

A header is two words of `Mem.word`: `s.ptr` at its address and `s.size` four bytes on.
The static `base` is the header at `baseAddr`, in the kernel's data below `V2P(end)`;
`freep` is `0` for `NULL`.  Kernel addresses are the physical ones, as in `kalloc`.
`uint` arithmetic (the unit count, `nu * sizeof(Header)`, the sums of sizes) is taken
modulo `2^32`; pointer arithmetic stays below `PHYSTOP` and is not wrapped.

The C loops run until they return, over a free list they expect to be circular; here
they get `listFuel` passes, more than a list of headers below `PHYSTOP` has blocks, and
an error when those run out.
-/

set_option autoImplicit false

namespace Xv6

/-- `sizeof(Header)` (kalloc.c:252-262): a pointer and a `uint`, aligned as a `long`. -/
def hdrSize : Nat := 8

/-- More passes than a free list of headers below `PHYSTOP` has blocks. -/
def listFuel : Nat := phystop / hdrSize + 1

/-- `p + n` for a `Header *p`. -/
def hdrAdd (p n : Nat) : Nat := p + n * hdrSize

namespace Mem

/-- `p->s.ptr`. -/
def hdrPtr (m : Mem) (p : Nat) : Nat := m.word p

/-- `p->s.size`, in header units. -/
def hdrUnits (m : Mem) (p : Nat) : Nat := m.word (p + 4)

/-- `p->s.ptr = q`. -/
def setHdrPtr (m : Mem) (p q : Nat) : Mem := m.setWord p q

/-- `p->s.size = n`. -/
def setHdrUnits (m : Mem) (p n : Nat) : Mem := m.setWord (p + 4) n

end Mem

/-- The allocator's memory and its static `freep`, `0` for `NULL`. -/
structure KHeap where
  mem : Mem
  freep : Nat

/-- The search of `kmallocfree` (kalloc.c:272-274) from `p` for the free block after which
the block `bp` goes: one with `bp` between it and its successor, or the last block before
the list wraps with `bp` beyond either end. -/
def freeSearch (m : Mem) (bp : Nat) : Nat → Nat → Except String Nat
  | 0, _ => throw "kmallocfree: free list not circular"
  | fuel + 1, p =>
      if bp > p ∧ bp < m.hdrPtr p then pure p
      else if p ≥ m.hdrPtr p ∧ (bp > p ∨ bp < m.hdrPtr p) then pure p
      else freeSearch m bp fuel (m.hdrPtr p)

/-- The first half of the insertion (kalloc.c:275-279): the block `bp` takes in the
successor of `p` when it ends where that block starts, and links to it otherwise. -/
def joinNext (m : Mem) (bp p : Nat) : Mem :=
  if hdrAdd bp (m.hdrUnits bp) = m.hdrPtr p then
    let m₁ := m.setHdrUnits bp ((m.hdrUnits bp + m.hdrUnits (m.hdrPtr p)) % uintMod)
    m₁.setHdrPtr bp (m₁.hdrPtr (m₁.hdrPtr p))
  else m.setHdrPtr bp (m.hdrPtr p)

/-- The second half (kalloc.c:280-284): `p` takes in the block `bp` when it ends where
`bp` starts, and links to it otherwise. -/
def joinPrev (m : Mem) (p bp : Nat) : Mem :=
  if hdrAdd p (m.hdrUnits p) = bp then
    let m₁ := m.setHdrUnits p ((m.hdrUnits p + m.hdrUnits bp) % uintMod)
    m₁.setHdrPtr p (m₁.hdrPtr bp)
  else m.setHdrPtr p bp

/-- `kmallocfree(ap)` (kalloc.c:267-286): the block whose header is just before `ap` goes
back in the list, and `freep` is the block found before it. -/
def kmallocfree (h : KHeap) (ap : Nat) : Except String KHeap := do
  let bp := ap - hdrSize
  let p ← freeSearch h.mem bp listFuel h.freep
  pure { mem := joinPrev (joinNext h.mem bp p) p bp, freep := p }

/-- `morecore(nu)` (kalloc.c:288-305): a frame from `kalloc` made one block of a page and
freed into the list, and the new `freep`; `0` for `NULL` when `nu` units are a page or
more or no frame is left. -/
def morecore (h : KHeap) (nu : Nat) : Except String (KHeap × Nat) := do
  if nu * hdrSize % uintMod < pgsize then
    let nu := pgsize / hdrSize
    let (mem, p) ← kalloc h.mem
    match p with
    | none => pure ({ h with mem := mem }, 0)
    | some p =>
        let h ← kmallocfree { h with mem := mem.setHdrUnits p nu } (hdrAdd p 1)
        pure (h, h.freep)
  else pure (h, 0)

/-- The loop of `kmalloc` (kalloc.c:318-332) at `prevp` and its successor `p`, with
`fuel` passes: the heap after it and the pointer returned, `0` for `NULL`. -/
def kmallocLoop (nunits : Nat) : Nat → KHeap → Nat → Nat → Except String (KHeap × Nat)
  | 0, _, _, _ => throw "kmalloc: free list not circular"
  | fuel + 1, h, prevp, p =>
      let m := h.mem
      if m.hdrUnits p ≥ nunits then
        if m.hdrUnits p = nunits then
          pure ({ mem := m.setHdrPtr prevp (m.hdrPtr p), freep := prevp }, hdrAdd p 1)
        else
          -- a larger block gives up its tail
          let m := m.setHdrUnits p (m.hdrUnits p - nunits)
          let p := hdrAdd p (m.hdrUnits p)
          pure ({ mem := m.setHdrUnits p nunits, freep := prevp }, hdrAdd p 1)
      else if p = h.freep then do
        -- around the list without a fit: grow it and go on from the new `freep`
        let (h, p) ← morecore h nunits
        if p = 0 then pure (h, 0)
        else kmallocLoop nunits fuel h p (h.mem.hdrPtr p)
      else kmallocLoop nunits fuel h p (m.hdrPtr p)

/-- `kmalloc(nbytes)` (kalloc.c:307-333) for a `uint` `nbytes`, with `base` at
`baseAddr`: the heap after it and the pointer returned, `0` for `NULL`. -/
def kmalloc (baseAddr : Nat) (h : KHeap) (nbytes : Nat) : Except String (KHeap × Nat) :=
  let nunits := (nbytes + hdrSize - 1) % uintMod / hdrSize + 1
  -- the first call makes `base` a list of one empty block
  let h : KHeap := if h.freep = 0 then
      { mem := (h.mem.setHdrPtr baseAddr baseAddr).setHdrUnits baseAddr 0, freep := baseAddr }
    else h
  kmallocLoop nunits listFuel h h.freep (h.mem.hdrPtr h.freep)

end Xv6
