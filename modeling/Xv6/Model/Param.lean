import Mathlib

/-!
# Constants and address arithmetic

The constants of `param.h`, `memlayout.h` and `mmu.h` that the modelled code reads,
and the `mmu.h` macros on addresses and page-table entries.  A C `uint` is a natural
number below `uintMod`; every `uint` operation that can wrap is reduced modulo
`uintMod` where the model performs it.  Page-table entries are `uint` words and
their flags are single bits, tested with `Nat.testBit`.
-/

set_option autoImplicit false

namespace Xv6

/-- The number of values of a 32-bit `uint`.  Irreducible: definitional unfolding of a
sum with this literal would recurse through all `2^32` successors. -/
@[irreducible] def uintMod : Nat := 2 ^ 32

/-- INTERNAL: the value of `uintMod`. -/
theorem uintMod_eq : uintMod = 2 ^ 32 := by
  unfold uintMod
  rfl

/-- A C `int` converted to `uint`: its value modulo `2^32`. -/
def toUint (x : Int) : Nat := (x % (uintMod : Int)).toNat

/-- A `uint` below `uintMod` converted to a C `int`: two's complement. -/
def toInt (x : Nat) : Int := if x < uintMod / 2 then x else (x : Int) - uintMod

/-- `NPROC` (param.h:1). -/
def nproc : Nat := 64

/-- `NOFILE` (param.h:4). -/
def nofile : Nat := 16

/-- `MAXOPBLOCKS` (param.h:10). -/
def maxOpBlocks : Nat := 10

/-- `LOGSIZE` (param.h:11). -/
def logSize : Nat := maxOpBlocks * 3

/-- `NBUF` (param.h:12). -/
def nbuf : Nat := maxOpBlocks * 3

/-- `EXTMEM` (memlayout.h:3): the start of extended memory. -/
def extmem : Nat := 0x100000

/-- `PHYSTOP` (memlayout.h:4). -/
def phystop : Nat := 0xE000000

/-- `DEVSPACE` (memlayout.h:5): the devices at high addresses. -/
def devspace : Nat := 0xFE000000

/-- `KERNBASE` (memlayout.h:8). -/
def kernbase : Nat := 0x80000000

/-- `KERNLINK` (memlayout.h:9): the address the kernel is linked at. -/
def kernlink : Nat := kernbase + extmem

/-- `PGSIZE` (mmu.h). -/
def pgsize : Nat := 4096

/-- `NPDENTRIES` (mmu.h). -/
def npdentries : Nat := 1024

/-- `PGROUNDUP(sz)` on a `uint`: `(sz + PGSIZE - 1) & ~(PGSIZE - 1)`, wrapping. -/
def pgroundup (sz : Nat) : Nat := (sz + pgsize - 1) % uintMod / pgsize * pgsize

/-- `PGROUNDDOWN(a)`: `a & ~(PGSIZE - 1)`. -/
def pgrounddown (a : Nat) : Nat := a / pgsize * pgsize

/-- `PDX(va)`: the page-directory index, bits 22..31. -/
def pdx (va : Nat) : Nat := va / 2 ^ 22 % 1024

/-- `PTX(va)`: the page-table index, bits 12..21. -/
def ptx (va : Nat) : Nat := va / 2 ^ 12 % 1024

/-- `PGADDR(d, t, o)`. -/
def pgaddr (d t o : Nat) : Nat := (d * 2 ^ 22 + t * 2 ^ 12 + o) % uintMod

/-- `V2P(a)`: a kernel virtual address to a physical one, as `uint` arithmetic. -/
def v2p (a : Nat) : Nat := (a + uintMod - kernbase) % uintMod

/-- `P2V(a)`: a physical address to a kernel virtual one, as `uint` arithmetic. -/
def p2v (a : Nat) : Nat := (a + kernbase) % uintMod

/-- `PTE_P` (mmu.h): present. -/
def pteP : Nat := 0x001
/-- `PTE_W` (mmu.h): writeable. -/
def pteW : Nat := 0x002
/-- `PTE_U` (mmu.h): user. -/
def pteU : Nat := 0x004
/-- `PTE_A` (mmu.h): accessed. -/
def pteA : Nat := 0x020
/-- `PTE_C` (mmu.h): copy-on-write, added by this kernel. -/
def pteC : Nat := 0x200
/-- `PTE_S` (mmu.h): swapped out, added by this kernel. -/
def pteS : Nat := 0x400

/-- `PTE_ADDR(pte)`: the frame address, the flags cleared. -/
def pteAddr (pte : Nat) : Nat := pte / 4096 * 4096

/-- `PTE_FLAGS(pte)`: the low twelve bits. -/
def pteFlags (pte : Nat) : Nat := pte % 4096

/-- `pte & flag` is non-zero, for a one-bit `flag`. -/
def hasFlag (pte flag : Nat) : Bool := pte &&& flag != 0

/-- `pte | flag`. -/
def setFlag (pte flag : Nat) : Nat := pte ||| flag

/-- `pte & ~flag`, for a one-bit `flag` of a 32-bit word. -/
def clearFlag (pte flag : Nat) : Nat := pte &&& (uintMod - 1 - flag)

end Xv6
