import Xv6.Model.Kalloc
import Xv6.Model.Proc
import Xv6.Model.SwapFile
import Xv6.Model.SwapMap

/-!
# Virtual memory: page tables, lazy allocation, copy-on-write and swapping (vm.c, fs.c)

The page directories and page tables of the processes, as words of `Mem`: the entry
of `va` in the page directory at `pgdir` is the word at `pgdir + 4 * PDX(va)`, and the
entry in the page table it points to is at `PTE_ADDR(pde) + 4 * PTX(va)`.  A pointer
`pte_t *` is such an address.  On top of them are the functions of vm.c that build,
grow, shrink, copy and free a user address space, the page-fault handler with its three
strategies (swap-in, copy-on-write, lazy allocation), `swap()`, and the swap-map
functions of fs.c it calls, `swapwrite_file`, `swapread_file` and `swapfree_file`.

What is left out:

* The addresses of the kernel's sections: `setupkvm` reads the one `kmap` needs,
  `V2P(data)`, as the parameter `kernData`, as `kfree` reads `V2P(end)` as `kernEnd`.
* The kmalloc arenas of the swap map, and `cprintf`.
* Of the spinlocks, only `ptable.lock` and `swapMap.lock`, the two that the swap code
  releases or takes on behalf of its callers; the others (`kmem`, `phys_page_data`,
  `cons`) are taken and released within one call.  The set this CPU holds is explicit,
  and `acquire` and `release` panic as spinlock.c does.
* The one undefined path: `swapwrite_file` of a frame whose count is not 1 iterates
  over the PTEs with `pa_pte_iterator`, which never finds one (it compares
  `V2P(PTE_ADDR(*pte))` with a physical address) and then writes through `NULL`.  The
  model stops there with the error `swapwrite_file: NULL pte`.

A panic is an `Except` error carrying its message.  Loops run on explicit fuel, enough
for every call the callers make.
-/

set_option autoImplicit false

namespace Xv6

open Window

/-! ## Page tables (vm.c:54-110) -/

/-- `walkpgdir(pgdir, va, alloc)` (vm.c:54-75): the address of the PTE of `va`, or
`none` for `NULL`.  With `alloc`, a missing page table is allocated and zeroed. -/
def walkpgdir (m : Mem) (pgdir va : Nat) (alloc : Bool) : Except String (Mem × Option Nat) := do
  let pde := pgdir + 4 * pdx va
  if hasFlag (m.word pde) pteP then pure (m, some (pteAddr (m.word pde) + 4 * ptx va))
  else if alloc = false then pure (m, none)
  else
    let (m, pgtab) ← kalloc m
    match pgtab with
    | none => pure (m, none)
    | some pgtab =>
        pure ((m.memsetPage pgtab 0).setWord pde (pgtab ||| pteP ||| pteW ||| pteU),
          some (pgtab + 4 * ptx va))

/-- `mappage(la, pte, pa, perm)` (vm.c:78-88).  An entry that is present, not
copy-on-write and not swapped is a `remap`; the frame records the user address. -/
def mappage (m : Mem) (la pte pa perm : Nat) : Except String Mem := do
  let w := m.word pte
  if hasFlag w pteP && !hasFlag w pteC && !hasFlag w pteS then throw "remap"
  let m := m.setWord pte (pa ||| perm ||| pteP)
  if la < kernbase then
    if pa > phystop then throw "get_ref_pa: above PHYSTOP"
    pure (m.setLa pa la)
  else pure m

/-- The loop of `mappages` (vm.c:98-108) from page `a`, mapped to `pa`, up to page
`last`, with `fuel` pages left: `-1` when a page table cannot be allocated. -/
def mappagesLoop (pgdir last perm : Nat) : Nat → Mem → Nat → Nat → Except String (Mem × Int)
  | 0, m, _, _ => pure (m, 0)
  | fuel + 1, m, a, pa => do
      let (m, pte) ← walkpgdir m pgdir a true
      match pte with
      | none => pure (m, -1)
      | some pte =>
          let m ← mappage m a pte pa perm
          if a = last then pure (m, 0)
          else mappagesLoop pgdir last perm fuel m ((a + pgsize) % uintMod) ((pa + pgsize) % uintMod)

/-- `mappages(pgdir, va, size, pa, perm)` (vm.c:92-110).  No caller passes `size = 0`,
so `va + size - 1` is the `uint` sum. -/
def mappages (m : Mem) (pgdir va size pa perm : Nat) : Except String (Mem × Int) :=
  let a := pgrounddown va
  let last := pgrounddown ((va + size - 1) % uintMod)
  mappagesLoop pgdir last perm ((last - a) / pgsize + 1) m a pa

/-- `struct kmap` (vm.c:134-139): the physical range `[phys_start, phys_end)` mapped at
`virt` with the permission `perm`. -/
structure Kmap where
  virt : Nat
  physStart : Nat
  physEnd : Nat
  perm : Nat

/-- `kmap[]` (vm.c:139-144), the kernel half of every page directory, where `kernData` is
`V2P(data)`: I/O space, the kernel's text and read-only data, its data and the rest of
physical memory, and the devices up to the top of the address space. -/
def kmap (kernData : Nat) : List Kmap :=
  [⟨kernbase, 0, extmem, pteW⟩,
   ⟨kernlink, v2p kernlink, kernData, 0⟩,
   ⟨p2v kernData, kernData, phystop, pteW⟩,
   ⟨devspace, devspace, 0, pteW⟩]

/-- The loop of `setupkvm` over `kmap` (vm.c:157-163): `false` as soon as one `mappages`
fails.  The size `k->phys_end - k->phys_start` is a `uint` difference. -/
def setupkvmLoop (pgdir : Nat) : List Kmap → Mem → Except String (Mem × Bool)
  | [], m => pure (m, true)
  | k :: ks, m => do
      let (m, r) ← mappages m pgdir k.virt ((k.physEnd + uintMod - k.physStart) % uintMod)
        k.physStart k.perm
      if r < 0 then pure (m, false) else setupkvmLoop pgdir ks m

/-- `clearpteu(pgdir, uva)` (vm.c:341-350): clear `PTE_U` of the page of `uva`, the
stack guard page of `exec`. -/
def clearpteu (m : Mem) (pgdir uva : Nat) : Except String Mem := do
  let (m, pte) ← walkpgdir m pgdir uva false
  match pte with
  | none => throw "clearpteu"
  | some pte => pure (m.setWord pte (clearFlag (m.word pte) pteU))

/-! ## Spinlocks (spinlock.c:25-60) -/

/-- The spinlocks whose holding the swap code changes. -/
inductive Spinlock where
  | ptable
  | swapMap
  deriving DecidableEq, Repr

/-- `acquire(lk)`: a lock this CPU holds already is a panic. -/
def acquire (held : List Spinlock) (lk : Spinlock) : Except String (List Spinlock) :=
  if lk ∈ held then throw "acquire" else pure (lk :: held)

/-- `release(lk)`: a lock this CPU does not hold is a panic. -/
def release (held : List Spinlock) (lk : Spinlock) : Except String (List Spinlock) :=
  if lk ∈ held then pure (held.erase lk) else throw "release"

/-! ## The state -/

/-- `struct proc` (proc.h:37-51), the fields the memory code reads and writes. -/
structure VmProc where
  state : ProcState
  /-- `pgdir`, the address of the page directory. -/
  pgdir : Nat
  sz : Nat
  killed : Bool

/-- Physical memory with the frame allocator, the processes, the swap file, the swap
map and the spinlocks this CPU holds. -/
structure Vm where
  mem : Mem
  proc : Fin nproc → VmProc
  swapfile : SwapFile
  swapMap : SwapMap
  held : List Spinlock

section Vm

variable (kernEnd : Nat)

/-! ## The swap map and the swap file (fs.c:899-1170) -/

/-- `swapwrite_file(buf, la, buf_pte)` (fs.c:899-961) for the frame at `pa`, mapped at
the user address `la` through the PTE at `pte`: the page goes to a free page of the
swap file, the map records it, the PTE is marked swapped and not present, and the frame
is freed. -/
def swapwriteFile (s : Vm) (pa la pte : Nat) : Except String Vm := do
  let (f, pageNo) ← swapfileGetFreePage s.swapfile
  let f := swapfileWritePage f (fun a => s.mem.byte (pa + a)) pageNo
  let key : SwapUniqueKey := ⟨la, pa⟩
  let held ← acquire s.held .swapMap
  if pa > phystop then throw "get_ref_pa: above PHYSTOP"
  if s.mem.getRef pa ≠ 1 then throw "swapwrite_file: NULL pte"
  -- `LinkedListAdd(bin, &key, NULL)` appends the node; its page number and, for a
  -- frame of count 1, its one PTE are filled in after
  let swapMap := s.swapMap.add (swapMapHash kernEnd key) ⟨key, pageNo, [pte]⟩
  let mem := s.mem.setWord pte (clearFlag (setFlag (s.mem.word pte) pteS) pteP)
  let held ← release held .swapMap
  let mem ← resetAndFreePaPd kernEnd mem pa
  pure { s with mem := mem, swapfile := f, swapMap := swapMap, held := held }

/-- The inner loop of `swapread_file` (fs.c:1049-1062): each PTE of the node, its
`PTE_S` cleared, maps the new frame `new` with its old flags. -/
def remapPtes (la new : Nat) : List Nat → Mem → Except String Mem
  | [], m => pure m
  | p :: ps, m => do
      let m := m.setWord p (clearFlag (m.word p) pteS)
      let m ← mappage m la p new (pteFlags (m.word p))
      remapPtes la new ps m

/-- `swapread_file(la, buf_pte)` (fs.c:1008-1091): find the node of the swapped page
mapped by `pte` at `la`, map a new frame in every PTE of the node, read the page into
it and free the page of the swap file. -/
def swapreadFile (s : Vm) (la pte : Nat) : Except String Vm := do
  let key : SwapUniqueKey := ⟨la, pteAddr (s.mem.word pte)⟩
  let b := swapMapHash kernEnd key
  let held ← acquire s.held .swapMap
  if !SwapMap.hasKey (s.swapMap b) key then throw "swapread_file: swapmap: key not found\n"
  let (mem, new) ← kalloc s.mem
  -- a `NULL` from `kalloc` makes `get_pd(V2P(NULL))` look up 0x80000000, above PHYSTOP
  match new with
  | none => throw "get_ref_pa: above PHYSTOP"
  | some new =>
      match SwapMap.findPte (s.swapMap b) key pte with
      | none => throw "swapread_file: did not find pte"
      | some (j, node) =>
          let mem := mem.setRef new node.ptes.length
          let mem ← remapPtes la new node.ptes mem
          let held ← release held .swapMap
          let (f, dst) ← swapfileReadPage s.swapfile (fun a => mem.byte (new + a)) node.pageNo
          let f ← swapfileFreePage f node.pageNo
          pure { s with mem := { mem with byte := overlay mem.byte new pgsize dst },
                        swapfile := f, swapMap := s.swapMap.remove b j, held := held }

/-- `swaprestore(va, pte, pgdir)` (vm.c:539-563): `swapread_file`, and `0`. -/
def swaprestore (s : Vm) (va pte : Nat) : Except String (Vm × Int) := do
  let s ← swapreadFile kernEnd s va pte
  pure (s, 0)

/-- `swapfree_file(va, la, pte)` (fs.c:1098-1170) for the frame address `pa` a swapped
PTE keeps: drop the PTE from its node, and with the node's last PTE gone, drop the node
and free the page of the swap file with `ptable.lock` released around it. -/
def swapfreeFile (s : Vm) (pa la pte : Nat) : Except String Vm := do
  let key : SwapUniqueKey := ⟨la, pa⟩
  let b := swapMapHash kernEnd key
  let held ← acquire s.held .swapMap
  if !SwapMap.hasKey (s.swapMap b) key then throw "swapfree: swapmap: key not found\n"
  match SwapMap.findPte (s.swapMap b) key pte with
  | none => throw "swapfree: did not find pte"
  | some (j, node) =>
      let node := { node with ptes := node.ptes.erase pte }
      if node.ptes.length = 0 then do
        let held ← release held .swapMap
        let held ← release held .ptable
        let f ← swapfileFreePage s.swapfile node.pageNo
        let held ← acquire held .ptable
        pure { s with swapMap := s.swapMap.remove b j, swapfile := f, held := held }
      else do
        let held ← release held .swapMap
        pure { s with swapMap := s.swapMap.setNode b j node, held := held }

/-! ## Growing, shrinking, copying and freeing an address space (vm.c:221-392) -/

/-- The loop of `deallocuvm` (vm.c:289-314) from page `a` below `oldsz`, with `fuel`
pages left.  A missing page table skips to the next page-directory entry; a present
page is freed with `kfree`, a swapped one with `swapfree_file`, and its PTE cleared. -/
def deallocuvmLoop (pgdir oldsz : Nat) : Nat → Vm → Nat → Except String Vm
  | 0, s, _ => pure s
  | fuel + 1, s, a =>
      if a < oldsz then do
        let (mem, pte) ← walkpgdir s.mem pgdir a false
        let s := { s with mem := mem }
        match pte with
        | none =>
            -- `a = PGADDR(PDX(a) + 1, 0, 0) - PGSIZE`, then `a += PGSIZE`
            deallocuvmLoop pgdir oldsz fuel s (pgaddr (pdx a + 1) 0 0)
        | some pte =>
            let w := s.mem.word pte
            let s ← if hasFlag w pteP then do
                if pteAddr w = 0 then throw "deallocuvm"
                let mem ← kfree kernEnd s.mem (pteAddr w)
                pure { s with mem := mem.setWord pte 0 }
              else if hasFlag w pteS then do
                if pteAddr w = 0 then throw "deallocuvm"
                let s ← swapfreeFile kernEnd s (pteAddr w) a pte
                pure { s with mem := s.mem.setWord pte 0 }
              else pure s
            deallocuvmLoop pgdir oldsz fuel s ((a + pgsize) % uintMod)
      else pure s

/-- `deallocuvm(pgdir, oldsz, newsz)` (vm.c:280-317): free the pages from
`PGROUNDUP(newsz)` below `oldsz`, and return the new size. -/
def deallocuvm (s : Vm) (pgdir oldsz newsz : Nat) : Except String (Vm × Nat) :=
  if newsz ≥ oldsz then pure (s, oldsz)
  else do
    let s ← deallocuvmLoop kernEnd pgdir oldsz (oldsz / pgsize + 1) s (pgroundup newsz)
    pure (s, newsz)

/-- The loop of `allocuvm` (vm.c:258-272) from page `a` below `newsz`: a zeroed frame per
page; on a failure everything from `oldsz` on is freed again and the size is `0`. -/
def allocuvmLoop (pgdir oldsz newsz : Nat) : Nat → Vm → Nat → Except String (Vm × Nat)
  | 0, s, _ => pure (s, newsz)
  | fuel + 1, s, a =>
      if a < newsz then do
        let (mem, new) ← kalloc s.mem
        match new with
        | none =>
            let (s, _) ← deallocuvm kernEnd { s with mem := mem } pgdir newsz oldsz
            pure (s, 0)
        | some new =>
            let (mem, r) ← mappages (mem.memsetPage new 0) pgdir a pgsize new (pteW ||| pteU)
            if r < 0 then do
              let (s, _) ← deallocuvm kernEnd { s with mem := mem } pgdir newsz oldsz
              let mem ← kfree kernEnd s.mem new
              pure ({ s with mem := mem }, 0)
            else allocuvmLoop pgdir oldsz newsz fuel { s with mem := mem } ((a + pgsize) % uintMod)
      else pure (s, newsz)

/-- `allocuvm(pgdir, oldsz, newsz)` (vm.c:246-274): the new size, or `0`. -/
def allocuvm (s : Vm) (pgdir oldsz newsz : Nat) : Except String (Vm × Nat) :=
  if newsz ≥ kernbase then pure (s, 0)
  else if newsz < oldsz then pure (s, oldsz)
  else allocuvmLoop kernEnd pgdir oldsz newsz (newsz / pgsize + 1) s (pgroundup oldsz)

/-- The loop of `freevm` over the entries of the page directory (vm.c:330-336). -/
def freevmLoop (pgdir : Nat) : Nat → Mem → Nat → Except String Mem
  | 0, m, _ => pure m
  | fuel + 1, m, i =>
      if i < npdentries then do
        let pde := m.word (pgdir + 4 * i)
        let m ← if hasFlag pde pteP then kfree kernEnd m (pteAddr pde) else pure m
        freevmLoop pgdir fuel m (i + 1)
      else pure m

/-- `freevm(pgdir)` (vm.c:321-338): the user pages, the page tables, the page
directory. -/
def freevm (s : Vm) (pgdir : Nat) : Except String Vm := do
  if pgdir = 0 then throw "freevm: no pgdir"
  let (s, _) ← deallocuvm kernEnd s pgdir kernbase 0
  let mem ← freevmLoop kernEnd pgdir npdentries s.mem 0
  let mem ← kfree kernEnd mem pgdir
  pure { s with mem := mem }

variable (kernData : Nat)

/-- `setupkvm()` (vm.c:148-166): a page directory holding the kernel half, or `none`,
after `freevm` of what was built, when memory runs out. -/
def setupkvm (s : Vm) : Except String (Vm × Option Nat) := do
  let (mem, pgdir) ← kalloc s.mem
  match pgdir with
  | none => pure ({ s with mem := mem }, none)
  | some pgdir =>
      let mem := mem.memsetPage pgdir 0
      if p2v phystop > devspace then throw "PHYSTOP too high"
      let (mem, ok) ← setupkvmLoop pgdir (kmap kernData) mem
      if ok then pure ({ s with mem := mem }, some pgdir)
      else do
        let s ← freevm kernEnd { s with mem := mem } pgdir
        pure (s, none)

/-- The loop of `copyuvm` (vm.c:363-385) from page `i` below `sz`, into the page
directory `d`: a swapped page is read back first, and a present page is shared, its
entry made copy-on-write and read-only in both, its count raised.  `false` when
`mappages` fails. -/
def copyuvmLoop (pgdir sz d : Nat) : Nat → Vm → Nat → Except String (Vm × Bool)
  | 0, s, _ => pure (s, true)
  | fuel + 1, s, i =>
      if i < sz then do
        let (mem, pte) ← walkpgdir s.mem pgdir i false
        let s := { s with mem := mem }
        match pte with
        | none => throw "copyuvm: pte should exist"
        | some pte =>
            let s ← if hasFlag (s.mem.word pte) pteS then swapreadFile kernEnd s i pte else pure s
            if !hasFlag (s.mem.word pte) pteP then
              copyuvmLoop pgdir sz d fuel s ((i + pgsize) % uintMod)
            else
              let w := setFlag (clearFlag (s.mem.word pte) pteW) pteC
              let (mem, r) ← mappages (s.mem.setWord pte w) d i pgsize (pteAddr w) (pteFlags w)
              if r < 0 then pure ({ s with mem := mem }, false)
              else do
                let (mem, _) ← incRefPa mem (pteAddr w)
                copyuvmLoop pgdir sz d fuel { s with mem := mem } ((i + pgsize) % uintMod)
      else pure (s, true)

/-- `copyuvm(pgdir, sz)` (vm.c:353-392): the child's page directory, or `none` after
freeing what was built. -/
def copyuvm (s : Vm) (pgdir sz : Nat) : Except String (Vm × Option Nat) := do
  let (s, d) ← setupkvm kernEnd kernData s
  match d with
  | none => pure (s, none)
  | some d =>
      let (s, ok) ← copyuvmLoop kernEnd pgdir sz d (sz / pgsize + 1) s pgsize
      if ok then pure (s, some d)
      else do
        let s ← freevm kernEnd s d
        pure (s, none)

/-! ## Page faults (vm.c:565-673) -/

/-- `lazyalloc(va, p)` (vm.c:565-583): a zeroed frame at `va` in `pgdir`, `0`, or `-1`
when memory runs out. -/
def lazyalloc (m : Mem) (va pgdir : Nat) : Except String (Mem × Int) := do
  let (m, new) ← kalloc m
  match new with
  | none => pure (m, -1)
  | some new =>
      let (m, r) ← mappages (m.memsetPage new 0) pgdir va pgsize new (pteW ||| pteU)
      if r < 0 then do
        let m ← kfree kernEnd m new
        pure (m, -1)
      else pure (m, 0)

/-- `copy_on_write(va, pte, pgdir)` (vm.c:585-619): the last reference takes the page
back writable; otherwise the page is copied into a new frame, mapped writable at `va`,
and the old frame's count drops. -/
def copyOnWrite (m : Mem) (va pte pgdir : Nat) : Except String (Mem × Int) := do
  let paToFree := pteAddr (m.word pte)
  let refcount ← getRefPa m paToFree
  if refcount = 1 then
    pure (m.setWord pte (setFlag (clearFlag (m.word pte) pteC) pteW), 0)
  else do
    let (m, new) ← kalloc m
    match new with
    | none => pure (m, -1)
    | some new =>
        let (m, r) ← mappages (m.memmovePage new paToFree) pgdir va pgsize new (pteW ||| pteU)
        if r < 0 then do
          let m ← kfree kernEnd m new
          pure (m, -1)
        else do
          let m := m.setWord pte (clearFlag (m.word pte) pteC)
          let (m, _) ← decRefPa m paToFree
          pure (m, 0)

/-- `handle_pagefault(addr, err)` (vm.c:621-673) for the current process `cur`.  Outside
`[PGSIZE, KERNBASE)` and above `sz` it refuses.  A missing page table means lazy
allocation.  Otherwise a swapped page is read back, a copy-on-write page under a write
fault is copied, and if neither gave `0` the page is allocated lazily. -/
def handlePagefault (s : Vm) (cur : Fin nproc) (addr err : Nat) : Except String (Vm × Int) := do
  let p := s.proc cur
  let va := pgrounddown addr
  if va = 0 then pure (s, -1)
  else if va ≥ kernbase then pure (s, -1)
  else if va > p.sz then pure (s, -1)
  else
    let (mem, pte) ← walkpgdir s.mem p.pgdir va false
    let s := { s with mem := mem }
    match pte with
    | none => do
        let (mem, r) ← lazyalloc kernEnd s.mem va p.pgdir
        pure ({ s with mem := mem }, r)
    | some pte => do
        let (s, result) ← if hasFlag (s.mem.word pte) pteS then do
            let (s, r) ← swaprestore kernEnd s va pte
            pure (s, max (-1) r)
          else pure (s, -1)
        let (s, result) ← if hasFlag (s.mem.word pte) pteC && hasFlag err pteW then do
            let (mem, r) ← copyOnWrite kernEnd s.mem va pte p.pgdir
            pure ({ s with mem := mem }, max result r)
          else pure (s, result)
        if result ≠ 0 then do
          let (mem, r) ← lazyalloc kernEnd s.mem va p.pgdir
          pure ({ s with mem := mem }, r)
        else pure (s, result)

/-! ## `swap()` (vm.c:468-532) -/

/-- The inner loop of `swap()` (vm.c:486-521) over the pages of one process below `top`: a present page
that is not copy-on-write loses its accessed bit, or, without one, goes to the swap
file. -/
def swapPagesLoop (pgdir top : Nat) : Nat → Vm → Nat → Except String Vm
  | 0, s, _ => pure s
  | fuel + 1, s, a =>
      if a < top then do
        let (mem, pte) ← walkpgdir s.mem pgdir a false
        let s := { s with mem := mem }
        match pte with
        | none => swapPagesLoop pgdir top fuel s ((a + pgsize) % uintMod)
        | some pte =>
            let w := s.mem.word pte
            let s ← if hasFlag w pteP && !hasFlag w pteC then
                if hasFlag w pteA then pure { s with mem := s.mem.setWord pte (clearFlag w pteA) }
                else swapwriteFile kernEnd s (pteAddr w) a pte
              else pure s
            swapPagesLoop pgdir top fuel s ((a + pgsize) % uintMod)
      else pure s

/-- `swap()` (vm.c:468-532): every page below `PGROUNDUP(sz)` of every process in use. -/
def swap (s : Vm) : Except String Vm :=
  (List.finRange nproc).foldlM (fun s i =>
    if (s.proc i).state = .unused then pure s
    else
      swapPagesLoop kernEnd (s.proc i).pgdir (pgroundup (s.proc i).sz)
        (pgroundup (s.proc i).sz / pgsize) s 0) s

end Vm

end Xv6
