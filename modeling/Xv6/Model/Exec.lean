import Xv6.Model.Vm
import Xv6.Model.File

/-!
# `exec` (exec.c, vm.c)

`exec(path, argv)` (exec.c:10-114) on the inode `namei(path)` found: it reads the ELF
header and the program headers with `readi`, builds a new page directory with
`setupkvm`, `allocuvm` and `loaduvm`, adds the stack guard page and the stack, copies
the argument strings and the initial stack out with `copyout`, and commits: the process
gets the new page directory and size, and the old image is freed with `freevm`.  Any
failure before the commit frees the new page directory and returns `-1`.

An ELF header and a program header are the little-endian fields of the bytes `readi`
read (elf.h).  The path lookup, `ilock`, `begin_op` and the saved program name are not
modelled, nor are the new `eip` and `esp` of the trap frame; `switchuvm` only loads the
MMU.  A `NULL` PTE in `uva2ka`, which dereferences it, stops the model with the error
`uva2ka: NULL pte`.
-/

set_option autoImplicit false

namespace Xv6

open Window

/-- `ELF_MAGIC` (elf.h:3). -/
def elfMagic : Nat := 0x464C457F

/-- `ELF_PROG_LOAD` (elf.h:37). -/
def elfProgLoad : Nat := 1

/-- `MAXARG` (param.h:9). -/
def maxarg : Nat := 32

/-- The little-endian `ushort` at `o`. -/
def le16 (b : Nat → UInt8) (o : Nat) : Nat := (b o).toNat + 2 ^ 8 * (b (o + 1)).toNat

/-- The little-endian `uint` at `o`. -/
def le32 (b : Nat → UInt8) (o : Nat) : Nat :=
  le16 b o + 2 ^ 16 * le16 b (o + 2)

/-- The little-endian bytes of a `uint`. -/
def bytes32 (w : Nat) : Nat → UInt8 := fun i => (w / 2 ^ (8 * i) % 256).toUInt8

/-- `struct elfhdr` (elf.h:6-22): the fields `exec` reads. -/
structure Elfhdr where
  magic : Nat
  entry : Nat
  phoff : Nat
  phnum : Nat

/-- The ELF header in the 52 bytes `b`. -/
def Elfhdr.ofBytes (b : Nat → UInt8) : Elfhdr := ⟨le32 b 0, le32 b 24, le32 b 28, le16 b 44⟩

/-- `struct proghdr` (elf.h:25-34): the fields `exec` reads. -/
structure Proghdr where
  type : Nat
  off : Nat
  vaddr : Nat
  filesz : Nat
  memsz : Nat

/-- The program header in the 32 bytes `b`. -/
def Proghdr.ofBytes (b : Nat → UInt8) : Proghdr := ⟨le32 b 0, le32 b 4, le32 b 8, le32 b 16, le32 b 20⟩

section Exec

variable (kernEnd kernData : Nat) (devsw : Nat → Option Devsw)

/-- The loop of `loaduvm` (vm.c:230-241) from byte `i` of the segment: each page's
`PTE_ADDR` is where `readi` puts the next chunk of the file. -/
def loaduvmLoop (pgdir : Nat) (ip : Inode) (addr offset sz : Nat) :
    Nat → Mem → Nat → Except String (Mem × Int)
  | 0, m, _ => pure (m, 0)
  | fuel + 1, m, i =>
      if i < sz then do
        let (m, pte) ← walkpgdir m pgdir ((addr + i) % uintMod) false
        match pte with
        | none => throw "loaduvm: address should exist"
        | some pte =>
            let pa := pteAddr (m.word pte)
            let n := if sz - i < pgsize then sz - i else pgsize
            let (r, dst) := ip.readi devsw (fun a => m.byte (pa + a)) ((offset + i) % uintMod) n
            let m := { m with byte := overlay m.byte pa n dst }
            if r ≠ n then pure (m, -1)
            else loaduvmLoop pgdir ip addr offset sz fuel m (i + pgsize)
      else pure (m, 0)

/-- `loaduvm(pgdir, addr, ip, offset, sz)` (vm.c:223-243). -/
def loaduvm (m : Mem) (pgdir addr : Nat) (ip : Inode) (offset sz : Nat) :
    Except String (Mem × Int) :=
  if addr % pgsize ≠ 0 then throw "loaduvm: addr must be page aligned"
  else loaduvmLoop devsw pgdir ip addr offset sz (sz / pgsize + 1) m 0

/-- `uva2ka(pgdir, uva)` (vm.c:396-424): the frame of a present user page, after a
swapped page is read back and a copy-on-write page copied, or `none` for `NULL`. -/
def uva2ka (s : Vm) (pgdir uva : Nat) : Except String (Vm × Option Nat) := do
  let (mem, pte) ← walkpgdir s.mem pgdir uva false
  let s := { s with mem := mem }
  match pte with
  | none => throw "uva2ka: NULL pte"
  | some pte =>
      if !hasFlag (s.mem.word pte) pteP then pure (s, none)
      else if !hasFlag (s.mem.word pte) pteU then pure (s, none)
      else do
        let (s, ok) ← if hasFlag (s.mem.word pte) pteS then do
            let (s, r) ← swaprestore kernEnd s uva pte
            pure (s, decide (0 ≤ r))
          else pure (s, true)
        if !ok then pure (s, none)
        else do
          let (s, ok) ← if hasFlag (s.mem.word pte) pteC then do
              let (mem, r) ← copyOnWrite kernEnd s.mem uva pte pgdir
              pure ({ s with mem := mem }, decide (0 ≤ r))
            else pure (s, true)
          if !ok then pure (s, none) else pure (s, some (pteAddr (s.mem.word pte)))

/-- The loop of `copyout` (vm.c:432-451) at user address `va`, with `off` bytes of `src`
copied and `len` left, and `fuel` pages. -/
def copyoutLoop (pgdir : Nat) (src : Nat → UInt8) :
    Nat → Vm → Nat → Nat → Nat → Except String (Vm × Int)
  | 0, s, _, _, _ => pure (s, 0)
  | fuel + 1, s, va, off, len =>
      if len > 0 then do
        let va0 := pgrounddown va
        let (s, pa0) ← uva2ka kernEnd s pgdir va0
        match pa0 with
        | none => pure (s, -1)
        | some pa0 =>
            let n := min (pgsize - (va - va0)) len
            let s := { s with mem := { s.mem with
              byte := overlay s.mem.byte (pa0 + (va - va0)) n fun a => src (off + a) } }
            copyoutLoop pgdir src fuel s ((va0 + pgsize) % uintMod) (off + n) (len - n)
      else pure (s, 0)

/-- `copyout(pgdir, va, p, len)` (vm.c:428-452).  It touches at most `len / PGSIZE + 2`
pages. -/
def copyout (s : Vm) (pgdir va : Nat) (src : Nat → UInt8) (len : Nat) : Except String (Vm × Int) :=
  copyoutLoop kernEnd pgdir src (len / pgsize + 2) s va 0 len

/-- The loop of `exec` over the program headers (exec.c:42-58) from header `i` at file
offset `off`, the image reaching `sz`: the new size, or `none` for `goto bad`. -/
def execLoadLoop (ip : Inode) (pgdir phnum : Nat) :
    Nat → Vm → Nat → Nat → Nat → Except String (Vm × Option Nat)
  | 0, s, _, _, sz => pure (s, some sz)
  | fuel + 1, s, i, off, sz =>
      if i < phnum then
        let (r, buf) := ip.readi devsw (fun _ => 0) off 32
        if r ≠ 32 then pure (s, none)
        else
          let ph := Proghdr.ofBytes buf
          if ph.type ≠ elfProgLoad then
            execLoadLoop ip pgdir phnum fuel s (i + 1) ((off + 32) % uintMod) sz
          else if ph.memsz < ph.filesz then pure (s, none)
          else if (ph.vaddr + ph.memsz) % uintMod < ph.vaddr then pure (s, none)
          else do
            let (s, sz) ← allocuvm kernEnd s pgdir sz ((ph.vaddr + ph.memsz) % uintMod)
            if sz = 0 then pure (s, none)
            else if ph.vaddr % pgsize ≠ 0 then pure (s, none)
            else do
              let (mem, r) ← loaduvm devsw s.mem pgdir ph.vaddr ip ph.off ph.filesz
              let s := { s with mem := mem }
              if r < 0 then pure (s, none)
              else execLoadLoop ip pgdir phnum fuel s (i + 1) ((off + 32) % uintMod) sz
      else pure (s, some sz)

/-- The loop of `exec` that pushes the argument strings (exec.c:70-77), from argument
`argc`, the stack pointer at `sp` and `ptrs` the pointers pushed so far: the stack
pointer and the pointers, or `none` for `goto bad`. -/
def execArgsLoop (pgdir : Nat) :
    List (List UInt8) → Nat → Vm → Nat → List Nat → Except String (Vm × Option (Nat × List Nat))
  | [], _, s, sp, ptrs => pure (s, some (sp, ptrs))
  | a :: as, argc, s, sp, ptrs =>
      if argc ≥ maxarg then pure (s, none)
      else do
        -- `sp = (sp - (strlen(argv[argc]) + 1)) & ~3`
        let sp := RingBuf.dist uintMod sp (a.length + 1) / 4 * 4
        let (s, r) ← copyout kernEnd s pgdir sp (fun i => (a ++ [0]).getD i 0) (a.length + 1)
        if r < 0 then pure (s, none)
        else execArgsLoop pgdir as (argc + 1) s sp (ptrs ++ [sp])

/-- The words of `ustack` (exec.c:78-82) for `argc` arguments at `ptrs` below `sp`. -/
def ustack (sp : Nat) (ptrs : List Nat) : List Nat :=
  [0xffffffff, ptrs.length, RingBuf.dist uintMod sp ((ptrs.length + 1) * 4)] ++ ptrs ++ [0]

/-- `exec(path, argv)` (exec.c:10-114) of the inode `ip` for the current process `cur`:
`0`, or `-1` with the new page directory freed. -/
def exec (s : Vm) (cur : Fin nproc) (ip : Inode) (argv : List (List UInt8)) :
    Except String (Vm × Int) := do
  let (r, buf) := ip.readi devsw (fun _ => 0) 0 52
  if r ≠ 52 then return (s, -1)
  let elf := Elfhdr.ofBytes buf
  if elf.magic ≠ elfMagic then return (s, -1)
  let (s, pgdir) ← setupkvm kernEnd kernData s
  match pgdir with
  | none => pure (s, -1)
  | some pgdir =>
      let (s, sz) ← execLoadLoop kernEnd devsw ip pgdir elf.phnum elf.phnum s 0 elf.phoff pgsize
      -- `bad:` frees the new page directory
      let bad := fun (s : Vm) => do
        let s ← freevm kernEnd s pgdir
        pure (s, (-1 : Int))
      match sz with
      | none => bad s
      | some sz =>
          let sz := pgroundup sz
          let (s, sz) ← allocuvm kernEnd s pgdir sz ((sz + 2 * pgsize) % uintMod)
          if sz = 0 then bad s
          else do
            let mem ← clearpteu s.mem pgdir (RingBuf.dist uintMod sz (2 * pgsize))
            let s := { s with mem := mem }
            let (s, args) ← execArgsLoop kernEnd pgdir argv 0 s sz []
            match args with
            | none => bad s
            | some (sp, ptrs) =>
                let words := ustack sp ptrs
                let sp := RingBuf.dist uintMod sp (words.length * 4)
                let (s, r) ← copyout kernEnd s pgdir sp
                  (fun i => bytes32 (words.getD (i / 4) 0) (i % 4)) (words.length * 4)
                if r < 0 then bad s
                else do
                  -- commit to the user image
                  let oldpgdir := (s.proc cur).pgdir
                  let p : VmProc := { s.proc cur with pgdir := pgdir, sz := sz }
                  let s := { s with proc := Function.update s.proc cur p }
                  let s ← freevm kernEnd s oldpgdir
                  pure (s, 0)

end Exec

end Xv6
