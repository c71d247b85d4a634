import Xv6.Model.Vm

/-!
# System-call arguments and the size of a process (syscall.c, sysproc.c, proc.c)

The checks a system call makes on the user addresses it is given, and `sbrk`, the one
call that sets the size `sz` those checks compare with.

`fetchint`, `fetchstr`, `argint` and `argptr` (syscall.c:19-99) read the caller's memory
through its page table.  What they read is the parameter `peek` (the `int` at a user
address) or `peekByte` (the byte there); the checks are on the addresses alone.  The
`cprintf` calls under `LOG_SYSCALLS` print and change nothing else.

`sys_sbrk` (sysproc.c:48-63) raises `sz` by a non-negative `n` without allocating, and
lowers it through `growproc` (proc.c:165-182) and `deallocuvm`.  `switchuvm` only loads
the page directory into the MMU and is not modelled.
-/

set_option autoImplicit false

namespace Xv6

/-- `curproc->sz = sz`. -/
def Vm.setSz (s : Vm) (cur : Fin nproc) (sz : Nat) : Vm :=
  { s with proc := Function.update s.proc cur { s.proc cur with sz := sz } }

/-! ## Arguments (syscall.c:19-99) -/

section Args

variable (peek : Nat → Int) (peekByte : Nat → UInt8)

/-- `fetchint(addr, ip)` (syscall.c:19-28) for a process of size `sz`: the `int` at
`addr`, or `none` for `-1`. -/
def fetchint (sz addr : Nat) : Option Int :=
  if addr ≥ sz ∨ (addr + 4) % uintMod > sz then none else some (peek addr)

/-- The loop of `fetchstr` (syscall.c:40-51) from `s` below `ep`, with `fuel` bytes left:
the first `NUL`, if any. -/
def fetchstrLoop (ep : Nat) : Nat → Nat → Option Nat
  | 0, _ => none
  | fuel + 1, s =>
      if s < ep then
        if peekByte s = 0 then some s else fetchstrLoop ep fuel (s + 1)
      else none

/-- `fetchstr(addr, pp)` (syscall.c:33-53): the length of the string at `addr`, which
must end below `sz`, or `-1`. -/
def fetchstr (sz addr : Nat) : Int :=
  if addr ≥ sz then -1
  else
    match fetchstrLoop peekByte sz (sz - addr) addr with
    | some e => (e - addr : Nat)
    | none => -1

/-- `argint(n, ip)` (syscall.c:57-66): the `n`th argument word above the user stack
pointer `esp`. -/
def argint (sz esp n : Nat) : Option Int :=
  fetchint peek sz ((esp + 4 + 4 * n) % uintMod)

/-- `argptr(n, pp, size)` (syscall.c:74-99): the pointer in the `n`th argument, checked
to hold `size` bytes inside `[PGSIZE, sz)`; a failure is its negative code, `-2` for a
pointer into page 0. -/
def argptr (sz esp n : Nat) (size : Int) : Except Int Nat :=
  match argint peek sz esp n with
  | none => .error (-1)
  | some i =>
      if i < pgsize then .error (-2)
      else if size < 0 ∨ toUint i ≥ sz ∨ (toUint i + toUint size) % uintMod > sz then .error (-1)
      else .ok (toUint i)

/-- `argstr(n, pp)` (syscall.c:105-112): the length of the string the `n`th argument points
to, or `-1`. -/
def argstr (sz esp n : Nat) : Int :=
  match argint peek sz esp n with
  | none => -1
  | some addr => fetchstr peekByte sz (toUint addr)

/-! ## `sys_state` (sysfile.c:455-470, proc.c:590-655) -/

/-- The stores of one `struct procinfo` (stateinfo.h:11-18) at `b`, in the order
`procdumpWrite` makes them (proc.c:619-634): `file_count`, `size`, `pid`, `state` and
`name` (16 bytes each, by `strncpy`), and `inodeIds[j]` for every descriptor `j` that is
an inode file.  A store is its first address and its width; the values stored are not
modelled. -/
def procinfoStores (b : Nat) (isInode : Nat → Bool) : List (Nat × Nat) :=
  [((b + 40) % uintMod, 4), ((b + 36) % uintMod, 4), (b % uintMod, 4), ((b + 4) % uintMod, 16),
    ((b + 20) % uintMod, 16)] ++
  ((List.range nofile).filter isInode).map fun j => ((b + 44 + 4 * j) % uintMod, 4)

/-- The loop of `procdumpWrite` over the process table (proc.c:606-640) from record
`i` of `pi_arr`: each process in use, with which of its descriptors are inode files,
fills the next `procinfo` record of 108 bytes. -/
def procinfoLoop (piArr : Nat) : Nat → List (ProcState × (Nat → Bool)) → List (Nat × Nat)
  | _, [] => []
  | i, (st, isInode) :: ps =>
      if st = .unused then procinfoLoop piArr i ps
      else procinfoStores (piArr + 108 * i) isInode ++ procinfoLoop piArr (i + 1) ps

/-- The loop of `procdumpWrite` over the CPUs (proc.c:644-653) from record `k` of
`cpui_arr`: each CPU running a process fills the next `cpuinfo` record of 8 bytes. -/
def cpuinfoLoop (cpuiArr : Nat) : Nat → List Bool → List (Nat × Nat)
  | _, [] => []
  | k, running :: cs =>
      if running then
        [((cpuiArr + 8 * k) % uintMod, 4), ((cpuiArr + 8 * k + 4) % uintMod, 4)] ++
          cpuinfoLoop cpuiArr (k + 1) cs
      else cpuinfoLoop cpuiArr k cs

/-- `procdumpWrite(pi_arr, cpui_arr)` (proc.c:590-655): the stores it makes. -/
def procdumpWrite (piArr cpuiArr : Nat) (procs : List (ProcState × (Nat → Bool)))
    (cpus : List Bool) : List (Nat × Nat) :=
  procinfoLoop piArr 0 procs ++ cpuinfoLoop cpuiArr 0 cpus

/-- `sys_state()` (sysfile.c:455-470): `argptr` checks the two 4-byte cells that hold the
destination pointers, and `procdumpWrite` stores through the pointers read from them.
The stores, or `-1`. -/
def sysState (sz esp : Nat) (procs : List (ProcState × (Nat → Bool))) (cpus : List Bool) :
    Except Int (List (Nat × Nat)) :=
  match argptr peek sz esp 0 4, argptr peek sz esp 1 4 with
  | .ok piCell, .ok cpuiCell =>
      .ok (procdumpWrite (toUint (peek piCell)) (toUint (peek cpuiCell)) procs cpus)
  | _, _ => .error (-1)

end Args

/-! ## The size of a process (proc.c:165-182, sysproc.c:48-63) -/

section Grow

variable (kernEnd : Nat)

/-- `growproc(n)` (proc.c:165-182) for the current process `cur`: `allocuvm` or
`deallocuvm` to `sz + n`, whose result, `0` meaning failure, becomes the size. -/
def growproc (s : Vm) (cur : Fin nproc) (n : Int) : Except String (Vm × Int) := do
  let p := s.proc cur
  let sz := p.sz
  if n > 0 then
    let (s, sz) ← allocuvm kernEnd s p.pgdir sz ((sz + toUint n) % uintMod)
    if sz = 0 then return (s, -1)
    pure (s.setSz cur sz, 0)
  else if n < 0 then
    let (s, sz) ← deallocuvm kernEnd s p.pgdir sz ((sz + toUint n) % uintMod)
    if sz = 0 then return (s, -1)
    pure (s.setSz cur sz, 0)
  else pure (s.setSz cur sz, 0)

/-- `sys_sbrk()` (sysproc.c:48-63) with the argument `n` that `argint` fetched: the old
size, or `-1`.  A non-negative `n` only raises `sz`; the pages are allocated lazily. -/
def sysSbrk (s : Vm) (cur : Fin nproc) (n : Int) : Except String (Vm × Int) := do
  let addr := (s.proc cur).sz
  if n ≥ 0 then pure (s.setSz cur ((addr + toUint n) % uintMod), toInt addr)
  else
    let (s, r) ← growproc kernEnd s cur n
    if r < 0 then pure (s, -1) else pure (s, toInt addr)

end Grow

end Xv6
