import Xv6.Model.Vm

/-!
# User accesses (trap.c)

A load or store of a user process as the MMU and `trap()` run it.  The MMU lets a
user-mode access through when the page-directory entry and the PTE of the address are
present and user-accessible, and for a store writable too; it then touches the frame and
sets `PTE_A` in the PTE, which `swap()` reads.  Otherwise it raises `T_PGFLT`, with an
error code of `PTE_U`, `PTE_W` for a store, and `PTE_P` when the page was present.
`trap()` passes the address and the code to `handle_pagefault` (trap.c:97-130): on `0`
it returns and the instruction is retried, otherwise it reaches `ERROR_GOTO`, which kills
a user process.

A run of retries is bounded by `fuel`; a run that is still faulting when the fuel is
spent ends in `Access.faulting`.
-/

set_option autoImplicit false

namespace Xv6

/-- What a user access comes to. -/
inductive Access (α : Type) where
  /-- The access went through. -/
  | done (v : α)
  /-- `handle_pagefault` gave no `0` and `trap()` killed the process. -/
  | killed
  /-- Still faulting when the retries ran out. -/
  | faulting
  deriving Repr, DecidableEq

/-- The MMU's check of a user-mode access through the page-directory entry `pde` and the
PTE `pte` (mmu.h:78-86). -/
def userAllows (pde pte : Nat) (write : Bool) : Bool :=
  hasFlag pde pteP && hasFlag pde pteU && hasFlag pte pteP && hasFlag pte pteU &&
    (!write || (hasFlag pde pteW && hasFlag pte pteW))

/-- The error code of a user-mode page fault: `PTE_P` for a present page, `PTE_W` for a
store, and `PTE_U`. -/
def faultErr (pde pte : Nat) (write : Bool) : Nat :=
  (if hasFlag pde pteP && hasFlag pte pteP then pteP else 0) ||| (if write then pteW else 0) ||| pteU

/-- `myproc()->killed = 1` (trap.c, `ERROR_GOTO`). -/
def Vm.kill (s : Vm) (cur : Fin nproc) : Vm :=
  { s with proc := Function.update s.proc cur { s.proc cur with killed := true } }

section Trap

variable (kernEnd : Nat)

/-- A user-mode load of the byte at `va` by the process `cur`, with `fuel` tries. -/
def userLoad (cur : Fin nproc) (va : Nat) : Nat → Vm → Except String (Vm × Access UInt8)
  | 0, s => pure (s, .faulting)
  | fuel + 1, s =>
      let pde := s.mem.word ((s.proc cur).pgdir + 4 * pdx va)
      let pte := pteAddr pde + 4 * ptx va
      let w := s.mem.word pte
      if userAllows pde w false then
        pure ({ s with mem := s.mem.setWord pte (setFlag w pteA) },
          .done (s.mem.byte (pteAddr w + va % pgsize)))
      else do
        let (s, r) ← handlePagefault kernEnd s cur va (faultErr pde w false)
        if r = 0 then userLoad cur va fuel s else pure (s.kill cur, .killed)

/-- A user-mode store of the byte `v` at `va` by the process `cur`, with `fuel` tries. -/
def userStore (cur : Fin nproc) (va : Nat) (v : UInt8) : Nat → Vm → Except String (Vm × Access Unit)
  | 0, s => pure (s, .faulting)
  | fuel + 1, s =>
      let pde := s.mem.word ((s.proc cur).pgdir + 4 * pdx va)
      let pte := pteAddr pde + 4 * ptx va
      let w := s.mem.word pte
      if userAllows pde w true then
        let m := s.mem.setWord pte (setFlag w pteA)
        pure ({ s with mem := { m with byte := Function.update m.byte (pteAddr w + va % pgsize) v } },
          .done ())
      else do
        let (s, r) ← handlePagefault kernEnd s cur va (faultErr pde w true)
        if r = 0 then userStore cur va v fuel s else pure (s.kill cur, .killed)

end Trap

end Xv6
