import Xv6.Model.Param
import Xv6.Lib.Run

/-!
# The process table (proc.c)

`ptable` with its `NPROC` slots and `nextpid`, and the operations that change a slot's
state, pid, parent or `killed` flag: `allocproc` and `fork` with both failure paths,
`exit`, `wait`, `kill`, `sleep`, `wakeup`, `yield` and the scheduler's choice of a
process.  Each runs as one atomic step under `ptable.lock`.  An operation made by the
process in slot `cur` (a system call) runs only while that process is `RUNNING`; `kill`
and `wakeup` can come from any process or interrupt.

A `struct proc *` into the table is the slot's index, and `NULL` is `none`.  A channel
`void *chan` is the address of a slot (what `wait` sleeps on) or of some other kernel
object.  Memory, the trap frame, the context, open files, the working directory and
the name are not modelled; `kstack` and `pgdir` record only whether the slot holds a
kernel stack and a page directory.  `nextpid` is an `int` that only grows; its overflow
after `2^31 - 1` allocations is undefined behaviour in C, and it is modelled as an
unbounded integer.
-/

set_option autoImplicit false

namespace Xv6

/-- The table has slots, so slot numerals make sense. -/
instance : NeZero nproc := ⟨by decide⟩

/-- `enum procstate` (proc.h). -/
inductive ProcState where
  | unused
  | embryo
  | sleeping
  | runnable
  | running
  | zombie
  deriving DecidableEq, Repr

/-- A `void *chan`: the address of a process slot, or of another kernel object. -/
inductive Chan where
  | proc (i : Fin nproc)
  | obj (a : Nat)
  deriving DecidableEq, Repr

/-- `struct proc` (proc.h:37-51), the fields the process table reads and writes. -/
structure Proc where
  state : ProcState
  pid : Int
  parent : Option (Fin nproc)
  chan : Option Chan
  killed : Int
  /-- `kstack != 0`. -/
  kstack : Bool
  /-- The slot holds a page directory that has not been freed. -/
  pgdir : Bool
  deriving DecidableEq, Repr

/-- A zero-initialised `struct proc`. -/
def Proc.zero : Proc :=
  { state := .unused, pid := 0, parent := none, chan := none, killed := 0,
    kstack := false, pgdir := false }

/-- `ptable` (proc.c:17-20) with `nextpid` and `initproc`. -/
structure Ptable where
  proc : Fin nproc → Proc
  nextpid : Int
  initproc : Option (Fin nproc)

/-- The table before `userinit`: zeroed slots and `nextpid = 1`. -/
def Ptable.zero : Ptable := { proc := fun _ => Proc.zero, nextpid := 1, initproc := none }

/-- Overwrite one slot. -/
def Ptable.set (t : Ptable) (i : Fin nproc) (p : Proc) : Ptable :=
  { t with proc := Function.update t.proc i p }

/-- The scan of `allocproc` (proc.c:88-90): the first `UNUSED` slot. -/
def Ptable.findUnused (t : Ptable) : Option (Fin nproc) :=
  (List.finRange nproc).find? fun i => (t.proc i).state = .unused

/-- `allocproc` (proc.c:80-124): take the first `UNUSED` slot as an `EMBRYO` with the next
pid, then allocate its kernel stack; `kstackOk` says whether that `kalloc` succeeds.
On its failure the slot goes back to `UNUSED` and keeps the pid. -/
def allocproc (t : Ptable) (kstackOk : Bool) : Ptable × Option (Fin nproc) :=
  match t.findUnused with
  | none => (t, none)
  | some i =>
      let t := { t.set i { t.proc i with state := .embryo, pid := t.nextpid } with
        nextpid := t.nextpid + 1 }
      if kstackOk then (t.set i { t.proc i with kstack := true }, some i)
      else (t.set i { t.proc i with state := .unused, kstack := false }, none)

/-- `wakeup1(chan)` (proc.c:483-491): every slot sleeping on `chan` becomes runnable. -/
def wakeup1 (t : Ptable) (chan : Option Chan) : Ptable :=
  { t with proc := fun i =>
      if (t.proc i).state = .sleeping ∧ (t.proc i).chan = chan then
        { t.proc i with state := .runnable }
      else t.proc i }

/-- `userinit` (proc.c:127-161) on the table: the first process, `initproc`, runnable
with a page directory; `none` is the crash of a failed `allocproc`. -/
def userinit (t : Ptable) : Option Ptable :=
  match allocproc t true with
  | (t, some p) => some { t.set p { t.proc p with pgdir := true, state := .runnable } with
      initproc := some p }
  | (_, none) => none

/-- `fork` (proc.c:187-238) by the process in slot `cur`; `kstackOk` and `copyOk` say
whether the `kalloc` of the child's kernel stack and `copyuvm` succeed. -/
def fork (t : Ptable) (cur : Fin nproc) (kstackOk copyOk : Bool) : Ptable × Int :=
  match allocproc t kstackOk with
  | (t, none) => (t, -1)
  | (t, some np) =>
      if copyOk then
        (t.set np { t.proc np with pgdir := true, parent := some cur, state := .runnable },
          (t.proc np).pid)
      else
        -- proc.c:207-210: free the stack and give the slot back, pid and all
        (t.set np { t.proc np with kstack := false, pgdir := false, state := .unused }, -1)

/-- One iteration of the reparenting loop of `exit` (proc.c:272-277). -/
def reparentStep (cur : Fin nproc) (t : Ptable) (i : Fin nproc) : Ptable :=
  if (t.proc i).parent = some cur then
    let t := t.set i { t.proc i with parent := t.initproc }
    if (t.proc i).state = .zombie then wakeup1 t (t.initproc.map Chan.proc) else t
  else t

/-- `exit` (proc.c:241-283) by the process in slot `cur`, up to its `sched`; `none` is
`panic("init exiting")`. -/
def exit (t : Ptable) (cur : Fin nproc) : Option Ptable :=
  if t.initproc = some cur then none
  else
    let t := wakeup1 t ((t.proc cur).parent.map Chan.proc)
    let t := (List.finRange nproc).foldl (reparentStep cur) t
    some (t.set cur { t.proc cur with state := .zombie })

/-- The slot a reaped child is left in (proc.c:305-313). -/
def Proc.reaped (p : Proc) : Proc :=
  { p with
    kstack := false, pgdir := false, pid := 0, parent := none, killed := 0, state := .unused }

/-- One pass of the loop of `wait` (proc.c:288-329) by the process in slot `cur`: the
pid of the first zombie child, reaped; `-1` with no child or when killed; otherwise the
caller goes to sleep on its own slot, and `none` is returned. -/
def wait (t : Ptable) (cur : Fin nproc) : Ptable × Option Int :=
  match (List.finRange nproc).find? (fun i =>
      (t.proc i).parent = some cur ∧ (t.proc i).state = .zombie) with
  | some c => (t.set c (t.proc c).reaped, some (t.proc c).pid)
  | none =>
      if !(List.finRange nproc).any (fun i => (t.proc i).parent = some cur) ||
          (t.proc cur).killed ≠ 0 then (t, some (-1))
      else (t.set cur { t.proc cur with chan := some (.proc cur), state := .sleeping }, none)

/-- `kill(pid)` (proc.c:506-524): the first slot whose pid is `pid`, whatever its
state, is marked killed and woken. -/
def kill (t : Ptable) (pid : Int) : Ptable × Int :=
  match (List.finRange nproc).find? (fun i => (t.proc i).pid = pid) with
  | some i =>
      (t.set i { t.proc i with
          killed := 1,
          state := if (t.proc i).state = .sleeping then .runnable else (t.proc i).state }, 0)
  | none => (t, -1)

/-- The first half of `sleep(chan, lk)` (proc.c:438-463) by the process in slot `cur`. -/
def sleep (t : Ptable) (cur : Fin nproc) (chan : Chan) : Ptable :=
  t.set cur { t.proc cur with chan := some chan, state := .sleeping }

/-- `yield` (proc.c:401-407) by the process in slot `cur`. -/
def yield (t : Ptable) (cur : Fin nproc) : Ptable :=
  t.set cur { t.proc cur with state := .runnable }

/-- The scheduler (proc.c:338-370) switches to the runnable process in slot `i`. -/
def schedule (t : Ptable) (i : Fin nproc) : Ptable :=
  if (t.proc i).state = .runnable then t.set i { t.proc i with state := .running } else t

/-- One atomic step on the process table. -/
inductive ProcOp where
  | fork (cur : Fin nproc) (kstackOk copyOk : Bool)
  | exit (cur : Fin nproc)
  | wait (cur : Fin nproc)
  | kill (cur : Fin nproc) (pid : Int)
  | sleep (cur : Fin nproc) (chan : Chan)
  | wakeup (chan : Chan)
  | yield (cur : Fin nproc)
  | schedule (i : Fin nproc)
  deriving DecidableEq, Repr

/-- What a step returns. -/
inductive ProcOut where
  /-- The system call returned this value. -/
  | ret (v : Int)
  /-- `panic("init exiting")`. -/
  | panic
  /-- Nothing returned: the caller is not running, went to sleep, or the step is the
  scheduler's. -/
  | none
  deriving DecidableEq, Repr

/-- The caller of a system call is the running process of its CPU. -/
def Ptable.running (t : Ptable) (cur : Fin nproc) : Bool := (t.proc cur).state = .running

/-- One step of the process table. -/
def procStep (t : Ptable) : ProcOp → Ptable × ProcOut
  | .fork cur kstackOk copyOk =>
      if t.running cur then
        let r := fork t cur kstackOk copyOk
        (r.1, .ret r.2)
      else (t, .none)
  | .exit cur =>
      if t.running cur then
        match exit t cur with
        | some t' => (t', .none)
        | none => (t, .panic)
      else (t, .none)
  | .wait cur =>
      if t.running cur then
        match wait t cur with
        | (t', some v) => (t', .ret v)
        | (t', none) => (t', .none)
      else (t, .none)
  | .kill cur pid =>
      if t.running cur then
        let r := kill t pid
        (r.1, .ret r.2)
      else (t, .none)
  | .sleep cur chan => if t.running cur then (sleep t cur chan, .none) else (t, .none)
  | .wakeup chan => (wakeup1 t (some chan), .none)
  | .yield cur => if t.running cur then (yield t cur, .none) else (t, .none)
  | .schedule i => (schedule t i, .none)

/-- Run a list of steps on the process table. -/
def procRun (t : Ptable) (ops : List ProcOp) : Ptable × List ProcOut :=
  Run.run procStep t ops

end Xv6
