import Xv6.Model.Param
import Xv6.Lib.RingBuf
import Xv6.Lib.Run

/-!
# Pipes (pipe.c)

`struct pipe` with its two free-running `uint` counters and the bodies of
`pipewrite` and `piperead` as atomic steps.  Every step below runs under `p->lock`
from its acquisition (or its reacquisition at the end of a `sleep`) to its release
(or the release inside the next `sleep`):

* `pipewriteByte` is one iteration of `pipewrite`'s outer loop: the full test, and
  either the store of one byte, or the return of `-1`, or going to sleep;
* `piperead` is one attempt of a `piperead` call: the empty test, and either the
  return of `-1`, or going to sleep, or the whole copy loop, which runs without
  releasing the lock;
* `pipeclose` clears one of the open flags.

The calls interleave arbitrarily: a run is any list of `PipeOp`s.  `wakeup` only
affects scheduling and is not modelled; a sleeping call retries its step later.
-/

set_option autoImplicit false

namespace Xv6

/-- `PIPESIZE` (pipe.c:11). -/
def pipeSize : Nat := 512

/-- `struct pipe` (pipe.c:13-20), without its lock. -/
structure Pipe where
  /-- `data[PIPESIZE]`, indexed by slot. -/
  data : Nat → UInt8
  /-- `nread`: bytes read, a `uint`. -/
  nread : Nat
  /-- `nwrite`: bytes written, a `uint`. -/
  nwrite : Nat
  /-- `readopen`: the read end is still open. -/
  readopen : Bool
  /-- `writeopen`: the write end is still open. -/
  writeopen : Bool

/-- The state `pipealloc` (pipe.c:22-57) leaves behind on success; the data array is
whatever the freshly allocated page holds. -/
def pipealloc (junk : Nat → UInt8) : Pipe :=
  { data := junk, nread := 0, nwrite := 0, readopen := true, writeopen := true }

/-- What one iteration of `pipewrite`'s loop does. -/
inductive WriteStep where
  /-- The byte was stored; the loop goes on with the next byte. -/
  | stored (p : Pipe)
  /-- The pipe is full: wake the readers and sleep on `nwrite`. -/
  | sleep
  /-- The pipe is full and the reader is gone or the caller was killed: `return -1`. -/
  | fail

/-- One iteration of `pipewrite`'s loop (pipe.c:84-93) for the byte `b`. -/
def pipewriteByte (p : Pipe) (b : UInt8) (killed : Bool) : WriteStep :=
  if p.nwrite = (p.nread + pipeSize) % uintMod then
    if p.readopen = false ∨ killed then .fail else .sleep
  else
    .stored { p with
      data := RingBuf.write p.data (p.nwrite % pipeSize) b
      nwrite := RingBuf.inc uintMod p.nwrite }

/-- `piperead`'s copy loop (pipe.c:113-117) for at most `k` bytes: stop early when the
pipe is empty. -/
def pipereadCopy (p : Pipe) : Nat → Pipe × List UInt8
  | 0 => (p, [])
  | k + 1 =>
      if p.nread = p.nwrite then (p, [])
      else
        let r := pipereadCopy { p with nread := RingBuf.inc uintMod p.nread } k
        (r.1, p.data (p.nread % pipeSize) :: r.2)

/-- What one attempt of a `piperead` call does. -/
inductive ReadStep where
  /-- The copy loop ran: the call returns the number of bytes copied. -/
  | done (p : Pipe) (bytes : List UInt8)
  /-- The pipe is empty and the write end open: sleep on `nread`. -/
  | sleep
  /-- The pipe is empty, the write end open and the caller killed: `return -1`. -/
  | fail

/-- One attempt of `piperead(p, addr, n)` (pipe.c:100-121). -/
def piperead (p : Pipe) (n : Int) (killed : Bool) : ReadStep :=
  if p.nread = p.nwrite ∧ p.writeopen = true then
    if killed then .fail else .sleep
  else
    let r := pipereadCopy p n.toNat
    .done r.1 r.2

/-- `pipeclose(p, writable)` (pipe.c:59-75): clear the open flag of one end. -/
def pipeclose (p : Pipe) (writable : Bool) : Pipe :=
  if writable then { p with writeopen := false } else { p with readopen := false }

/-- One atomic step of some process on the pipe. -/
inductive PipeOp where
  /-- The next iteration of a `pipewrite` call, with the byte it writes. -/
  | write (b : UInt8) (killed : Bool)
  /-- An attempt of a `piperead` call for `n` bytes. -/
  | read (n : Int) (killed : Bool)
  /-- The last file of one end is closed. -/
  | close (writable : Bool)

/-- What a step returns to its caller. -/
inductive PipeOut where
  /-- A `pipewrite` iteration stored its byte. -/
  | accepted (b : UInt8)
  /-- A `piperead` call returned these bytes. -/
  | returned (bytes : List UInt8)
  /-- The call returned `-1`. -/
  | failed
  /-- The caller sleeps, or the step returns nothing. -/
  | none

/-- The pipe after one step, and what the step returns. -/
def pipeStep (p : Pipe) : PipeOp → Pipe × PipeOut
  | .write b killed =>
      match pipewriteByte p b killed with
      | .stored p' => (p', .accepted b)
      | .sleep => (p, .none)
      | .fail => (p, .failed)
  | .read n killed =>
      match piperead p n killed with
      | .done p' bytes => (p', .returned bytes)
      | .sleep => (p, .none)
      | .fail => (p, .failed)
  | .close writable => (pipeclose p writable, .none)

/-- The bytes a step takes into the pipe. -/
def PipeOut.accepted? : PipeOut → List UInt8
  | .accepted b => [b]
  | _ => []

/-- The bytes a step hands to a reader. -/
def PipeOut.returned? : PipeOut → List UInt8
  | .returned bytes => bytes
  | _ => []

/-- Run a list of steps from a pipe. -/
def pipeRun (p : Pipe) (ops : List PipeOp) : Pipe × List PipeOut :=
  Run.run pipeStep p ops

end Xv6
