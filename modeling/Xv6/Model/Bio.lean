import Xv6.Model.Param
import Xv6.Lib.DList
import Xv6.Lib.Run

/-!
# Buffer cache (bio.c)

The `NBUF` buffers of `bcache` with their `prev`/`next` LRU ring through the sentinel
`bcache.head`, and `bget`, the second half of `bread`, `bwrite` and `brelse` as atomic
steps.  Each `bcache.lock` critical section is one step (`bget`, the list and count
update of `brelse`); the flag updates of `bread`, `bwrite` and `log_write` are made by
the caller that holds the buffer.

Buffers are the nodes `0 .. NBUF-1` of `DList.Links Nat` and the sentinel is node
`NBUF`.  The two loops of `bget` follow the pointers until they are back at the
sentinel; they are run with room for `NBUF + 1` nodes, which is the whole ring.
Buffer data, the sleep-locks and the disk queue link are not modelled.

A caller is represented, between its `bget` and its `brelse`, by the buffer it holds;
the callers form the list `BioSys.holds` and a step names its caller by position.
-/

set_option autoImplicit false

namespace Xv6

/-- `struct buf` (buf.h) without its data, sleep-lock and links. -/
structure Buf where
  /-- `B_VALID`: the data has been read from disk. -/
  valid : Bool
  /-- `B_DIRTY`: the data must be written to disk (set by `log_write`). -/
  dirty : Bool
  dev : Nat
  blockno : Nat
  refcnt : Nat

/-- A zero-initialised `struct buf`. -/
def Buf.zero : Buf := { valid := false, dirty := false, dev := 0, blockno := 0, refcnt := 0 }

/-- The sentinel `bcache.head`, numbered after the buffers. -/
def bcacheHead : Nat := nbuf

/-- `bcache` (bio.c:29-36) without its lock. -/
structure Bcache where
  buf : Nat → Buf
  links : DList.Links Nat

/-- Overwrite one buffer's fields. -/
def Bcache.setBuf (bc : Bcache) (b : Nat) (x : Buf) : Bcache :=
  { bc with buf := Function.update bc.buf b x }

/-- `binit` (bio.c:38-55) on the zero-initialised `bcache`; its pointers start as
`links0`, whatever they hold. -/
def binit (links0 : DList.Links Nat) : Bcache :=
  let L := (links0.setPrev bcacheHead bcacheHead).setNext bcacheHead bcacheHead
  { buf := fun _ => Buf.zero
    links := (List.range nbuf).foldl (fun L b => DList.pushFront L bcacheHead b) L }

/-- The lookup test of `bget`: `b->dev == dev && b->blockno == blockno`. -/
def Bcache.holdsBlock (bc : Bcache) (dev blockno : Nat) (b : Nat) : Bool :=
  (bc.buf b).dev == dev && (bc.buf b).blockno == blockno

/-- The recycle test of `bget`: `b->refcnt == 0 && (b->flags & B_DIRTY) == 0`. -/
def Bcache.recyclable (bc : Bcache) (b : Nat) : Bool :=
  (bc.buf b).refcnt == 0 && !(bc.buf b).dirty

/-- `bget(dev, blockno)` (bio.c:60-100): the buffer it returns, or `none` for
`panic("bget: no buffers")`. -/
def bget (bc : Bcache) (dev blockno : Nat) : Option (Bcache × Nat) :=
  match DList.scan bc.links.next bcacheHead (bc.holdsBlock dev blockno) (nbuf + 1)
      (bc.links.next bcacheHead) with
  | some b => some (bc.setBuf b { bc.buf b with refcnt := (bc.buf b).refcnt + 1 }, b)
  | none =>
      match DList.scan bc.links.prev bcacheHead bc.recyclable (nbuf + 1)
          (bc.links.prev bcacheHead) with
      | some b =>
          some (bc.setBuf b
            { dev := dev, blockno := blockno, valid := false, dirty := false, refcnt := 1 }, b)
      | none => none

/-- The rest of `bread` (bio.c:109-111): `iderw` reads a buffer that is not valid, and
leaves it valid and clean. -/
def breadFill (bc : Bcache) (b : Nat) : Bcache :=
  if (bc.buf b).valid then bc
  else bc.setBuf b { bc.buf b with valid := true, dirty := false }

/-- `bwrite` (bio.c:116-122): set `B_DIRTY`; `iderw` writes the block and leaves the
buffer valid and clean. -/
def bwrite (bc : Bcache) (b : Nat) : Bcache :=
  bc.setBuf b { bc.buf b with valid := true, dirty := false }

/-- The pin of `log_write` (log.c:231): `b->flags |= B_DIRTY`. -/
def logPin (bc : Bcache) (b : Nat) : Bcache :=
  bc.setBuf b { bc.buf b with dirty := true }

/-- `brelse` (bio.c:126-147): drop one reference; the last one moves the buffer to the
front of the ring. -/
def brelse (bc : Bcache) (b : Nat) : Bcache :=
  let bc := bc.setBuf b { bc.buf b with refcnt := (bc.buf b).refcnt - 1 }
  if (bc.buf b).refcnt = 0 then
    { bc with links := DList.pushFront (DList.unlink bc.links b) bcacheHead b }
  else bc

/-- The buffer cache and the callers that hold a buffer. -/
structure BioSys where
  bc : Bcache
  /-- The buffer of each caller between its `bget` and its `brelse`. -/
  holds : List Nat

/-- The cache after `binit`, with no caller. -/
def BioSys.init (links0 : DList.Links Nat) : BioSys := { bc := binit links0, holds := [] }

/-- One atomic step on the buffer cache. -/
inductive BioOp where
  /-- A new caller enters `bread(dev, blockno)` and runs `bget`. -/
  | get (dev blockno : Nat)
  /-- Caller `k` finishes its `bread`. -/
  | fill (k : Nat)
  /-- Caller `k` calls `bwrite`. -/
  | write (k : Nat)
  /-- Caller `k` calls `log_write`, which pins its buffer. -/
  | pin (k : Nat)
  /-- Caller `k` calls `brelse`. -/
  | rel (k : Nat)

/-- What a step returns. -/
inductive BioOut where
  /-- `bget` returned this buffer. -/
  | got (b : Nat)
  /-- `panic("bget: no buffers")`. -/
  | panic
  | none

/-- Apply `f` to the buffer of caller `k`, if there is one. -/
def BioSys.onHeld (s : BioSys) (k : Nat) (f : Bcache → Nat → Bcache) : BioSys :=
  match s.holds[k]? with
  | some b => { s with bc := f s.bc b }
  | none => s

/-- One step of the buffer cache. -/
def bioStep (s : BioSys) : BioOp → BioSys × BioOut
  | .get dev blockno =>
      match bget s.bc dev blockno with
      | some (bc, b) => ({ bc := bc, holds := b :: s.holds }, .got b)
      | none => (s, .panic)
  | .fill k => (s.onHeld k breadFill, .none)
  | .write k => (s.onHeld k bwrite, .none)
  | .pin k => (s.onHeld k logPin, .none)
  | .rel k =>
      match s.holds[k]? with
      | some b => ({ bc := brelse s.bc b, holds := s.holds.eraseIdx k }, .none)
      | none => (s, .none)

/-- Run a list of steps on the buffer cache. -/
def bioRun (s : BioSys) (ops : List BioOp) : BioSys × List BioOut :=
  Run.run bioStep s ops

end Xv6
