import Xv6.Model.Param

/-!
# The redo log (log.c)

A transaction's blocks are recorded by `log_write` in the in-memory header `log.lh`, with
repeated block numbers absorbed.  `commit` then issues its disk writes one block at a
time: the log blocks (`write_log`), the header (`write_head`, the commit point), the home
blocks (`install_trans`) and the cleared header.  `recover_from_log` replays the
committed log at boot.

Disk blocks hold values of an arbitrary type `α`; the header block at `log.start` is
kept decoded, as the `struct logheader` it holds.  The buffer cache is seen through
`mem`, what `bread` returns for each block: `commit` starts from the cache with the
transaction's new contents, and recovery from a fresh cache, in which every block reads
as the disk holds it.  Each `LogWrite` is one `bwrite`, with the `bread`s and `memmove`
that prepare it; a crash keeps the disk after some prefix of them.
-/

set_option autoImplicit false

namespace Xv6

/-- `struct logheader` (log.c:35-38). -/
structure LogHeader where
  n : Nat
  block : Nat → Nat

/-- The disk: the header block, decoded, and every block's contents. -/
structure Disk (α : Type) where
  head : LogHeader
  blk : Nat → α

/-- What `commit` and recovery act on: the cached contents and the disk. -/
structure LogMachine (α : Type) where
  mem : Nat → α
  disk : Disk α

/-- The absorption loop of `log_write` (log.c:225-228): the first slot holding `blockno`,
or `n`. -/
def logAbsorb (lh : LogHeader) (blockno : Nat) : Nat :=
  ((List.range lh.n).find? (fun i => lh.block i == blockno)).getD lh.n

/-- `log_write(b)` (log.c:213-233) for a buffer holding `blockno`, in a transaction
(`log.outstanding >= 1`); `none` is `panic("too big a transaction")`. -/
def logWrite (size : Nat) (lh : LogHeader) (blockno : Nat) : Option LogHeader :=
  if lh.n ≥ logSize ∨ lh.n + 1 ≥ size then none
  else
    let i := logAbsorb lh blockno
    some { n := if i = lh.n then lh.n + 1 else lh.n, block := Function.update lh.block i blockno }

/-- The `log_write`s of a transaction, in order. -/
def logWrites (size : Nat) (lh : LogHeader) : List Nat → Option LogHeader
  | [] => some lh
  | b :: bs => (logWrite size lh b).bind fun lh' => logWrites size lh' bs

/-- One `bwrite` of the log layer. -/
inductive LogWrite where
  /-- Iteration `tail` of `write_log`: the log block `start + tail + 1`. -/
  | log (tail : Nat)
  /-- `write_head` with `log.lh.n = n`. -/
  | head (n : Nat)
  /-- Iteration `tail` of `install_trans`: the home block `lh.block[tail]`. -/
  | install (tail : Nat)

/-- `write_head` (log.c:100-111) with `log.lh.n = n`: the header block takes `n` and the
first `n` block numbers; its other slots keep what they held. -/
def writeHead {α : Type} (lh : LogHeader) (n : Nat) (d : Disk α) : Disk α :=
  { d with head := { n := n, block := fun i => if i < n then lh.block i else d.head.block i } }

/-- One `bwrite` of the log layer, with its `bread`s and `memmove`; `lh` is `log.lh` and
`start` is `log.start`. -/
def logStep {α : Type} (start : Nat) (lh : LogHeader) (st : LogMachine α) :
    LogWrite → LogMachine α
  | .log tail =>
      -- log.c:180-184: copy the cached home block into log block `tail` and write it
      let v := st.mem (lh.block tail)
      { mem := Function.update st.mem (start + tail + 1) v
        disk := { st.disk with blk := Function.update st.disk.blk (start + tail + 1) v } }
  | .head n => { st with disk := writeHead lh n st.disk }
  | .install tail =>
      -- log.c:76-80: copy log block `tail` into its home block and write it
      let v := st.mem (start + tail + 1)
      { mem := Function.update st.mem (lh.block tail) v
        disk := { st.disk with blk := Function.update st.disk.blk (lh.block tail) v } }

/-- Issue a list of writes. -/
def runLog {α : Type} (start : Nat) (lh : LogHeader) (st : LogMachine α)
    (ws : List LogWrite) : LogMachine α :=
  ws.foldl (logStep start lh) st

/-- The writes of `commit` (log.c:193-202) for a header of `n` blocks. -/
def commitWrites (n : Nat) : List LogWrite :=
  if 0 < n then
    (List.range n).map .log ++ [.head n] ++ (List.range n).map .install ++ [.head 0]
  else []

/-- The writes of `recover_from_log` (log.c:114-120) for an on-disk header of `n` blocks:
`install_trans`, then the cleared header. -/
def recoverWrites (n : Nat) : List LogWrite := (List.range n).map .install ++ [.head 0]

/-- The disk after a crash that lets the first `k` writes of `commit` through. -/
def commitCrash {α : Type} (start : Nat) (lh : LogHeader) (st : LogMachine α) (k : Nat) :
    Disk α :=
  (runLog start lh st ((commitWrites lh.n).take k)).disk

/-- The disk after a crash that lets the first `j` writes of `recover_from_log` through;
`read_head` loads `log.lh` from the disk and every `bread` reads the disk. -/
def recoverCrash {α : Type} (start : Nat) (d : Disk α) (j : Nat) : Disk α :=
  (runLog start d.head ⟨d.blk, d⟩ ((recoverWrites d.head.n).take j)).disk

/-- `initlog`'s `recover_from_log` (log.c:114-120), run to the end at boot. -/
def recoverFromLog {α : Type} (start : Nat) (d : Disk α) : Disk α :=
  (runLog start d.head ⟨d.blk, d⟩ (recoverWrites d.head.n)).disk

/-! ## Admission of operations (log.c:124-174, 213-233) -/

/-- The fields of `struct log` (log.c:40-48) that `begin_op`, `end_op` and `log_write`
read and write: `log.size`, `outstanding`, `committing` and the in-memory header. -/
structure LogCtl where
  size : Nat
  outstanding : Nat
  committing : Bool
  lh : LogHeader

/-- One pass of `begin_op`'s loop (log.c:124-140): the log with one more outstanding
operation, or `none` when the caller has to sleep, during a commit or when the
operation might exhaust the log. -/
def beginOp (st : LogCtl) : Option LogCtl :=
  if st.committing then none
  else if st.lh.n + (st.outstanding + 1) * maxOpBlocks > logSize then none
  else some { st with outstanding := st.outstanding + 1 }

/-- `log_write(b)` (log.c:213-233) for a buffer holding `blockno`. -/
def logWriteOp (st : LogCtl) (blockno : Nat) : Except String LogCtl :=
  match logWrite st.size st.lh blockno with
  | none => throw "too big a transaction"
  | some lh => if st.outstanding < 1 then throw "log_write outside of trans" else pure { st with lh := lh }

/-- `end_op` (log.c:144-172).  The last outstanding operation commits, which empties
the header; the writes of `commit` are `commitWrites`, and `committing` is set around
them, so no other operation starts in between. -/
def endOp (st : LogCtl) : Except String LogCtl :=
  let st := { st with outstanding := st.outstanding - 1 }
  if st.committing then throw "log.committing"
  else if st.outstanding = 0 then pure { st with lh := { st.lh with n := 0 } }
  else pure st

end Xv6
