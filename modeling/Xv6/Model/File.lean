import Xv6.Model.SwapFile

/-!
# Files of inodes (file.c, fs.c)

An inode-backed `struct file`: its flags, its inode and its offset, with `fileread`,
`filewrite` and `fileseek` (file.c:92-196) and the `readi` and `writei` (fs.c:455-511)
they call.  The swap file of `Xv6.SwapFile` is one such file; this module has every
branch the swap-file model leaves out: device inodes, signed counts and offsets, and
the three `whence` values of `fileseek`.

C's conversions are explicit.  An `int` count or `off_t` offset handed to a `uint`
parameter or compared with a `uint` becomes `toUint` of it, and a sum of `uint`s is
reduced modulo `uintMod`.

A device inode calls the `read` or `write` of its `devsw` entry, of which the model
keeps the count it returns; the device's own state and the bytes it moves are not
modelled.  Pipe files are modelled in `Xv6.Pipe`, and the `ilock`, `begin_op` and
`ftable.lock` around these calls change nothing here.
-/

set_option autoImplicit false

namespace Xv6

open Window

/-- `NDEV` (param.h:7). -/
def ndev : Nat := 10

/-- `SEEK_SET` (defs.h:35). -/
def seekSet : Int := 0

/-- `SEEK_CUR` (defs.h:36). -/
def seekCur : Int := 1

/-- `SEEK_END` (defs.h:37). -/
def seekEnd : Int := 2

/-- An entry of `devsw` (file.h:28-31): what the device's `read` and `write` return for
a request of `n` bytes. -/
structure Devsw where
  read : Nat → Int
  write : Nat → Int

/-- `T_DIR`, `T_FILE` and `T_DEV` (stat.h), a device with its major number. -/
inductive InodeType where
  | dir
  | file
  | dev (major : Int)

/-- `struct inode` (file.h:12-25): the fields `readi` and `writei` use. -/
structure Inode where
  type : InodeType
  size : Nat
  data : Nat → UInt8

/-- An inode-backed `struct file` (file.h:1-9). -/
structure File where
  readable : Bool
  writable : Bool
  ip : Inode
  off : Nat

section Devices

variable (devsw : Nat → Option Devsw)

namespace Inode

/-- The `devsw` entry `readi` and `writei` call for a device with major number `major`,
when `0 <= major < NDEV` and the entry is filled. -/
def device (major : Int) : Option Devsw :=
  if major < 0 ∨ (ndev : Int) ≤ major then none else devsw major.toNat

/-- `readi(ip, dst, off, n)` (fs.c:455-477): the count it returns (`-1` for failure) and
`dst` with the bytes read. -/
def readi (ip : Inode) (dst : Nat → UInt8) (off n : Nat) : Int × (Nat → UInt8) :=
  match ip.type with
  | .dev major =>
      match device devsw major with
      | none => (-1, dst)
      | some d => (d.read n, dst)
  | _ =>
      if off > ip.size ∨ uintMod ≤ off + n then (-1, dst)
      else
        let n := if off + n > ip.size then ip.size - off else n
        (n, overlay dst 0 n fun a => ip.data (off + a))

/-- `writei(ip, src, off, n)` (fs.c:483-511): the inode after the write and the count it
returns (`-1` for failure). -/
def writei (ip : Inode) (src : Nat → UInt8) (off n : Nat) : Inode × Int :=
  match ip.type with
  | .dev major =>
      match device devsw major with
      | none => (ip, -1)
      | some d => (ip, d.write n)
  | _ =>
      if off > ip.size ∨ uintMod ≤ off + n then (ip, -1)
      else if off + n > maxfile * bsize then (ip, -1)
      else
        ({ ip with
            data := overlay ip.data off n src
            size := if 0 < n ∧ off + n > ip.size then off + n else ip.size }, n)

end Inode

namespace File

/-- `f->off += r` for a positive count `r`, in `uint` arithmetic. -/
def advance (f : File) (r : Int) : File :=
  if r > 0 then { f with off := (f.off + r.toNat) % uintMod } else f

/-- `fileread(f, dst, n)` (file.c:92-108): the file, the count and `dst` after the read. -/
def fileread (f : File) (dst : Nat → UInt8) (n : Int) : File × Int × (Nat → UInt8) :=
  if f.readable = false then (f, -1, dst)
  else
    let (r, dst) := f.ip.readi devsw dst f.off (toUint n)
    (f.advance r, r, dst)

/-- The loop of `filewrite` (file.c:130-146) from byte `i` of `src`, with `fuel` passes
left: the file and how far it got, or the `short filewrite` panic. -/
def filewriteLoop (src : Nat → UInt8) (n : Int) : Nat → File → Int → Except String (File × Int)
  | 0, f, i => .ok (f, i)
  | fuel + 1, f, i =>
      if i < n then
        let n1 := min (n - i) maxWrite
        let (ip, r) := f.ip.writei devsw (fun a => src (i.toNat + a)) f.off (toUint n1)
        let f := { f with ip := ip }.advance r
        if r < 0 then .ok (f, i)
        else if r ≠ n1 then throw "short filewrite"
        else filewriteLoop src n fuel f (i + r)
      else .ok (f, i)

/-- `filewrite(f, src, n)` (file.c:112-150): `n`, or `-1` when the file is not writable or a
chunk failed.  Each pass that goes on writes at least one byte, so `n` passes are
enough. -/
def filewrite (f : File) (src : Nat → UInt8) (n : Int) : Except String (File × Int) :=
  if f.writable = false then .ok (f, -1)
  else do
    let (f, i) ← filewriteLoop devsw src n n.toNat f 0
    pure (f, if i = n then n else -1)

end File

end Devices

namespace File

/-- `fileseek(f, offset, whence)` (file.c:152-196).  Every comparison converts the signed
`offset` to `uint`.  The file is inode-backed, so the `f->type == FD_INODE` test of
`SEEK_END` holds. -/
def fileseek (f : File) (offset whence : Int) : File × Int :=
  let size := f.ip.size
  if whence = seekSet then
    if toUint offset > size then (f, -1) else ({ f with off := toUint offset }, 0)
  else if whence = seekCur then
    if (f.off + toUint offset) % uintMod > size then (f, -1)
    else ({ f with off := (f.off + toUint offset) % uintMod }, 0)
  else if whence = seekEnd then
    if toUint offset > size then (f, -1)
    else ({ f with off := (size + toUint offset) % uintMod }, 0)
  else (f, -1)

end File

/-- A call a process makes on an open file. -/
inductive FileOp where
  | read (dst : Nat → UInt8) (n : Int)
  | write (src : Nat → UInt8) (n : Int)
  | seek (offset whence : Int)

/-- One call, with the count or status it returns. -/
def fileStep (devsw : Nat → Option Devsw) (f : File) : FileOp → Except String (File × Int)
  | .read dst n => .ok ((f.fileread devsw dst n).1, (f.fileread devsw dst n).2.1)
  | .write src n => f.filewrite devsw src n
  | .seek offset whence => .ok (f.fileseek offset whence)

end Xv6
