import Xv6.Model.Param
import Xv6.Lib.Window

/-!
# The swap file (fs.c, file.c)

The swap file is one inode opened as `swapfile.f`.  Its first `bmap_size` bytes are a
bitmap of the pages in use, and page `i` is stored at offset `bmap_size + i * PGSIZE`.
The functions here are the swap-file primitives of fs.c and the file and inode
operations they go through: `fileseek`, `fileread`, `filewrite` (in chunks of at most
three blocks), `filetruncate`, `readi` and `writei`.

The inode is its size and its bytes.  Its blocks are not modelled: the buffer cache and
the disk return the last data written to each block, and `bmap` finds a block for every
offset below `MAXFILE * BSIZE`, the bound `writei` checks.  Every check that `readi`,
`writei` and `fileseek` make on offsets and sizes is modelled.  A page's bytes and a
buffer are functions from their offsets.

Return values the callers ignore stay in the model, and each `panic` is an `Except`
error carrying its message.
-/

set_option autoImplicit false

namespace Xv6

open Window

/-- `BSIZE` (fs.h:6). -/
def bsize : Nat := 512

/-- `NDIRECT` (fs.h:26). -/
def ndirect : Nat := 12

/-- `NINDIRECT` (fs.h:30). -/
def nindirect : Nat := bsize / 4

/-- `MAXFILE` (fs.h:31), in blocks. -/
def maxfile : Nat := ndirect + nindirect

/-- The largest chunk `filewrite` hands to `writei` (file.c:128), and the size of
`filetruncate`'s `zero_array` (file.c:201-203). -/
def maxWrite : Nat := (maxOpBlocks - 1 - 1 - 2) / 2 * 512

/-- `swapfile` (fs.c:665-671), with the inode and the offset of `swapfile.f`. -/
structure SwapFile where
  /-- `swapfile.f->ip->size`. -/
  size : Nat
  /-- The inode's bytes, by offset. -/
  data : Nat → UInt8
  /-- `swapfile.f->off`. -/
  off : Nat
  /-- `swapfile.readbuf`, the page that bitmap chunks are read into. -/
  readbuf : Nat → UInt8
  /-- `swapfile.bmap_size`. -/
  bmapSize : Nat

namespace SwapFile

/-- `writei(ip, src, off, n)` (fs.c:483-511) on the swap inode: the inode after the write,
or `none` for `-1`. -/
def writei (f : SwapFile) (src : Nat → UInt8) (off n : Nat) : Option SwapFile :=
  if off > f.size ∨ uintMod ≤ off + n then none
  else if off + n > maxfile * bsize then none
  else some { f with
    data := overlay f.data off n src
    size := if 0 < n ∧ off + n > f.size then off + n else f.size }

/-- `readi(ip, dst, off, n)` (fs.c:455-477) on the swap inode: how many bytes it copies
from `off` on, or `none` for `-1`. -/
def readi (f : SwapFile) (off n : Nat) : Option Nat :=
  if off > f.size ∨ uintMod ≤ off + n then none
  else some (if off + n > f.size then f.size - off else n)

/-- The loop of `filewrite` (file.c:130-146) from byte `i` of `src`, with `fuel` passes
left: the file, and how far it got. -/
def filewriteLoop (src : Nat → UInt8) (n : Nat) : Nat → SwapFile → Nat → SwapFile × Nat
  | 0, f, i => (f, i)
  | fuel + 1, f, i =>
      if i < n then
        let n1 := min (n - i) maxWrite
        -- `writei` on an inode either fails or writes all `n1` bytes, so the
        -- `short filewrite` panic cannot happen
        match f.writei (fun a => src (i + a)) f.off n1 with
        | none => (f, i)
        | some f' => filewriteLoop src n fuel { f' with off := f.off + n1 } (i + n1)
      else (f, i)

/-- `filewrite(f, src, n)` (file.c:112-150) on the swap file: `n`, or `-1` when a chunk
failed.  Each pass writes at least one byte, so `n` passes are enough. -/
def filewrite (f : SwapFile) (src : Nat → UInt8) (n : Nat) : SwapFile × Int :=
  let r := filewriteLoop src n n f 0
  (r.1, if r.2 = n then n else -1)

/-- `fileread(f, dst, n)` (file.c:92-108) on the swap file: the file, the count `readi`
returned (`-1` for failure), and `dst` with the bytes read. -/
def fileread (f : SwapFile) (dst : Nat → UInt8) (n : Nat) : SwapFile × Int × (Nat → UInt8) :=
  match f.readi f.off n with
  | none => (f, -1, dst)
  | some r => ({ f with off := f.off + r }, r, overlay dst 0 r fun a => f.data (f.off + a))

/-- `fileseek(f, offset, SEEK_SET)` (file.c:152-196): `-1`, with the offset unchanged,
past the end of the file. -/
def fileseek (f : SwapFile) (offset : Nat) : SwapFile × Int :=
  if offset > f.size then (f, -1) else ({ f with off := offset }, 0)

/-- The loop of `filetruncate` (file.c:217-220) with `length` bytes still to write. -/
def filetruncateLoop : Nat → SwapFile → Int → SwapFile × Int
  | 0, f, _ => (f, 0)
  | fuel + 1, f, length =>
      if 0 < length then
        let r := f.filewrite (fun _ => 0) (min maxWrite length.toNat)
        if r.2 < 0 then (r.1, -1) else filetruncateLoop fuel r.1 (length - maxWrite)
      else (f, 0)

/-- `filetruncate(f, length)` (file.c:198-224).  It writes `length` zero bytes at the
current offset, whatever the size was. -/
def filetruncate (f : SwapFile) (length : Nat) : SwapFile × Int :=
  if f.size > length then (f, -1)
  else if f.size = length then (f, 0)
  else filetruncateLoop length f length

end SwapFile

/-- `swapfile_bitmap_is_used(value, i)` (fs.c:674-678). -/
def swapfileBitmapIsUsed (value : UInt8) (i : Nat) : Bool :=
  value &&& ((1 : UInt8) <<< (i % 8).toUInt8) ≠ 0

/-- The byte `swapfile_bitmap_set(bit, i)` writes back (fs.c:699-701): `value` with bit
`i % 8` cleared, then set if `bit`. -/
def swapfileBitmapByte (value : UInt8) (bit : Bool) (i : Nat) : UInt8 :=
  let mask : UInt8 := (1 : UInt8) <<< (i % 8).toUInt8
  let value := value &&& ~~~(value &&& mask)
  if bit then value ||| mask else value

/-- `swapfile_bitmap_set(bit, i)` (fs.c:680-722): read the byte of bit `i`, set or clear
the bit, and write the byte back. -/
def swapfileBitmapSet (f : SwapFile) (bit : Bool) (i : Nat) : Except String SwapFile := do
  let (f, s) := f.fileseek (i / 8)
  if s < 0 then throw "swapfile_bitmap_set: fileseek"
  let (f, r, buf) := f.fileread (fun _ => 0) 1
  if r < 0 then throw "swapfile_bitmap_set: fileread"
  let value := swapfileBitmapByte (buf 0) bit i
  let (f, s) := f.fileseek (i / 8)
  if s < 0 then throw "swapfile_bitmap_set: fileseek (2)"
  let (f, w) := f.filewrite (fun _ => value) 1
  if w < 0 then throw "swapfile_bitmap_set: filewrite"
  pure f

/-- The loop of `swapfile_get_free_page` (fs.c:728-752) from bit `i`, with `fuel` bits
left to look at. -/
def getFreePageLoop : Nat → SwapFile → Nat → Except String (SwapFile × Nat)
  | 0, _, _ => throw "swapfile_get_free_page: no free pages left"
  | fuel + 1, f, i => do
      -- a new chunk of the bitmap is read into `readbuf` every `PGSIZE * 8` bits
      let f ← if i % (pgsize * 8) = 0 then do
          let (f, r, readbuf) := f.fileread f.readbuf (min pgsize (f.bmapSize - i / 8))
          if r < 0 then throw "swapfile_get_free_page: fileread"
          pure { f with readbuf := readbuf }
        else pure f
      if !swapfileBitmapIsUsed (f.readbuf (i / 8 % pgsize)) i then do
        let f ← swapfileBitmapSet f true i
        pure (f, i)
      else getFreePageLoop fuel f (i + 1)

/-- `swapfile_get_free_page()` (fs.c:724-755): the first page whose bit is clear, now
set. -/
def swapfileGetFreePage (f : SwapFile) : Except String (SwapFile × Nat) :=
  getFreePageLoop (f.bmapSize * 8) (f.fileseek 0).1 0

/-- `swapfile_write_page(src, i)` (fs.c:757-765).  Neither the seek nor the write is
checked. -/
def swapfileWritePage (f : SwapFile) (src : Nat → UInt8) (i : Nat) : SwapFile :=
  ((f.fileseek (f.bmapSize + i * pgsize)).1.filewrite src pgsize).1

/-- `swapfile_read_page(dst, i)` (fs.c:767-779): the file and `dst` after the read.  A
file too short for page `i` is first extended with `filetruncate`. -/
def swapfileReadPage (f : SwapFile) (dst : Nat → UInt8) (i : Nat) :
    Except String (SwapFile × (Nat → UInt8)) := do
  let f ← if f.size < f.bmapSize + (i + 1) * pgsize then do
      let (f, r) := f.filetruncate (f.bmapSize + (i + 1) * pgsize)
      if r < 0 then throw "swapfile_read_page: filetruncate"
      pure f
    else pure f
  let f := (f.fileseek (f.bmapSize + i * pgsize)).1
  let (f, _, dst) := f.fileread dst pgsize
  pure (f, dst)

/-- `swapfile_free_page(i)` (fs.c:781-786): clear the bit and write a page of zeros. -/
def swapfileFreePage (f : SwapFile) (i : Nat) : Except String SwapFile := do
  let f ← swapfileBitmapSet f false i
  pure (swapfileWritePage f (fun _ => 0) i)

/-- The `bmap_size` of `swapinit_file` (fs.c:847) for a kernel whose image ends at the
physical address `kernEnd`: one bit for every frame above it. -/
def swapBmapSize (kernEnd : Nat) : Nat := (phystop - kernEnd - 1) / pgsize / 8 + 1

/-- The file part of `swapinit_file` (fs.c:812-858): a new, empty inode, truncated to
hold the bitmap. -/
def swapinitFile (kernEnd : Nat) : Except String SwapFile := do
  let f : SwapFile :=
    { size := 0, data := fun _ => 0, off := 0, readbuf := fun _ => 0,
      bmapSize := swapBmapSize kernEnd }
  let (f, r) := f.filetruncate f.bmapSize
  if r < 0 then throw "swapinit: filetruncate"
  pure f

/-- The swap-file calls of one swap-map operation: `swapwrite_file` allocates a page and
writes the frame `src` there (fs.c:903-907); `swapread_file` reads page `i` into the
new frame `dst` and frees it (fs.c:1083-1084); `swapfree_file` frees page `i`
(fs.c:1158). -/
inductive SwapFileOp where
  | write (src : Nat → UInt8)
  | read (i : Nat) (dst : Nat → UInt8)
  | free (i : Nat)

/-- What the swap file hands back to the caller. -/
inductive SwapFileOut where
  /-- The page number `swapwrite_file` records. -/
  | page (i : Nat)
  /-- The frame `swapread_file` maps. -/
  | frame (dst : Nat → UInt8)
  | freed

/-- One swap-map operation on the swap file. -/
def swapfileStep (f : SwapFile) : SwapFileOp → Except String (SwapFile × SwapFileOut)
  | .write src => do
      let (f, i) ← swapfileGetFreePage f
      pure (swapfileWritePage f src i, .page i)
  | .read i dst => do
      let (f, dst) ← swapfileReadPage f dst i
      let f ← swapfileFreePage f i
      pure (f, .frame dst)
  | .free i => do
      let f ← swapfileFreePage f i
      pure (f, .freed)

end Xv6
