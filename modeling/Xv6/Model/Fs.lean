import Xv6.Model.Exec

/-!
# The on-disk file system (fs.h, fs.c, mkfs.c)

The disk as the kernel's block and inode layers leave it when a transaction commits, and
the image `mkfs` writes.  The disk is kept as the values its blocks encode: the fields of
the superblock the code reads, the `struct dinode` of each i-number (in block
`IBLOCK(inum, sb)`), the bitmap bit of each block (bit `b % 8` of byte `b % BPB / 8` of
block `BBLOCK(b, sb)`), and the bytes of every block.  An indirect block is the
little-endian `uint`s of its bytes and a directory the `struct dirent`s of its content.
The code reaches the inode and bitmap blocks only through `IBLOCK` and `BBLOCK`, and
writes other blocks only at the numbers `balloc`, or `mkfs`'s `freeblock`, hands out.

An inode in the cache is a `Dinode` beside the disk: `ilock` reads it from the disk,
`bmap` changes its addresses, and only `iupdate` writes it back; `readi` never does, and
`writei` only when the write grows the file.  The log is not modelled: the writes of a
transaction are applied as they are made, which is the disk after the transaction
commits.  Nor are the buffer cache and the inode cache's `ref`, `valid` and sleep lock;
`namei` reads each inode it locks from the disk, as `ilock` does for an inode not yet
cached.

`mkfs` is run on the list of its file arguments, each with the bytes of the host file;
its assertions are errors.
-/

set_option autoImplicit false

namespace Xv6

open Window

/-- `ROOTINO` (fs.h:5). -/
def rootino : Nat := 1

/-- `DIRSIZ` (fs.h:60). -/
def dirsiz : Nat := 14

/-- `sizeof(struct dirent)` (fs.h:62-65): a `ushort` and `DIRSIZ` bytes. -/
def direntSize : Nat := 16

/-- `IPB` (fs.h:44): `struct dinode` is 64 bytes. -/
def ipb : Nat := bsize / 64

/-- `FSSIZE` (param.h:13). -/
def fssize : Nat := 128 * 128

/-- The `type` of an on-disk inode (stat.h): `0` for a free inode, `T_DIR`, `T_FILE`
and `T_DEV`. -/
inductive DiskType where
  | free
  | dir
  | file
  | dev
  deriving DecidableEq, Repr

/-- `struct dinode` (fs.h:35-42).  `addrs n` for `n < NDIRECT` are the direct blocks and
`addrs NDIRECT` the indirect block; `0` is no block. -/
structure Dinode where
  type : DiskType
  major : Int
  minor : Int
  nlink : Nat
  size : Nat
  addrs : Nat → Nat

/-- The `struct dinode` that `memset` zeroes. -/
def Dinode.zero : Dinode := ⟨.free, 0, 0, 0, 0, fun _ => 0⟩

/-- The address `k` of an inode set to `a`. -/
def Dinode.setAddr (ip : Dinode) (k a : Nat) : Dinode :=
  { ip with addrs := fun j => if j = k then a else ip.addrs j }

/-- The fields of `struct superblock` (fs.h:12-23) the modelled code reads. -/
structure Superblock where
  size : Nat
  ninodes : Nat

/-- The file system on the disk: the superblock, the inodes, the bitmap and the data
blocks, each kept decoded. -/
structure FsImage where
  sb : Superblock
  dinode : Nat → Dinode
  used : Nat → Bool
  data : Nat → Nat → UInt8

namespace FsImage

/-- The on-disk inode `inum` set to `ip`. -/
def setDinode (D : FsImage) (inum : Nat) (ip : Dinode) : FsImage :=
  { D with dinode := fun j => if j = inum then ip else D.dinode j }

/-- The bitmap bit of block `b` set to `v`. -/
def setUsed (D : FsImage) (b : Nat) (v : Bool) : FsImage :=
  { D with used := fun c => if c = b then v else D.used c }

/-- The `n` bytes of block `b` from byte `off` set to those of `src`. -/
def writeData (D : FsImage) (b off n : Nat) (src : Nat → UInt8) : FsImage :=
  { D with data := fun c => if c = b then overlay (D.data b) off n src else D.data c }

/-- Entry `j` of the indirect block `ind`: the `uint` at byte `4 * j`. -/
def entry (D : FsImage) (ind j : Nat) : Nat := le32 (D.data ind) (4 * j)

/-- Entry `j` of the indirect block `ind` set to `a`. -/
def setEntry (D : FsImage) (ind j a : Nat) : FsImage := D.writeData ind (4 * j) 4 (bytes32 a)

/-! ## Blocks (fs.c:51-104) -/

/-- `bzero(dev, bno)` (fs.c:54-61). -/
def bzero (D : FsImage) (b : Nat) : FsImage :=
  { D with data := fun c => if c = b then fun _ => 0 else D.data c }

/-- The scan of `balloc` (fs.c:66-88) from block `b`.  The source's two loops, over the
bitmap blocks and over the bits of each, visit the blocks `0, 1, …, sb.size - 1` in
order; the first free one is marked and zeroed. -/
def ballocLoop (D : FsImage) : Nat → Nat → Except String (FsImage × Nat)
  | 0, _ => throw "balloc: out of blocks"
  | fuel + 1, b =>
      if b < D.sb.size then
        if D.used b = false then pure ((D.setUsed b true).bzero b, b)
        else ballocLoop D fuel (b + 1)
      else throw "balloc: out of blocks"

/-- `balloc(dev)` (fs.c:66-88): a zeroed block, marked in use. -/
def balloc (D : FsImage) : Except String (FsImage × Nat) := D.ballocLoop D.sb.size 0

/-- `bfree(dev, b)` (fs.c:91-104). -/
def bfree (D : FsImage) (b : Nat) : Except String FsImage :=
  if D.used b = false then throw "freeing free block" else pure (D.setUsed b false)

/-! ## Inodes (fs.c:198-357) -/

/-- `iupdate(ip)` (fs.c:229-243) of the cached inode `ip` of i-number `inum`. -/
def iupdate (D : FsImage) (inum : Nat) (ip : Dinode) : FsImage := D.setDinode inum ip

/-- The scan of `ialloc(dev, type)` (fs.c:204-222) from i-number `inum`: the first free
inode is zeroed and given the type. -/
def iallocLoop (type : DiskType) : Nat → FsImage → Nat → Except String (FsImage × Nat)
  | 0, _, _ => throw "ialloc: no inodes"
  | fuel + 1, D, inum =>
      if inum < D.sb.ninodes then
        if (D.dinode inum).type = .free then
          pure (D.setDinode inum { Dinode.zero with type := type }, inum)
        else iallocLoop type fuel D (inum + 1)
      else throw "ialloc: no inodes"

/-- `ialloc(dev, type)` (fs.c:204-222): the i-number of a new inode. -/
def ialloc (D : FsImage) (type : DiskType) : Except String (FsImage × Nat) :=
  iallocLoop type D.sb.ninodes D 1

/-- `bmap(ip, bn)` (fs.c:374-403): the disk address of block `bn` of the cached inode
`ip`, allocating the block, and the indirect block, when missing.  A new direct or
indirect address goes into the cached inode only; a new entry of the indirect block is
written to the disk. -/
def bmap (D : FsImage) (ip : Dinode) (bn : Nat) : Except String (FsImage × Dinode × Nat) :=
  if bn < ndirect then
    if ip.addrs bn = 0 then do
      let (D, addr) ← D.balloc
      pure (D, ip.setAddr bn addr, addr)
    else pure (D, ip, ip.addrs bn)
  else if bn - ndirect < nindirect then do
    let bn := bn - ndirect
    -- load the indirect block, allocating if necessary
    let (D, ip) ← if ip.addrs ndirect = 0 then do
        let (D, addr) ← D.balloc
        pure (D, ip.setAddr ndirect addr)
      else pure (D, ip)
    let ind := ip.addrs ndirect
    if D.entry ind bn = 0 then do
      let (D, addr) ← D.balloc
      pure (D.setEntry ind bn addr, ip, addr)
    else pure (D, ip, D.entry ind bn)
  else throw "bmap: out of range"

/-- The loop of `itrunc` over the direct blocks (fs.c:413-418) from `i`. -/
def itruncDirect : Nat → FsImage → Dinode → Nat → Except String (FsImage × Dinode)
  | 0, D, ip, _ => pure (D, ip)
  | fuel + 1, D, ip, i =>
      if i < ndirect then
        if ip.addrs i ≠ 0 then do
          let D ← D.bfree (ip.addrs i)
          itruncDirect fuel D (ip.setAddr i 0) (i + 1)
        else itruncDirect fuel D ip (i + 1)
      else pure (D, ip)

/-- The loop of `itrunc` over the entries `a` of the indirect block, as read before the
loop (fs.c:423-426), from `j`. -/
def itruncIndirect (a : Nat → UInt8) : Nat → FsImage → Nat → Except String FsImage
  | 0, D, _ => pure D
  | fuel + 1, D, j =>
      if j < nindirect then
        if le32 a (4 * j) ≠ 0 then do
          let D ← D.bfree (le32 a (4 * j))
          itruncIndirect a fuel D (j + 1)
        else itruncIndirect a fuel D (j + 1)
      else pure D

/-- `itrunc(ip)` (fs.c:409-433) of the cached inode `ip` of i-number `inum`: its blocks
are freed and the empty inode written back. -/
def itrunc (D : FsImage) (inum : Nat) (ip : Dinode) : Except String (FsImage × Dinode) := do
  let (D, ip) ← itruncDirect ndirect D ip 0
  let (D, ip) ← if ip.addrs ndirect ≠ 0 then do
      let D ← itruncIndirect (D.data (ip.addrs ndirect)) nindirect D 0
      let D ← D.bfree (ip.addrs ndirect)
      pure (D, ip.setAddr ndirect 0)
    else pure (D, ip)
  let ip := { ip with size := 0 }
  pure (D.iupdate inum ip, ip)

/-- `iput(ip)` (fs.c:335-355) of the locked inode `ip` of i-number `inum`, read from the
disk (`valid`), with `ref` references to it in the cache, this one included: an inode with
no link and no other reference is truncated and freed on the disk.  The drop of `ref`
goes with the cache, which is not modelled. -/
def iput (D : FsImage) (inum : Nat) (ip : Dinode) (ref : Nat) : Except String FsImage :=
  if ip.nlink = 0 ∧ ref = 1 then do
    let (D, ip) ← D.itrunc inum ip
    pure (D.iupdate inum { ip with type := .free })
  else pure D

/-! ## Inode content (fs.c:455-511) -/

section Content

variable (devsw : Nat → Option Devsw)

/-- The copy loop of `readi` (fs.c:469-474): `n` bytes, `tot` of them copied into
`dst`, the next one at offset `off`. -/
def readiLoop (n : Nat) :
    Nat → FsImage → Dinode → (Nat → UInt8) → Nat → Nat → Except String (FsImage × Dinode × (Nat → UInt8))
  | 0, D, ip, dst, _, _ => pure (D, ip, dst)
  | fuel + 1, D, ip, dst, tot, off =>
      if tot < n then do
        let (D, ip, addr) ← D.bmap ip (off / bsize)
        let m := min (n - tot) (bsize - off % bsize)
        let dst := overlay dst tot m fun i => D.data addr (off % bsize + i)
        readiLoop n fuel D ip dst (tot + m) (off + m)
      else pure (D, ip, dst)

/-- `readi(ip, dst, off, n)` (fs.c:455-477) of the cached inode `ip`: the disk, the
inode, the count (`-1` for failure) and `dst` with the bytes read.  A block of the file
that has no address is allocated on the way (`bmap`). -/
def readi (D : FsImage) (ip : Dinode) (dst : Nat → UInt8) (off n : Nat) :
    Except String (FsImage × Dinode × Int × (Nat → UInt8)) :=
  if ip.type = .dev then
    match Inode.device devsw ip.major with
    | none => pure (D, ip, -1, dst)
    | some d => pure (D, ip, d.read n, dst)
  else if ip.size < off ∨ (off + n) % uintMod < off then pure (D, ip, -1, dst)
  else do
    let n := if ip.size < off + n then ip.size - off else n
    let (D, ip, dst) ← readiLoop n (n / bsize + 2) D ip dst 0 off
    pure (D, ip, n, dst)

/-- The copy loop of `writei` (fs.c:496-502): `n` bytes of `src`, `tot` of them written,
the next one at offset `off`; the offset after the last. -/
def writeiLoop (src : Nat → UInt8) (n : Nat) :
    Nat → FsImage → Dinode → Nat → Nat → Except String (FsImage × Dinode × Nat)
  | 0, D, ip, _, off => pure (D, ip, off)
  | fuel + 1, D, ip, tot, off =>
      if tot < n then do
        let (D, ip, addr) ← D.bmap ip (off / bsize)
        let m := min (n - tot) (bsize - off % bsize)
        let D := D.writeData addr (off % bsize) m fun i => src (tot + i)
        writeiLoop src n fuel D ip (tot + m) (off + m)
      else pure (D, ip, off)

/-- `writei(ip, src, off, n)` (fs.c:482-511) of the cached inode `ip` of i-number
`inum`: the inode is written back only when the write grows the file. -/
def writei (D : FsImage) (inum : Nat) (ip : Dinode) (src : Nat → UInt8) (off n : Nat) :
    Except String (FsImage × Dinode × Int) :=
  if ip.type = .dev then
    match Inode.device devsw ip.major with
    | none => pure (D, ip, -1)
    | some d => pure (D, ip, d.write n)
  else if ip.size < off ∨ (off + n) % uintMod < off then pure (D, ip, -1)
  else if maxfile * bsize < off + n then pure (D, ip, -1)
  else do
    let (D, ip, off) ← writeiLoop src n (n / bsize + 2) D ip 0 off
    if 0 < n ∧ ip.size < off then
      let ip := { ip with size := off }
      pure (D.iupdate inum ip, ip, n)
    else pure (D, ip, n)

/-! ## Directories and paths (fs.c:515-666) -/

/-- `strncmp(p, q, n)` (string.c:58-66) from byte `i`. -/
def strncmp (p q : Nat → UInt8) : Nat → Nat → Int
  | 0, _ => 0
  | n + 1, i => if p i ≠ 0 ∧ p i = q i then strncmp p q n (i + 1) else (p i).toNat - (q i).toNat

/-- `namecmp(s, t)` (fs.c:517-520). -/
def namecmp (s t : Nat → UInt8) : Int := strncmp s t dirsiz 0

/-- The loop `while(n-- > 0) *s++ = 0` of `strncpy` (string.c:76-77) from byte `i` of `s`. -/
def strncpyPad : Nat → Nat → (Nat → UInt8) → Nat → UInt8
  | 0, _, s => s
  | n + 1, i, s => strncpyPad n (i + 1) fun j => if j = i then 0 else s j

/-- The loop `while(n-- > 0 && (*s++ = *t++) != 0)` of `strncpy` (string.c:74-75) from
byte `i` of `s` and `t`; the `NUL` it copies ends it, and the rest of the `n` bytes are
zeroed. -/
def strncpyLoop (t : Nat → UInt8) : Nat → Nat → (Nat → UInt8) → Nat → UInt8
  | 0, _, s => s
  | n + 1, i, s =>
      let s := fun j => if j = i then t i else s j
      if t i ≠ 0 then strncpyLoop t n (i + 1) s else strncpyPad n (i + 1) s

/-- `strncpy(s, t, n)` (string.c:68-79): the buffer `s` after the copy. -/
def strncpy (s t : Nat → UInt8) (n : Nat) : Nat → UInt8 := strncpyLoop t n 0 s

/-- The scan of `dirlookup(dp, name, poff)` (fs.c:524-546) from offset `off`: the
i-number and offset of the entry named `name`. -/
def dirlookupLoop (name : Nat → UInt8) :
    Nat → FsImage → Dinode → Nat → Except String (FsImage × Dinode × Option (Nat × Nat))
  | 0, D, dp, _ => pure (D, dp, none)
  | fuel + 1, D, dp, off =>
      if off < dp.size then do
        let (D, dp, r, de) ← D.readi devsw dp (fun _ => 0) off direntSize
        if r ≠ direntSize then throw "dirlookup read"
        if le16 de 0 = 0 then dirlookupLoop name fuel D dp (off + direntSize)
        else if namecmp name (fun i => de (2 + i)) = 0 then pure (D, dp, some (le16 de 0, off))
        else dirlookupLoop name fuel D dp (off + direntSize)
      else pure (D, dp, none)

/-- `dirlookup(dp, name, poff)` (fs.c:524-546) in the cached directory `dp`. -/
def dirlookup (D : FsImage) (dp : Dinode) (name : Nat → UInt8) :
    Except String (FsImage × Dinode × Option (Nat × Nat)) :=
  if dp.type ≠ .dir then throw "dirlookup not DIR"
  else dirlookupLoop devsw name (dp.size / direntSize + 1) D dp 0

/-- The scan of `dirlink` (fs.c:562-567) for an empty entry from offset `off`, reading each
entry into `de`: the offset it stops at and the entry last read. -/
def dirlinkLoop : Nat → FsImage → Dinode → (Nat → UInt8) → Nat →
    Except String (FsImage × Dinode × (Nat → UInt8) × Nat)
  | 0, D, dp, de, off => pure (D, dp, de, off)
  | fuel + 1, D, dp, de, off =>
      if off < dp.size then do
        let (D, dp, r, de) ← D.readi devsw dp de off direntSize
        if r ≠ direntSize then throw "dirlink read"
        if le16 de 0 = 0 then pure (D, dp, de, off)
        else dirlinkLoop fuel D dp de (off + direntSize)
      else pure (D, dp, de, off)

/-- The entry `dirlink` writes (fs.c:569-570): `strncpy(de.name, name, DIRSIZ)` into the
bytes of `de` from 2 on, and `de.inum = inum`, a `ushort`, into bytes 0 and 1. -/
def dirlinkEntry (de name : Nat → UInt8) (inum : Nat) : Nat → UInt8 := fun i =>
  if i = 0 then (inum % 2 ^ 16 % 256).toUInt8
  else if i = 1 then (inum % 2 ^ 16 / 256).toUInt8
  else strncpy (fun j => de (2 + j)) name dirsiz (i - 2)

/-- `dirlink(dp, name, inum)` (fs.c:549-575) in the cached directory `dp` of i-number
`dnum`.  The `iput` of the inode `dirlookup` found is not modelled, nor what the stack
holds in `de` before the scan reads into it: a directory with no entry leaves it to
`strncpy` and the `inum`, which overwrite all of it. -/
def dirlink (D : FsImage) (dnum : Nat) (dp : Dinode) (name : Nat → UInt8) (inum : Nat) :
    Except String (FsImage × Dinode × Int) := do
  let (D, dp, found) ← D.dirlookup devsw dp name
  match found with
  | some _ => pure (D, dp, -1)
  | none =>
      let (D, dp, de, off) ← dirlinkLoop devsw (dp.size / direntSize + 1) D dp (fun _ => 0) 0
      let (D, dp, r) ← D.writei devsw dnum dp (dirlinkEntry de name inum) off direntSize
      if r ≠ direntSize then throw "dirlink" else pure (D, dp, 0)

end Content

/-- The path elements `skipelem` (fs.c:593-614) returns one after another: the runs of
bytes between the slashes (`/` is 47). -/
def pathElems (path : List UInt8) : List (List UInt8) :=
  (path.splitOn 47).filter fun e => !e.isEmpty

/-- The name `skipelem` copies out of a path element: its first `DIRSIZ` bytes, ended
by a zero when shorter. -/
def skipelem (elem : List UInt8) : Nat → UInt8 := fun i => if i < dirsiz then elem.getD i 0 else 0

section Content

variable (devsw : Nat → Option Devsw)

/-- The loop of `namex(path, 0, name)` (fs.c:620-652) over the path elements from the
inode `inum`, each inode read from the disk as `ilock` does: the disk and the i-number
found. -/
def nameiLoop : List (List UInt8) → FsImage → Nat → Except String (FsImage × Option Nat)
  | [], D, inum => pure (D, some inum)
  | elem :: rest, D, inum =>
      if (D.dinode inum).type = .free then throw "ilock: no type"
      else if (D.dinode inum).type ≠ .dir then pure (D, none)
      else do
        let (D, _, r) ← D.dirlookup devsw (D.dinode inum) (skipelem elem)
        match r with
        | none => pure (D, none)
        | some (next, _) => nameiLoop rest D next

/-- `namei(path)` (fs.c:654-658) of a process whose working directory is `cwd`: the
committed disk of the transaction around it, as in `sys_open` and `exec`, and the
i-number found. -/
def namei (D : FsImage) (cwd : Nat) (path : List UInt8) : Except String (FsImage × Option Nat) :=
  nameiLoop devsw (pathElems path) D (if path.head? = some 47 then rootino else cwd)

end Content

/-- The first transaction of `swapinit_file` (fs.c:812-832): a new file inode for the
swap file, locked (read from the disk), given one link and written back; the i-number.
No directory entry is written.  The file table is empty at boot, so `filealloc`
succeeds. -/
def swapinitInode (D : FsImage) : Except String (FsImage × Nat) := do
  let (D, inum) ← D.ialloc .file
  let ip := { D.dinode inum with major := 0, minor := 0, nlink := 1 }
  pure (D.iupdate inum ip, inum)

end FsImage

/-! ## `mkfs` (mkfs.c) -/

namespace Mkfs

/-- `NINODES` (mkfs.c:20). -/
def ninodes : Nat := 200

/-- `nbitmap` (mkfs.c:25). -/
def nbitmap : Nat := fssize / (bsize * 8) + 1

/-- `ninodeblocks` (mkfs.c:26). -/
def ninodeblocks : Nat := ninodes / ipb + 1

/-- `nswap` (mkfs.c:28): a page of blocks for each process. -/
def nswap : Nat := pgsize / bsize * nproc

/-- `nmeta` (mkfs.c:95): the boot block, the superblock, the log, the inode blocks, the
bitmap and the swap area. -/
def nmeta : Nat := 2 + logSize + ninodeblocks + nbitmap + nswap

/-- What `mkfs` writes as it goes: the image, and the next i-number and block number it
hands out. -/
structure State where
  disk : FsImage
  freeinode : Nat
  freeblock : Nat

/-- The zeroed image with its superblock (mkfs.c:97-121). -/
def start : State :=
  ⟨⟨⟨fssize, ninodes⟩, fun _ => Dinode.zero, fun _ => false, fun _ _ => 0⟩, 1, nmeta⟩

/-- `ialloc(type)` (mkfs.c:231-243): the next i-number, with one link. -/
def ialloc (st : State) (type : DiskType) : State × Nat :=
  ({ st with
      disk := st.disk.setDinode st.freeinode { Dinode.zero with type := type, nlink := 1 }
      freeinode := st.freeinode + 1 }, st.freeinode)

/-- The block of `iappend` for file block `fbn` of the inode `din` (mkfs.c:275-290):
each missing address, direct, indirect or in the indirect block, is the next
`freeblock`. -/
def iappendBlock (st : State) (din : Dinode) (fbn : Nat) : State × Dinode × Nat :=
  if fbn < ndirect then
    if din.addrs fbn = 0 then
      ({ st with freeblock := st.freeblock + 1 }, din.setAddr fbn st.freeblock, st.freeblock)
    else (st, din, din.addrs fbn)
  else
    let (st, din) := if din.addrs ndirect = 0 then
        ({ st with freeblock := st.freeblock + 1 }, din.setAddr ndirect st.freeblock)
      else (st, din)
    let ind := din.addrs ndirect
    if st.disk.entry ind (fbn - ndirect) = 0 then
      ({ st with
          disk := st.disk.setEntry ind (fbn - ndirect) st.freeblock
          freeblock := st.freeblock + 1 }, din, st.freeblock)
    else (st, din, st.disk.entry ind (fbn - ndirect))

/-- The loop of `iappend` (mkfs.c:271-298) on the inode `din`: the bytes of `p` from
`pos` on go at offset `off`, up to the end of its block at a time; the offset after the
last. -/
def iappendLoop (p : List UInt8) :
    Nat → State → Dinode → Nat → Nat → Except String (State × Dinode × Nat)
  | 0, st, din, off, _ => pure (st, din, off)
  | fuel + 1, st, din, off, pos =>
      if pos < p.length then
        if maxfile ≤ off / bsize then throw "assert: fbn < MAXFILE"
        else
          let fbn := off / bsize
          let (st, din, x) := iappendBlock st din fbn
          let n1 := min (p.length - pos) ((fbn + 1) * bsize - off)
          let st := { st with disk := st.disk.writeData x (off - fbn * bsize) n1 fun i => p.getD (pos + i) 0 }
          iappendLoop p fuel st din (off + n1) (pos + n1)
      else pure (st, din, off)

/-- `iappend(inum, p, n)` (mkfs.c:260-301): the inode read, appended to and written
back with its new size.  Each pass writes at least one byte. -/
def iappend (st : State) (inum : Nat) (p : List UInt8) : Except String State := do
  let din := st.disk.dinode inum
  let (st, din, off) ← iappendLoop p (p.length + 1) st din din.size 0
  pure { st with disk := st.disk.setDinode inum { din with size := off } }

/-- The `struct dirent` naming `inum` as `name` (mkfs.c:124-127, 153-156): the `ushort`
and the name, which `strncpy` pads with zeros to `DIRSIZ`. -/
def direntBytes (inum : Nat) (name : List UInt8) : List UInt8 :=
  [(inum % 256).toUInt8, (inum / 256 % 256).toUInt8] ++ (List.range dirsiz).map fun i => name.getD i 0

/-- The name a file argument gets on the disk: without a leading `_` (95) (mkfs.c:148-149). -/
def fileName (arg : List UInt8) : List UInt8 := if arg.head? = some 95 then arg.tail else arg

/-- One file argument (mkfs.c:137-161): an inode, its entry in the root directory, and
its bytes, appended `BSIZE` at a time as `read` returns them. -/
def addFile (st : State) (f : List UInt8 × List UInt8) : Except String State :=
  if 47 ∈ f.1 then throw "assert: index(argv[i], '/') == 0"
  else do
    let (st, inum) := ialloc st .file
    let st ← iappend st rootino (direntBytes inum (fileName f.1))
    (f.2.toChunks bsize).foldlM (fun st chunk => iappend st inum chunk) st

/-- `mkfs fs.img files...` (mkfs.c:68-167): the root directory with `.` and `..` and an
entry for each file, its size rounded up to the next block, and the blocks used so far
marked in the first bitmap block (`balloc`, mkfs.c:245-258). -/
def mkfs (files : List (List UInt8 × List UInt8)) : Except String FsImage := do
  let (st, root) := ialloc start .dir
  if root ≠ rootino then throw "assert: rootino == ROOTINO"
  let st ← iappend st root (direntBytes root [46])
  let st ← iappend st root (direntBytes root [46, 46])
  let st ← files.foldlM addFile st
  -- fix size of root inode dir
  let din := st.disk.dinode root
  let st := { st with disk := st.disk.setDinode root { din with size := (din.size / bsize + 1) * bsize } }
  if bsize * 8 ≤ st.freeblock then throw "assert: used < BSIZE*8"
  pure { st.disk with used := fun b => decide (b < st.freeblock) }

end Mkfs

end Xv6
