import Xv6.Model.Path

/-!
# Removing and creating names (sysfile.c:170-352)

`sys_unlink` after it has fetched its argument, and `isdirempty`, which it asks of a
directory before it removes the directory's name; `create`, which makes a new inode and
links it under a new name, and `sys_mkdir`, which calls it.  The code runs inside one transaction,
whose log is not modelled (see `Xv6.Model.Fs`).  Nor is the inode cache: the references
it holds to the parent directory and to the inode unlinked are arguments, read by `iput`,
and the inode `dirlookup` finds is read from the disk when `ilock` locks it.
-/

set_option autoImplicit false

namespace Xv6

namespace FsImage

section Unlink

variable (devsw : Nat → Option Devsw)

/-- The loop of `isdirempty(dp)` (sysfile.c:170-183) from offset `off`, reading each
entry: `false` at the first entry in use. -/
def isdiremptyLoop : Nat → FsImage → Dinode → Nat → Except String (FsImage × Dinode × Bool)
  | 0, D, dp, _ => pure (D, dp, true)
  | fuel + 1, D, dp, off =>
      if off < dp.size then do
        let (D, dp, r, de) ← D.readi devsw dp (fun _ => 0) off direntSize
        if r ≠ direntSize then throw "isdirempty: readi"
        if le16 de 0 ≠ 0 then pure (D, dp, false)
        else isdiremptyLoop fuel D dp (off + direntSize)
      else pure (D, dp, true)

/-- `isdirempty(dp)` (sysfile.c:170-183): whether no entry after `.` and `..` is in use. -/
def isdirempty (D : FsImage) (dp : Dinode) : Except String (FsImage × Dinode × Bool) :=
  isdiremptyLoop devsw (dp.size / direntSize + 1) D dp (2 * direntSize)

/-- The C string `"."`. -/
def dotName : Nat → UInt8 := fun i => if i = 0 then 46 else 0

/-- The C string `".."`. -/
def dotdotName : Nat → UInt8 := fun i => if i < 2 then 46 else 0

/-- `sys_unlink()` (sysfile.c:187-241) of a process whose working directory is `cwd`, on
the path `path` its argument points to; `dref` and `iref` are the references the inode
cache holds to the parent directory and to the inode unlinked, those `sys_unlink` takes
included.  The disk and the value returned.  The bytes of `name` that `skipelem` does not
write, which no `namecmp` reads, are taken to be `0`; the link count of a parent
directory with none, which the C code takes to `-1`, is kept at `0`. -/
def sysUnlink (D : FsImage) (cwd : Nat) (path : List UInt8) (dref iref : Nat) :
    Except String (FsImage × Int) := do
  let (D, dnum, name) ← Path.namex devsw D cwd path true fun _ => 0
  match dnum with
  | none => pure (D, -1)
  | some dnum =>
      let dp := D.dinode dnum
      -- cannot unlink "." or ".."
      if namecmp name dotName = 0 ∨ namecmp name dotdotName = 0 then
        let D ← D.iput dnum dp dref
        pure (D, -1)
      else
        let (D, dp, found) ← D.dirlookup devsw dp name
        match found with
        | none =>
            let D ← D.iput dnum dp dref
            pure (D, -1)
        | some (inum, off) =>
            let ip := D.dinode inum
            if ip.type = .free then throw "ilock: no type"
            if ip.nlink < 1 then throw "unlink: nlink < 1"
            let (D, ip, empty) ← if ip.type = .dir then D.isdirempty devsw ip else pure (D, ip, true)
            if ¬empty then
              let D ← D.iput inum ip iref
              let D ← D.iput dnum dp dref
              pure (D, -1)
            else
              let (D, dp, r) ← D.writei devsw dnum dp (fun _ => 0) off direntSize
              if r ≠ direntSize then throw "unlink: writei"
              -- a directory's `..` linked its parent
              let (D, dp) :=
                if ip.type = .dir then
                  let dp := { dp with nlink := dp.nlink - 1 }
                  (D.iupdate dnum dp, dp)
                else (D, dp)
              let D ← D.iput dnum dp dref
              let ip := { ip with nlink := ip.nlink - 1 }
              let D ← (D.iupdate inum ip).iput inum ip iref
              pure (D, 0)

end Unlink

section Create

variable (devsw : Nat → Option Devsw)

/-- `create(path, type, major, minor)` (sysfile.c:244-286) of a process whose working
directory is `cwd`: the disk and the i-number of the inode returned (`none` for `0`).
`dref` and `iref` are the references the inode cache holds to the parent directory and to
an inode the name already stands for; `ialloc` fails with its own panic and never
returns `0`, so the panic `create: ialloc` is not reached. -/
def create (D : FsImage) (cwd : Nat) (path : List UInt8) (type : DiskType) (major minor : Int)
    (dref iref : Nat) : Except String (FsImage × Option Nat) := do
  let (D, dnum, name) ← Path.namex devsw D cwd path true fun _ => 0
  match dnum with
  | none => pure (D, none)
  | some dnum =>
      let dp := D.dinode dnum
      let (D, dp, found) ← D.dirlookup devsw dp name
      match found with
      | some (inum, _) =>
          let D ← D.iput dnum dp dref
          let ip := D.dinode inum
          if ip.type = .free then throw "ilock: no type"
          if type = .file ∧ ip.type = .file then pure (D, some inum)
          else
            let D ← D.iput inum ip iref
            pure (D, none)
      | none =>
          let (D, inum) ← D.ialloc type
          let ip := D.dinode inum
          if ip.type = .free then throw "ilock: no type"
          let ip := { ip with major := major, minor := minor, nlink := 1 }
          let D := D.iupdate inum ip
          -- a directory gets "." and ".." entries, and its ".." links its parent
          let (D, dp) ← if type = .dir then do
              let dp := { dp with nlink := dp.nlink + 1 }
              let D := D.iupdate dnum dp
              let (D, ip, r) ← D.dirlink devsw inum ip dotName inum
              if r < 0 then throw "create dots"
              let (D, _, r) ← D.dirlink devsw inum ip dotdotName dnum
              if r < 0 then throw "create dots"
              pure (D, dp)
            else pure (D, dp)
          let (D, dp, r) ← D.dirlink devsw dnum dp name inum
          if r < 0 then throw "create: dirlink"
          let D ← D.iput dnum dp dref
          pure (D, some inum)

/-- `sys_mkdir()` (sysfile.c:337-350) of a process whose working directory is `cwd`, on
the path `path` its argument points to: `create` of a directory, then `iunlockput` of
it.  `dref` and `iref` are as for `create`; `iref` is also the count the cache holds to
the new directory. -/
def sysMkdir (D : FsImage) (cwd : Nat) (path : List UInt8) (dref iref : Nat) :
    Except String (FsImage × Int) := do
  let (D, ip) ← D.create devsw cwd path .dir 0 0 dref iref
  match ip with
  | none => pure (D, -1)
  | some inum =>
      let D ← D.iput inum (D.dinode inum) iref
      pure (D, 0)

end Create

end FsImage

end Xv6
