import Xv6.Model.Fs

/-!
# Path names as the C code walks them (fs.c:577-666)

`skipelem` and `namex` over the bytes of a path from the pointer on.  A path is the list
of its bytes before the `NUL`: the end of the list is the `NUL`, and so is a zero byte,
where the C loops stop.  The buffer `name` is a function of its indices; `skipelem`
writes at most its first `DIRSIZ` bytes and leaves the others as they were.

`FsImage.namei` states the same lookups over the path's elements, `FsImage.pathElems`,
with the zero-filled names `FsImage.skipelem`; `Xv6.Analysis.Path` shows that `namex`
does exactly those.
-/

set_option autoImplicit false

namespace Xv6

namespace Path

/-- `*path`: the byte at the pointer, `0` at the end of the path. -/
def peek (path : List UInt8) : UInt8 := path.headD 0

/-- `while (*path == '/') path++` (fs.c:596-597, 611-612). -/
def skipSlashes : List UInt8 → List UInt8
  | [] => []
  | c :: p => if c = 47 then skipSlashes p else c :: p

/-- `s = path; while (*path != '/' && *path != 0) path++` (fs.c:600-602): the element
from `s` up to the pointer, and the path from the pointer on. -/
def scanElem : List UInt8 → List UInt8 × List UInt8
  | [] => ([], [])
  | c :: p =>
      if c ≠ 47 ∧ c ≠ 0 then
        let (e, rest) := scanElem p
        (c :: e, rest)
      else ([], c :: p)

/-- The copy of the element `s` into `name` (fs.c:603-609): `memmove` of `DIRSIZ` bytes
when the element has that many, else the element and a `NUL`.  The bytes of `name` the
copy does not reach are as they were. -/
def copyName (name : Nat → UInt8) (s : List UInt8) : Nat → UInt8 :=
  if s.length ≥ dirsiz then fun i => if i < dirsiz then s.getD i 0 else name i
  else fun i => if i < s.length then s.getD i 0 else if i = s.length then 0 else name i

/-- `skipelem(path, name)` (fs.c:592-614): the path after the element and the slashes
that follow it, and the buffer after the copy; `none` for `0` when no element is left. -/
def skipelem (path : List UInt8) (name : Nat → UInt8) : Option (List UInt8 × (Nat → UInt8)) :=
  let path := skipSlashes path
  if peek path = 0 then none
  else
    let (s, path) := scanElem path
    some (skipSlashes path, copyName name s)

section Namex

variable (devsw : Nat → Option Devsw)

/-- The loop of `namex(path, nameiparent, name)` (fs.c:627-646) at the inode `ip`, with
`fuel` passes, each inode read from the disk as `ilock` does: the disk, the inode
returned (`none` for `0`) and the name buffer. -/
def namexLoop (nameiparent : Bool) :
    Nat → FsImage → Nat → List UInt8 → (Nat → UInt8) → Except String (FsImage × Option Nat × (Nat → UInt8))
  | 0, _, _, _, _ => throw "namex: path longer than its fuel"
  | fuel + 1, D, ip, path, name =>
      match skipelem path name with
      | none => pure (D, if nameiparent then none else some ip, name)
      | some (path, name) =>
          if (D.dinode ip).type = .free then throw "ilock: no type"
          else if (D.dinode ip).type ≠ .dir then pure (D, none, name)
          -- stop one level early
          else if nameiparent ∧ peek path = 0 then pure (D, some ip, name)
          else do
            let (D, _, r) ← D.dirlookup devsw (D.dinode ip) name
            match r with
            | none => pure (D, none, name)
            | some (next, _) => namexLoop nameiparent fuel D next path name

/-- `namex(path, nameiparent, name)` (fs.c:620-652) of a process whose working directory
is `cwd`.  Each pass takes at least one byte of the path, so the path's length bounds
the passes. -/
def namex (D : FsImage) (cwd : Nat) (path : List UInt8) (nameiparent : Bool) (name : Nat → UInt8) :
    Except String (FsImage × Option Nat × (Nat → UInt8)) :=
  namexLoop devsw nameiparent (path.length + 1) D (if path.head? = some 47 then rootino else cwd) path name

end Namex

end Path

end Xv6
