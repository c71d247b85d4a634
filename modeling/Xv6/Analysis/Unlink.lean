import Xv6.Analysis.Holes
import Xv6.Analysis.Itrunc
import Xv6.Model.Sysfile

/-!
# `sys_unlink` removes a name (sysfile.c:187-241)

The name of a file is removed from its directory by zeroing the entry `dirlookup` finds,
and the file loses a link; its last link and last reference gone, `iput` frees it and its
blocks with `itrunc`.  In a directory where no name is named twice, the map it stands for
loses exactly the names equal to the name removed (`sysUnlink_removes_file`).

The reads and the write of `sys_unlink` go through `bmap`, which allocates a block for a
hole; a directory grown only by `writei`, which never writes past the size, has none
(`NoHoles`), and on it they change no inode and no bit of the bitmap.  That is what makes
the disk inode of the directory, which `sys_unlink` does not write back, still describe
it.
-/

set_option autoImplicit false

namespace Xv6

namespace FsImage

open Window

/-- INTERNAL: an entry is in use when its `inum` is not `0`. -/
theorem entryInUse_iff (e : Nat → UInt8) : entryInUse e = true ↔ le16 e 0 ≠ 0 := bne_iff_ne

section Present

variable (devsw : Nat → Option Devsw)

/-- Zeroing the entry in slot `k` of a directory without holes, as `sys_unlink` does:
`writei` returns the directory as it was, keeps every inode on the disk and the bitmap and
every block but the directory's, and leaves slot `k` zero and every other slot as it was. -/
theorem writei_zero_entry {D : FsImage} (dnum : Nat) {dp : Dinode} (h : DirWf D dp) (hh : D.NoHoles dp)
    {k : Nat} (hk : k < dp.size / direntSize) :
    ∃ D', D.writei devsw dnum dp (fun _ => 0) (direntSize * k) direntSize = .ok (D', dp, direntSize) ∧
      D'.dinode = D.dinode ∧ D'.used = D.used ∧ D'.sb = D.sb ∧
      (∀ c, (∀ bn, bn < maxfile → D.blockAddr dp bn ≠ c) → D'.data c = D.data c) ∧
      ∀ j, j < dp.size / direntSize →
        D'.dirent dp j = Function.update (D.dirent dp) k (overlay (fun _ => 0) 0 direntSize fun _ => 0) j := by
  have hin := slot_lt_size hk (show direntSize - 1 < direntSize by decide)
  have hsize := h.wf.size_le
  have hroom : direntSize * k + direntSize ≤ maxfile * bsize := by
    unfold direntSize at *
    omega
  have hty : dp.type ≠ .dev := by
    rw [h.dir]
    decide
  obtain ⟨D', hw, -, hdin, hused, hsb, -, hdata⟩ := writei_present devsw dnum (fun _ => 0) hty h.wf hh
    (show direntSize * k + direntSize ≤ dp.size by unfold direntSize at *; omega)
  -- what the write leaves in the directory, read off the postcondition of `writei`
  have hpost := writei_post devsw dnum (fun _ => 0) hty h.wf
    (show direntSize * k ≤ dp.size by unfold direntSize at *; omega) hroom
  obtain ⟨-, -, -, -, hcont⟩ := hpost.of_ok hw
  exact ⟨D', hw, hdin, hused, hsb, hdata, fun j hj => dirent_of_write hcont hroom hsize (lt_max_of_lt_left hj)⟩

/-- INTERNAL: the loop of `isdirempty` over a directory without holes, from slot `k`,
changes nothing and finds whether no slot from `k` on is in use. -/
theorem isdiremptyLoop_present {D : FsImage} {dp : Dinode} (h : DirWf D dp) (hh : D.NoHoles dp) (fuel : Nat) :
    ∀ k, dp.size / direntSize - k < fuel → ∃ r, isdiremptyLoop devsw fuel D dp (direntSize * k) = .ok (D, dp, r) ∧
      (r = true ↔ ∀ j, k ≤ j → j < dp.size / direntSize → entryInUse (D.dirent dp j) = false) := by
  -- induction on the fuel, from any slot
  induction fuel with
  | zero =>
    intro k hf
    omega
  | succ fuel ih =>
    intro k hf
    rw [isdiremptyLoop]
    by_cases hkn : direntSize * k < dp.size
    · have hk : k < dp.size / direntSize := by
        have := h.whole
        unfold direntSize at *
        omega
      rw [if_pos hkn, readi_entry_present devsw h hh _ hk, Run.ok_bind]
      dsimp only
      rw [if_neg (not_not_intro rfl), show (overlay (fun _ => 0) 0 direntSize fun i =>
        D.fileByte dp (direntSize * k + i)) = D.dirent dp k from rfl]
      -- the entry read is the slot's: in use, the answer is no; free, the rest decides
      by_cases huse : entryInUse (D.dirent dp k) = true
      · rw [if_pos ((entryInUse_iff _).mp huse)]
        refine ⟨false, rfl, ⟨fun h => absurd h Bool.false_ne_true, fun hall => ?_⟩⟩
        rw [hall k le_rfl hk] at huse
        exact absurd huse Bool.false_ne_true
      · rw [if_neg fun h => huse ((entryInUse_iff _).mpr h)]
        obtain ⟨r, hr, hiff⟩ := ih (k + 1) (by omega)
        rw [Nat.mul_succ] at hr
        refine ⟨r, hr, hiff.trans ⟨fun hall j hj hjn => ?_, fun hall j hj hjn => hall j (by omega) hjn⟩⟩
        by_cases hjk : j = k
        · rw [hjk]
          exact Bool.eq_false_iff.mpr huse
        · exact hall j (by omega) hjn
    · rw [if_neg hkn]
      refine ⟨true, rfl, ⟨fun _ j hj hjn => ?_, fun _ => rfl⟩⟩
      -- a slot from `k` on would lie below the size, where the scan stopped
      have := slot_lt_size (lt_of_le_of_lt hj hjn) (show 0 < direntSize by decide)
      unfold direntSize at *
      omega

/-- `isdirempty` of a well-formed directory without holes changes nothing and finds
whether no entry after the first two is in use. -/
theorem isdirempty_present {D : FsImage} {dp : Dinode} (h : DirWf D dp) (hh : D.NoHoles dp) :
    ∃ r, D.isdirempty devsw dp = .ok (D, dp, r) ∧
      (r = true ↔ ∀ j, 2 ≤ j → j < dp.size / direntSize → entryInUse (D.dirent dp j) = false) := by
  unfold isdirempty
  rw [Nat.mul_comm 2 direntSize]
  exact isdiremptyLoop_present devsw h hh _ 2 (Nat.lt_succ_of_le (Nat.sub_le _ _))

end Present

/-! ## The map after an entry is zeroed -/

/-- INTERNAL: an entry that names `name` names exactly the names equal to `name`. -/
theorem entryNames_iff_of_names {name e : Nat → UInt8} (he : entryNames name e = true) (x : Nat → UInt8) :
    entryNames x e = true ↔ namecmp x name = 0 := by
  unfold entryNames namecmp at *
  rw [beq_iff_eq] at he ⊢
  constructor
  · intro hx
    exact strncmp_eq_zero_trans x _ name dirsiz 0 hx (strncmp_eq_zero_symm name _ dirsiz 0 he)
  · intro hx
    exact strncmp_eq_zero_trans x name _ dirsiz 0 hx he

/-- INTERNAL: a directory read on disks with the same blocks stands for the same map. -/
theorem lookup_data_congr {D D' : FsImage} (h : D'.data = D.data) (dp : Dinode) (x : Nat → UInt8) :
    D'.lookup dp x = D.lookup dp x := by
  unfold lookup dirent fileByte entry
  rw [h]

/-- **The map after the entry of a name is zeroed.**  In a directory where no name is
named twice, zeroing the slot of the entry of `name` leaves no entry for `name` or any name
equal to it, and every other name mapped as before. -/
theorem lookup_of_zeroed {D D' : FsImage} {dp : Dinode} {name : Nat → UInt8} {k : Nat}
    (hd : D.NamesDistinct dp)
    (hk : SlotTable.lookup entryInUse entryNames (D.dirent dp) (dp.size / direntSize) name = some k)
    (hD' : ∀ j, j < dp.size / direntSize →
      D'.dirent dp j = Function.update (D.dirent dp) k (overlay (fun _ => 0) 0 direntSize fun _ => 0) j)
    (x : Nat → UInt8) :
    D'.lookup dp x = if namecmp x name = 0 then none else D.lookup dp x := by
  obtain ⟨hkn, hhit, -⟩ := SlotTable.lookup_eq_some_iff.mp hk
  obtain ⟨huse, hnames⟩ := Bool.and_eq_true_iff.mp hhit
  have hfree : entryInUse (overlay (fun _ => 0) 0 direntSize fun _ => 0) = false := by decide
  -- slot `k` matches exactly the names equal to `name`
  have hiff : (entryInUse (D.dirent dp k) && entryNames x (D.dirent dp k)) = true ↔ namecmp x name = 0 := by
    rw [huse, Bool.true_and]
    exact entryNames_iff_of_names hnames x
  unfold lookup
  rw [SlotTable.lookup_congr hD' x, SlotTable.lookup_update_free hd hkn hfree x]
  by_cases hx : namecmp x name = 0
  · rw [if_pos (hiff.mpr hx), if_pos hx, Option.map_none]
  · rw [if_neg fun h => hx (hiff.mp h), if_neg hx]
    rcases hl : SlotTable.lookup entryInUse entryNames (D.dirent dp) (dp.size / direntSize) x with _ | k'
    · rfl
    · -- the entry found is in another slot, which the write kept
      obtain ⟨hk'n, hhit', -⟩ := SlotTable.lookup_eq_some_iff.mp hl
      have hk' : k' ≠ k := fun h => hx (hiff.mp (h ▸ hhit'))
      rw [Option.map_some, Option.map_some, hD' k' hk'n, Function.update_of_ne hk']

/-! ## Freeing an inode -/

/-- INTERNAL: `iput` of an inode with a link, or of a reference that is not the last,
changes nothing. -/
theorem iput_of_kept (D : FsImage) (inum : Nat) (ip : Dinode) (ref : Nat) (h : ¬(ip.nlink = 0 ∧ ref = 1)) :
    D.iput inum ip ref = .ok D := by
  unfold iput
  rw [if_neg h]
  rfl

/-- `iput` of the last reference to a well-formed inode with no link frees the inode and
exactly its blocks, and writes no data. -/
theorem iput_frees {D : FsImage} (inum : Nat) {ip : Dinode} (h : InodeWf D ip) (hlink : ip.nlink = 0) :
    ∃ D', D.iput inum ip 1 = .ok D' ∧ D'.data = D.data ∧ D'.sb = D.sb ∧
      (∀ j, D'.dinode j = if j = inum then { ip.truncated with type := .free } else D.dinode j) ∧
      ∀ b, D'.used b = true ↔ D.used b = true ∧ ¬D.OwnsBlock ip b := by
  obtain ⟨⟨D₁, ip₁⟩, hok, hip₁, hdata, hsb, hdin, hused⟩ := (itrunc_post inum h).exists_ok
  dsimp only at hip₁ hdata hsb hdin hused
  subst hip₁
  unfold iput
  rw [if_pos ⟨hlink, rfl⟩, hok, Run.ok_bind]
  refine ⟨_, rfl, by rw [iupdate, setDinode_data, hdata], by rw [iupdate, setDinode_sb, hsb],
    fun j => ?_, fun b => ?_⟩
  · rw [iupdate, setDinode_dinode, hdin]
    by_cases hj : j = inum
    · rw [if_pos hj, if_pos hj]
    · rw [if_neg hj, if_neg hj, if_neg hj]
  · rw [iupdate, setDinode_used, hused]

/-- INTERNAL: the blocks an inode owns are read off its block addresses and its indirect
block. -/
theorem ownsBlock_congr {D D' : FsImage} {ip ip' : Dinode} (haddr : ∀ bn, D'.blockAddr ip' bn = D.blockAddr ip bn)
    (hind : ip'.addrs ndirect = ip.addrs ndirect) (b : Nat) : D'.OwnsBlock ip' b ↔ D.OwnsBlock ip b := by
  unfold OwnsBlock
  simp only [haddr, hind]


/-! ## `sys_unlink` of a file -/

section Unlink

variable (devsw : Nat → Option Devsw)

/-- INTERNAL: `sys_unlink` of a name that a directory without holes maps to an inode that
is no directory runs to the `iput` of that inode, one link less, after zeroing the entry. -/
theorem sysUnlink_of_file {D D₁ D₂ : FsImage} {cwd : Nat} {path : List UInt8} {dnum inum k : Nat}
    {name : Nat → UInt8} (dref iref : Nat)
    (hpath : Path.namex devsw D cwd path true (fun _ => 0) = .ok (D₁, some dnum, name))
    (hdir : DirWf D₁ (D₁.dinode dnum)) (hholes : D₁.NoHoles (D₁.dinode dnum))
    (hdlink : (D₁.dinode dnum).nlink ≠ 0) (hdot : namecmp name dotName ≠ 0)
    (hdotdot : namecmp name dotdotName ≠ 0)
    (hfound : D₁.lookup (D₁.dinode dnum) name = some (inum, direntSize * k))
    (hfile : (D₁.dinode inum).type ≠ .dir) (hty : (D₁.dinode inum).type ≠ .free)
    (hlink : (D₁.dinode inum).nlink ≠ 0)
    (hw : D₁.writei devsw dnum (D₁.dinode dnum) (fun _ => 0) (direntSize * k) direntSize =
      .ok (D₂, D₁.dinode dnum, direntSize)) :
    D.sysUnlink devsw cwd path dref iref =
      ((D₂.iupdate inum { D₁.dinode inum with nlink := (D₁.dinode inum).nlink - 1 }).iput inum
        { D₁.dinode inum with nlink := (D₁.dinode inum).nlink - 1 } iref) >>= fun D' => pure (D', 0) := by
  unfold sysUnlink
  rw [hpath, Run.ok_bind]
  dsimp only
  -- neither `.` nor `..`; the entry is found and the directory read without change
  rw [if_neg (not_or.mpr ⟨hdot, hdotdot⟩), dirlookup_present devsw hdir hholes name, Run.ok_bind]
  dsimp only
  rw [hfound]
  dsimp only
  rw [if_neg hty, if_neg (by omega), if_neg hfile, pure_bind]
  dsimp only
  rw [if_neg (not_not_intro rfl), hw, Run.ok_bind]
  dsimp only
  -- the entry is zeroed; the parent keeps its links, so its `iput` does nothing
  rw [if_neg (not_not_intro rfl), if_neg hfile]
  dsimp only
  rw [iput_of_kept _ _ _ _ fun h => hdlink h.1, Run.ok_bind]

/-- **`sys_unlink` removes the name of a file.**  Let the path resolve to a name in a
well-formed directory without holes, in which no name is named twice and which has a link;
let the name be neither `.` nor `..`, and the directory map it to a well-formed inode in use
that is no directory, has a link, and shares no block with the directory.  Then
`sys_unlink` returns `0`, and afterwards the directory maps no name equal to the one
removed and every other name as before, and no other inode is changed.  When that was the
last link of the inode and the last reference to it, the inode is freed, truncated, and
exactly its blocks are marked free; otherwise it has one link less and the bitmap is as
it was. -/
theorem sysUnlink_removes_file {D D₁ : FsImage} {cwd : Nat} {path : List UInt8} {dnum inum off : Nat}
    {name : Nat → UInt8} (dref iref : Nat)
    (hpath : Path.namex devsw D cwd path true (fun _ => 0) = .ok (D₁, some dnum, name))
    (hdir : DirWf D₁ (D₁.dinode dnum)) (hholes : D₁.NoHoles (D₁.dinode dnum))
    (hd : D₁.NamesDistinct (D₁.dinode dnum)) (hdlink : (D₁.dinode dnum).nlink ≠ 0)
    (hdot : namecmp name dotName ≠ 0) (hdotdot : namecmp name dotdotName ≠ 0)
    (hfound : D₁.lookup (D₁.dinode dnum) name = some (inum, off))
    (hfile : (D₁.dinode inum).type ≠ .dir) (hty : (D₁.dinode inum).type ≠ .free)
    (hlink : (D₁.dinode inum).nlink ≠ 0) (hwf : InodeWf D₁ (D₁.dinode inum))
    (hsep : ∀ b, D₁.OwnsBlock (D₁.dinode dnum) b → ¬D₁.OwnsBlock (D₁.dinode inum) b) :
    ∃ D', D.sysUnlink devsw cwd path dref iref = .ok (D', 0) ∧
      (∀ x, D'.lookup (D'.dinode dnum) x =
        if namecmp x name = 0 then none else D₁.lookup (D₁.dinode dnum) x) ∧
      (∀ j, j ≠ inum → D'.dinode j = D₁.dinode j) ∧
      ((D₁.dinode inum).nlink = 1 ∧ iref = 1 →
        D'.dinode inum = { ({ D₁.dinode inum with nlink := 0 } : Dinode).truncated with type := .free } ∧
        ∀ b, D'.used b = true ↔ D₁.used b = true ∧ ¬D₁.OwnsBlock (D₁.dinode inum) b) ∧
      (¬((D₁.dinode inum).nlink = 1 ∧ iref = 1) →
        D'.dinode inum = { D₁.dinode inum with nlink := (D₁.dinode inum).nlink - 1 } ∧ D'.used = D₁.used) := by
  -- the slot of the entry found
  obtain ⟨k, hk, hkv⟩ := Option.map_eq_some_iff.mp hfound
  obtain ⟨-, hoff⟩ := Prod.mk.inj hkv
  subst hoff
  have hkn := (SlotTable.lookup_eq_some_iff.mp hk).1
  have hne : dnum ≠ inum := fun h => hfile (h ▸ hdir.dir)
  -- the entry is zeroed without allocating, and the run reaches the `iput` of the file
  obtain ⟨D₂, hw, hdin₂, hused₂, hsb₂, hdata₂, hent₂⟩ := writei_zero_entry devsw dnum hdir hholes hkn
  have hrun := sysUnlink_of_file devsw dref iref hpath hdir hholes hdlink hdot hdotdot hfound hfile hty hlink hw
  -- the file one link less, written back, keeps its blocks: the directory's are not its
  have haddr : ∀ bn, (D₂.iupdate inum { D₁.dinode inum with nlink := (D₁.dinode inum).nlink - 1 }).blockAddr
      { D₁.dinode inum with nlink := (D₁.dinode inum).nlink - 1 } bn = D₁.blockAddr (D₁.dinode inum) bn :=
    blockAddr_congr fun hind => hdata₂ _ fun bn hbn heq =>
      hsep _ ⟨hind, Or.inl ⟨bn, hbn, heq⟩⟩ ⟨hind, Or.inr rfl⟩
  have hdp₃ : (D₂.iupdate inum { D₁.dinode inum with nlink := (D₁.dinode inum).nlink - 1 }).dinode dnum =
      D₁.dinode dnum := by
    rw [iupdate, setDinode_dinode, if_neg hne, hdin₂]
  -- the directory, read through the same blocks, has lost the name
  have hmap : ∀ D' : FsImage, D'.data = D₂.data → D'.dinode dnum = D₁.dinode dnum → ∀ x,
      D'.lookup (D'.dinode dnum) x = if namecmp x name = 0 then none else D₁.lookup (D₁.dinode dnum) x :=
    fun D' hdata hdp x => by
      rw [hdp, lookup_data_congr hdata]
      exact lookup_of_zeroed hd hk hent₂ x
  by_cases hlast : (D₁.dinode inum).nlink = 1 ∧ iref = 1
  · -- the last link and the last reference: `iput` frees the inode and its blocks
    obtain ⟨h1, rfl⟩ := hlast
    have hwf₃ := hwf.congr haddr rfl (fun c hc => by rw [iupdate, setDinode_used, hused₂]; exact hc)
      (by rw [iupdate, setDinode_sb, hsb₂]) hwf.size_le
    obtain ⟨D', hput, hdata', -, hdin', hused'⟩ := iput_frees inum hwf₃ (show (D₁.dinode inum).nlink - 1 = 0 by omega)
    refine ⟨D', by rw [hrun, hput, Run.ok_bind]; rfl, hmap D' hdata' (by rw [hdin', if_neg hne, hdp₃]),
      fun j hj => ?_, fun _ => ⟨?_, fun b => ?_⟩, fun h => absurd ⟨h1, rfl⟩ h⟩
    · rw [hdin', if_neg hj, iupdate, setDinode_dinode, if_neg hj, hdin₂]
    · rw [hdin', if_pos rfl, h1]
    · rw [hused', ownsBlock_congr haddr rfl, iupdate, setDinode_used, hused₂]
  · -- a link or a reference is left: the inode keeps its blocks, one link less
    have hput := iput_of_kept (D₂.iupdate inum { D₁.dinode inum with nlink := (D₁.dinode inum).nlink - 1 }) inum
      { D₁.dinode inum with nlink := (D₁.dinode inum).nlink - 1 } iref fun h => hlast
        ⟨by have h0 : (D₁.dinode inum).nlink - 1 = 0 := h.1; omega, h.2⟩
    refine ⟨D₂.iupdate inum { D₁.dinode inum with nlink := (D₁.dinode inum).nlink - 1 },
      by rw [hrun, hput, Run.ok_bind]; rfl, hmap _ rfl hdp₃, fun j hj => ?_,
      fun h => absurd h hlast, fun _ => ⟨?_, ?_⟩⟩
    · rw [iupdate, setDinode_dinode, if_neg hj, hdin₂]
    · rw [iupdate, setDinode_dinode, if_pos rfl]
    · rw [iupdate, setDinode_used, hused₂]

/-- INTERNAL: inodes without an indirect block whose direct addresses in use differ share
no block. -/
theorem not_ownsBlock_of_direct {D : FsImage} {ip ip' : Dinode} (hind : ip.addrs ndirect = 0)
    (hind' : ip'.addrs ndirect = 0)
    (h : ∀ j, j < ndirect → ∀ j', j' < ndirect → ip.addrs j ≠ 0 → ip.addrs j ≠ ip'.addrs j') (b : Nat) :
    D.OwnsBlock ip b → ¬D.OwnsBlock ip' b := by
  rw [ownsBlock_of_ind_zero D hind, ownsBlock_of_ind_zero D hind']
  rintro ⟨hb, j, -, hj, hjb⟩ ⟨-, j', -, hj', hjb'⟩
  exact h j hj j' hj' (hjb ▸ hb) (hjb.trans hjb'.symm)

/-- A directory of one entry, `a`, in block `1`. -/
def unlinkDir : Dinode :=
  { Dinode.zero with type := .dir, nlink := 1, size := direntSize, addrs := fun k => if k = 0 then 1 else 0 }

/-- A file of one link and one block, block `2`. -/
def unlinkFile : Dinode :=
  { Dinode.zero with type := .file, nlink := 1, size := bsize, addrs := fun k => if k = 0 then 2 else 0 }

/-- The disk of the directory `1` whose entry `a` is the file `2`. -/
def unlinkDisk : FsImage :=
  ⟨⟨64, 3⟩, fun j => if j = 1 then unlinkDir else if j = 2 then unlinkFile else Dinode.zero, fun b => b < 3,
    fun b i => if b = 1 ∧ i = 0 then 2 else if b = 1 ∧ i = 2 then 97 else 0⟩

theorem unlinkDir_wf : DirWf unlinkDisk (unlinkDisk.dinode 1) :=
  ⟨InodeWf.of_direct rfl (by decide) (by decide) rfl (by decide) (by decide), rfl, rfl⟩

theorem unlinkDir_noHoles : unlinkDisk.NoHoles (unlinkDisk.dinode 1) := by
  unfold NoHoles
  decide

/-- `unlink("a")` in the directory `1`, the only reference to the file: the name goes and
the file and its block are freed. -/
theorem sysUnlink_one_file :
    Path.namex (fun _ => none) unlinkDisk 1 [97] true (fun _ => 0) =
        .ok (unlinkDisk, some 1, Path.copyName (fun _ => 0) [97]) ∧
      DirWf unlinkDisk (unlinkDisk.dinode 1) ∧ unlinkDisk.NoHoles (unlinkDisk.dinode 1) ∧
      unlinkDisk.NamesDistinct (unlinkDisk.dinode 1) ∧ (unlinkDisk.dinode 1).nlink ≠ 0 ∧
      namecmp (Path.copyName (fun _ => 0) [97]) dotName ≠ 0 ∧
      namecmp (Path.copyName (fun _ => 0) [97]) dotdotName ≠ 0 ∧
      unlinkDisk.lookup (unlinkDisk.dinode 1) (Path.copyName (fun _ => 0) [97]) = some (2, 0) ∧
      (unlinkDisk.dinode 2).type ≠ .dir ∧ (unlinkDisk.dinode 2).type ≠ .free ∧
      (unlinkDisk.dinode 2).nlink ≠ 0 ∧ InodeWf unlinkDisk (unlinkDisk.dinode 2) ∧
      (∀ b, unlinkDisk.OwnsBlock (unlinkDisk.dinode 1) b → ¬unlinkDisk.OwnsBlock (unlinkDisk.dinode 2) b) ∧
      ∃ D', unlinkDisk.sysUnlink (fun _ => none) 1 [97] 1 1 = .ok (D', 0) ∧
        (∀ x, D'.lookup (D'.dinode 1) x = if namecmp x (Path.copyName (fun _ => 0) [97]) = 0 then none
          else unlinkDisk.lookup (unlinkDisk.dinode 1) x) ∧
        (∀ j, j ≠ 2 → D'.dinode j = unlinkDisk.dinode j) ∧
        ((unlinkDisk.dinode 2).nlink = 1 ∧ 1 = 1 →
          D'.dinode 2 = { ({ unlinkDisk.dinode 2 with nlink := 0 } : Dinode).truncated with type := .free } ∧
          ∀ b, D'.used b = true ↔ unlinkDisk.used b = true ∧ ¬unlinkDisk.OwnsBlock (unlinkDisk.dinode 2) b) ∧
        (¬((unlinkDisk.dinode 2).nlink = 1 ∧ 1 = 1) →
          D'.dinode 2 = { unlinkDisk.dinode 2 with nlink := (unlinkDisk.dinode 2).nlink - 1 } ∧
          D'.used = unlinkDisk.used) :=
  have hpath : Path.namex (fun _ => none) unlinkDisk 1 [97] true (fun _ => 0) =
      .ok (unlinkDisk, some 1, Path.copyName (fun _ => 0) [97]) := rfl
  have hd : unlinkDisk.NamesDistinct (unlinkDisk.dinode 1) := NamesDistinct.of_size_le le_rfl
  have hfound : unlinkDisk.lookup (unlinkDisk.dinode 1) (Path.copyName (fun _ => 0) [97]) = some (2, 0) := by
    decide
  have hwf : InodeWf unlinkDisk (unlinkDisk.dinode 2) :=
    InodeWf.of_direct rfl (by decide) (by decide) rfl (by decide) (by decide)
  have hsep : ∀ b, unlinkDisk.OwnsBlock (unlinkDisk.dinode 1) b → ¬unlinkDisk.OwnsBlock (unlinkDisk.dinode 2) b :=
    not_ownsBlock_of_direct rfl rfl (by decide)
  ⟨hpath, unlinkDir_wf, unlinkDir_noHoles, hd, by decide, by decide, by decide, hfound, by decide, by decide,
    by decide, hwf, hsep,
    sysUnlink_removes_file (fun _ => none) 1 1 hpath unlinkDir_wf unlinkDir_noHoles hd (by decide) (by decide)
      (by decide) hfound (by decide) (by decide) (by decide) hwf hsep⟩

/-- **`sys_unlink` refuses `.`, `..`, a name that is not there, and a directory that is not
empty.**  Let the path resolve to a name in a well-formed directory without holes that has
a link.  When the name is `.` or `..`, when the directory maps no name equal to it, or when
it maps it to a well-formed directory without holes and with a link that has an entry in
use after `.` and `..`, `sys_unlink` returns `-1` and leaves the disk as the resolution of
the path left it. -/
theorem sysUnlink_refuses {D D₁ : FsImage} {cwd : Nat} {path : List UInt8} {dnum : Nat}
    {name : Nat → UInt8} (dref iref : Nat)
    (hpath : Path.namex devsw D cwd path true (fun _ => 0) = .ok (D₁, some dnum, name))
    (hdir : DirWf D₁ (D₁.dinode dnum)) (hholes : D₁.NoHoles (D₁.dinode dnum))
    (hdlink : (D₁.dinode dnum).nlink ≠ 0)
    (hrefuse : namecmp name dotName = 0 ∨ namecmp name dotdotName = 0 ∨
      D₁.lookup (D₁.dinode dnum) name = none ∨
      ∃ inum off, D₁.lookup (D₁.dinode dnum) name = some (inum, off) ∧ DirWf D₁ (D₁.dinode inum) ∧
        D₁.NoHoles (D₁.dinode inum) ∧ (D₁.dinode inum).nlink ≠ 0 ∧
        ∃ j, 2 ≤ j ∧ j < (D₁.dinode inum).size / direntSize ∧ entryInUse (D₁.dirent (D₁.dinode inum) j) = true) :
    D.sysUnlink devsw cwd path dref iref = .ok (D₁, -1) := by
  have hkeep : D₁.iput dnum (D₁.dinode dnum) dref = .ok D₁ := iput_of_kept _ _ _ _ fun h => hdlink h.1
  unfold sysUnlink
  rw [hpath, Run.ok_bind]
  dsimp only
  by_cases hdots : namecmp name dotName = 0 ∨ namecmp name dotdotName = 0
  · -- `.` or `..`: the directory is put back at once
    rw [if_pos hdots, hkeep, Run.ok_bind]
    rfl
  rw [if_neg hdots, dirlookup_present devsw hdir hholes name, Run.ok_bind]
  dsimp only
  rcases hrefuse with h | h | h | ⟨inum, off, hfound, hcdir, hcholes, hclink, j, hj2, hjn, hjuse⟩
  · exact absurd (Or.inl h) hdots
  · exact absurd (Or.inr h) hdots
  · -- no entry names it
    rw [h]
    dsimp only
    rw [hkeep, Run.ok_bind]
    rfl
  · -- a directory with an entry after `.` and `..`: `isdirempty` says no
    obtain ⟨r, hr, hiff⟩ := isdirempty_present devsw hcdir hcholes
    have hr0 : r = false := Bool.eq_false_iff.mpr fun ht => by
      rw [hiff.mp ht j hj2 hjn] at hjuse
      exact Bool.false_ne_true hjuse
    subst hr0
    rw [hfound]
    dsimp only
    rw [if_neg (by rw [hcdir.dir]; decide), if_neg (by omega), if_pos hcdir.dir, hr, Run.ok_bind]
    dsimp only
    rw [if_pos (by decide), iput_of_kept _ _ _ _ fun h => hclink h.1, Run.ok_bind, hkeep, Run.ok_bind]
    rfl

/-- The directory `2`, in block `2`: `.`, `..`, and `b` for the file `3`. -/
def subDir : Dinode :=
  { Dinode.zero with type := .dir, nlink := 1, size := 3 * direntSize, addrs := fun k => if k = 0 then 2 else 0 }

/-- The disk of the directory `1` whose entry `a` is the directory `2`, which is not empty. -/
def subDirDisk : FsImage :=
  ⟨⟨64, 4⟩, fun j => if j = 1 then unlinkDir else if j = 2 then subDir else Dinode.zero, fun b => b < 3,
    fun b i =>
      if b = 1 then (if i = 0 then 2 else if i = 2 then 97 else 0)
      else if b = 2 then
        (if i = 0 then 2 else if i = 2 then 46 else if i = 16 then 1 else if i = 18 ∨ i = 19 then 46
          else if i = 32 then 3 else if i = 34 then 98 else 0)
      else 0⟩

/-- `unlink(".")` in the directory `1` is refused, and so is `unlink("a")` of a directory
that is not empty. -/
theorem sysUnlink_dot_and_nonempty_refused :
    (Path.namex (fun _ => none) unlinkDisk 1 [46] true (fun _ => 0) =
        .ok (unlinkDisk, some 1, Path.copyName (fun _ => 0) [46]) ∧
      DirWf unlinkDisk (unlinkDisk.dinode 1) ∧ unlinkDisk.NoHoles (unlinkDisk.dinode 1) ∧
      (unlinkDisk.dinode 1).nlink ≠ 0 ∧ namecmp (Path.copyName (fun _ => 0) [46]) dotName = 0 ∧
      unlinkDisk.sysUnlink (fun _ => none) 1 [46] 1 1 = .ok (unlinkDisk, -1)) ∧
    (Path.namex (fun _ => none) subDirDisk 1 [97] true (fun _ => 0) =
        .ok (subDirDisk, some 1, Path.copyName (fun _ => 0) [97]) ∧
      DirWf subDirDisk (subDirDisk.dinode 1) ∧ subDirDisk.NoHoles (subDirDisk.dinode 1) ∧
      (subDirDisk.dinode 1).nlink ≠ 0 ∧
      (∃ inum off, subDirDisk.lookup (subDirDisk.dinode 1) (Path.copyName (fun _ => 0) [97]) = some (inum, off) ∧
        DirWf subDirDisk (subDirDisk.dinode inum) ∧ subDirDisk.NoHoles (subDirDisk.dinode inum) ∧
        (subDirDisk.dinode inum).nlink ≠ 0 ∧ ∃ j, 2 ≤ j ∧ j < (subDirDisk.dinode inum).size / direntSize ∧
          entryInUse (subDirDisk.dirent (subDirDisk.dinode inum) j) = true) ∧
      subDirDisk.sysUnlink (fun _ => none) 1 [97] 1 1 = .ok (subDirDisk, -1)) :=
  have hpath : Path.namex (fun _ => none) unlinkDisk 1 [46] true (fun _ => 0) =
      .ok (unlinkDisk, some 1, Path.copyName (fun _ => 0) [46]) := rfl
  have hdot : namecmp (Path.copyName (fun _ => 0) [46]) dotName = 0 := by decide
  have hpath' : Path.namex (fun _ => none) subDirDisk 1 [97] true (fun _ => 0) =
      .ok (subDirDisk, some 1, Path.copyName (fun _ => 0) [97]) := rfl
  have hdir : DirWf subDirDisk (subDirDisk.dinode 1) :=
    ⟨InodeWf.of_direct rfl (by decide) (by decide) rfl (by decide) (by decide), rfl, rfl⟩
  have hholes : subDirDisk.NoHoles (subDirDisk.dinode 1) := by
    unfold NoHoles
    decide
  have hsub : DirWf subDirDisk (subDirDisk.dinode 2) :=
    ⟨InodeWf.of_direct rfl (by decide) (by decide) rfl (by decide) (by decide), rfl, rfl⟩
  have hsubholes : subDirDisk.NoHoles (subDirDisk.dinode 2) := by
    unfold NoHoles
    decide
  have hfull : ∃ inum off, subDirDisk.lookup (subDirDisk.dinode 1) (Path.copyName (fun _ => 0) [97]) =
        some (inum, off) ∧ DirWf subDirDisk (subDirDisk.dinode inum) ∧
      subDirDisk.NoHoles (subDirDisk.dinode inum) ∧ (subDirDisk.dinode inum).nlink ≠ 0 ∧
      ∃ j, 2 ≤ j ∧ j < (subDirDisk.dinode inum).size / direntSize ∧
        entryInUse (subDirDisk.dirent (subDirDisk.dinode inum) j) = true :=
    ⟨2, 0, by decide, hsub, hsubholes, by decide, 2, le_rfl, by decide, by decide⟩
  ⟨⟨hpath, unlinkDir_wf, unlinkDir_noHoles, by decide, hdot,
      sysUnlink_refuses (fun _ => none) 1 1 hpath unlinkDir_wf unlinkDir_noHoles (by decide) (Or.inl hdot)⟩,
    ⟨hpath', hdir, hholes, by decide, hfull,
      sysUnlink_refuses (fun _ => none) 1 1 hpath' hdir hholes (by decide) (Or.inr (Or.inr (Or.inr hfull)))⟩⟩

end Unlink

end FsImage

end Xv6
