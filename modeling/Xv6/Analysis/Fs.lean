import Xv6.Model.Fs
import Xv6.Analysis.Exec

/-!
# The on-disk file system: what a block and an inode may be

What the claims about the disk count, on the model of `Xv6.Model.Fs`:

* `FsImage.refs D b`, the references to block `b` among the allocated inodes: their direct
  addresses, their indirect block and the entries of that block; and the bitmap law
  `FsImage.BitmapLaw`, that a data block is marked exactly when it is referenced once, no
  block twice, and every block below `nmeta` marked;
* `FsImage.links D x`, the directory entries that count as links of the inode `x` (no `.`
  entry, each subdirectory's `..` on its parent, the root counting one for its missing
  parent); and the link law `FsImage.LinkLaw`, that every allocated inode has as many links
  as its `nlink` says.

Then one equation for each function the claims run: `balloc` takes the first free block
(`balloc_first_free`), `bmap` of a block that has an address or not (`bmap_direct_present`,
`bmap_direct_hole`), `readi` of an entry inside one block (`readi_in_block`), a step of
`dirlookup` past an entry that does not match (`dirlookupLoop_skip`), and `ialloc` of the
first free inode (`ialloc_first_free`).
-/

set_option autoImplicit false

namespace Xv6

open Window

/-! ## The updates of a disk -/

namespace FsImage

variable (D : FsImage)

@[simp] theorem setDinode_dinode (inum : Nat) (ip : Dinode) (j : Nat) :
    (D.setDinode inum ip).dinode j = if j = inum then ip else D.dinode j := rfl

@[simp] theorem setDinode_used (inum : Nat) (ip : Dinode) : (D.setDinode inum ip).used = D.used := rfl

@[simp] theorem setDinode_data (inum : Nat) (ip : Dinode) : (D.setDinode inum ip).data = D.data := rfl

@[simp] theorem setDinode_sb (inum : Nat) (ip : Dinode) : (D.setDinode inum ip).sb = D.sb := rfl

@[simp] theorem setUsed_used (b : Nat) (v : Bool) (c : Nat) :
    (D.setUsed b v).used c = if c = b then v else D.used c := rfl

@[simp] theorem setUsed_dinode (b : Nat) (v : Bool) : (D.setUsed b v).dinode = D.dinode := rfl

@[simp] theorem setUsed_data (b : Nat) (v : Bool) : (D.setUsed b v).data = D.data := rfl

@[simp] theorem setUsed_sb (b : Nat) (v : Bool) : (D.setUsed b v).sb = D.sb := rfl

@[simp] theorem bzero_data (b c : Nat) : (D.bzero b).data c = if c = b then fun _ => 0 else D.data c := rfl

@[simp] theorem bzero_used (b : Nat) : (D.bzero b).used = D.used := rfl

@[simp] theorem bzero_dinode (b : Nat) : (D.bzero b).dinode = D.dinode := rfl

@[simp] theorem bzero_sb (b : Nat) : (D.bzero b).sb = D.sb := rfl

@[simp] theorem writeData_dinode (b off n : Nat) (src : Nat → UInt8) :
    (D.writeData b off n src).dinode = D.dinode := rfl

@[simp] theorem writeData_used (b off n : Nat) (src : Nat → UInt8) :
    (D.writeData b off n src).used = D.used := rfl

@[simp] theorem writeData_sb (b off n : Nat) (src : Nat → UInt8) :
    (D.writeData b off n src).sb = D.sb := rfl

theorem writeData_data (b off n : Nat) (src : Nat → UInt8) (c : Nat) :
    (D.writeData b off n src).data c = if c = b then overlay (D.data b) off n src else D.data c := rfl

/-- A write to a block leaves every other block alone. -/
theorem writeData_data_of_ne {b c : Nat} (off n : Nat) (src : Nat → UInt8) (h : c ≠ b) :
    (D.writeData b off n src).data c = D.data c := by
  rw [writeData_data, if_neg h]

/-- A write to a block leaves the entries of every other indirect block alone. -/
theorem entry_writeData_of_ne {b ind : Nat} (off n : Nat) (src : Nat → UInt8) (h : ind ≠ b) (j : Nat) :
    (D.writeData b off n src).entry ind j = D.entry ind j := by
  unfold entry
  rw [writeData_data_of_ne D off n src h]

end FsImage

@[simp] theorem Dinode.setAddr_addrs (ip : Dinode) (k a j : Nat) :
    (ip.setAddr k a).addrs j = if j = k then a else ip.addrs j := rfl

@[simp] theorem Dinode.setAddr_type (ip : Dinode) (k a : Nat) : (ip.setAddr k a).type = ip.type := rfl

@[simp] theorem Dinode.setAddr_size (ip : Dinode) (k a : Nat) : (ip.setAddr k a).size = ip.size := rfl

/-! ## References and links -/

/-- The references of the inode `ip` to block `b`: its direct addresses, its indirect
block and the entries of that block. -/
def Dinode.refsTo (D : FsImage) (ip : Dinode) (b : Nat) : Nat :=
  ((List.range (ndirect + 1)).countP fun k => ip.addrs k = b) +
    if ip.addrs ndirect = 0 then 0
    else (List.range nindirect).countP fun j => D.entry (ip.addrs ndirect) j = b

namespace FsImage

/-- The references to block `b` of the allocated inodes. -/
def refs (D : FsImage) (b : Nat) : Nat :=
  ((List.range D.sb.ninodes).map fun inum =>
    if (D.dinode inum).type = .free then 0 else (D.dinode inum).refsTo D b).sum

/-- The bitmap agrees with the inodes: a data block is marked exactly when it is
referenced once, no block is referenced twice, and the blocks below `nmeta` are marked. -/
def BitmapLaw (D : FsImage) : Prop :=
  (∀ b, Mkfs.nmeta ≤ b → b < D.sb.size → (D.used b = true ↔ D.refs b = 1)) ∧
    (∀ b, b ≠ 0 → D.refs b ≤ 1) ∧ ∀ b, b < Mkfs.nmeta → D.used b = true

/-- Byte `o` of the content of the inode `ip`, a block without an address reading as
zeros. -/
def fileByte (D : FsImage) (ip : Dinode) (o : Nat) : UInt8 :=
  let bn := o / bsize
  let addr := if bn < ndirect then ip.addrs bn
    else if ip.addrs ndirect = 0 then 0 else D.entry (ip.addrs ndirect) (bn - ndirect)
  if addr = 0 then 0 else D.data addr (o % bsize)

/-- The C string of the bytes `s`. -/
def cstr (s : List UInt8) : Nat → UInt8 := fun i => s.getD i 0

/-- The entries of the directory `d` that are links of the inode `x`: its entries
naming `x`, but `.`, and in the root `..`, which names the root itself. -/
def dirLinks (D : FsImage) (d x : Nat) : Nat :=
  (List.range ((D.dinode d).size / direntSize)).countP fun k =>
    let e : Nat → UInt8 := fun i => D.fileByte (D.dinode d) (direntSize * k + i)
    le16 e 0 = x ∧ namecmp (fun i => e (2 + i)) (cstr [46]) ≠ 0 ∧
      ¬(d = rootino ∧ namecmp (fun i => e (2 + i)) (cstr [46, 46]) = 0)

/-- The links of the inode `x`: the entries of the directories naming it, and one for
the root, which has no parent. -/
def links (D : FsImage) (x : Nat) : Nat :=
  (if x = rootino then 1 else 0) +
    ((List.range D.sb.ninodes).map fun d => if (D.dinode d).type = .dir then D.dirLinks d x else 0).sum

/-- Every allocated inode has as many links as its `nlink` says. -/
def LinkLaw (D : FsImage) : Prop :=
  ∀ x, 1 ≤ x → x < D.sb.ninodes → (D.dinode x).type ≠ .free → (D.dinode x).nlink = D.links x

/-! ## The functions, one equation each -/

variable (D : FsImage)

/-- INTERNAL: the scan of `balloc` from `b` reaches the first free block `B`. -/
theorem ballocLoop_first_free {B : Nat} (hB : B < D.sb.size) (hfree : D.used B = false) :
    ∀ fuel b, b ≤ B → B - b < fuel → (∀ c, b ≤ c → c < B → D.used c = true) →
      D.ballocLoop fuel b = .ok ((D.setUsed B true).bzero B, B) := by
  intro fuel
  induction fuel with
  | zero =>
      intro b _ h
      omega
  | succ fuel ih =>
      intro b hb hfuel hused
      rw [ballocLoop, if_pos (by omega)]
      by_cases hbB : b = B
      · subst hbB
        rw [if_pos hfree]
        rfl
      · rw [if_neg (by rw [hused b le_rfl (by omega)]; decide)]
        exact ih (b + 1) (by omega) (by omega) fun c h₁ h₂ => hused c (by omega) h₂

/-- `balloc` takes the first free block, marks it and zeroes it. -/
theorem balloc_first_free {B : Nat} (hB : B < D.sb.size) (hfree : D.used B = false)
    (hused : ∀ c, c < B → D.used c = true) :
    D.balloc = .ok ((D.setUsed B true).bzero B, B) :=
  D.ballocLoop_first_free hB hfree _ 0 (Nat.zero_le B) (by omega) fun c _ h => hused c h

/-- `bmap` of a direct block that has an address. -/
theorem bmap_direct_present (ip : Dinode) {bn : Nat} (hbn : bn < ndirect) (h : ip.addrs bn ≠ 0) :
    D.bmap ip bn = .ok (D, ip, ip.addrs bn) := by
  simp only [bmap, if_pos hbn, if_neg h]
  rfl

/-- `bmap` of a direct block without an address: a new block, whose address goes into
the cached inode. -/
theorem bmap_direct_hole {D' : FsImage} {ip : Dinode} {bn a : Nat} (hbn : bn < ndirect)
    (h : ip.addrs bn = 0) (hb : D.balloc = .ok (D', a)) :
    D.bmap ip bn = .ok (D', ip.setAddr bn a, a) := by
  simp only [bmap, if_pos hbn, if_pos h, hb, Run.ok_bind]
  rfl

/-- INTERNAL: the copy loop of a read inside one block makes one pass. -/
theorem readiLoop_in_block {D' : FsImage} {ip ip' : Dinode} (dst : Nat → UInt8) {off n a : Nat}
    (fuel : Nat) (hn : 0 < n) (hfit : off % bsize + n ≤ bsize)
    (hb : D.bmap ip (off / bsize) = .ok (D', ip', a)) :
    readiLoop n (fuel + 2) D ip dst 0 off =
      .ok (D', ip', overlay dst 0 n fun i => D'.data a (off % bsize + i)) := by
  have hm : min (n - 0) (bsize - off % bsize) = n := by omega
  rw [readiLoop, if_pos hn, hb]
  simp only [Run.ok_bind, hm, Nat.zero_add]
  rw [readiLoop, if_neg (Nat.lt_irrefl n)]
  rfl

/-- `readi` of bytes inside one block of a file: the bytes of the block `bmap`
gives. -/
theorem readi_in_block (devsw : Nat → Option Devsw) {D' : FsImage} {ip ip' : Dinode}
    (dst : Nat → UInt8) {off n a : Nat} (hty : ip.type ≠ .dev) (hsize : off + n ≤ ip.size)
    (hwrap : off + n < uintMod) (hn : 0 < n) (hfit : off % bsize + n ≤ bsize)
    (hb : D.bmap ip (off / bsize) = .ok (D', ip', a)) :
    D.readi devsw ip dst off n = .ok (D', ip', n, overlay dst 0 n fun i => D'.data a (off % bsize + i)) := by
  have hok : ¬(ip.size < off ∨ (off + n) % uintMod < off) := by
    rw [Nat.mod_eq_of_lt hwrap]
    omega
  unfold readi
  rw [if_neg hty, if_neg hok, if_neg (by omega)]
  dsimp only
  rw [readiLoop_in_block D dst (n / bsize) hn hfit hb]
  rfl

/-- A step of `dirlookup` past an entry that is empty or has another name. -/
theorem dirlookupLoop_skip (devsw : Nat → Option Devsw) (name : Nat → UInt8) {D' : FsImage}
    {dp dp' : Dinode} {off : Nat} {de : Nat → UInt8} (fuel : Nat) (hoff : off < dp.size)
    (hr : D.readi devsw dp (fun _ => 0) off direntSize = .ok (D', dp', direntSize, de))
    (hmiss : le16 de 0 = 0 ∨ namecmp name (fun i => de (2 + i)) ≠ 0) :
    dirlookupLoop devsw name (fuel + 1) D dp off = dirlookupLoop devsw name fuel D' dp' (off + direntSize) := by
  rw [dirlookupLoop, if_pos hoff, hr]
  simp only [Run.ok_bind, ne_eq, not_true_eq_false, if_false]
  by_cases h0 : le16 de 0 = 0
  · rw [if_pos h0]
  · rw [if_neg h0, if_neg (hmiss.resolve_left h0)]

/-- INTERNAL: the scan of `ialloc` from `inum` reaches the first free inode `I`. -/
theorem iallocLoop_first_free (type : DiskType) {I : Nat} (hI : I < D.sb.ninodes)
    (hfree : (D.dinode I).type = .free) :
    ∀ fuel inum, inum ≤ I → I - inum < fuel → (∀ j, inum ≤ j → j < I → (D.dinode j).type ≠ .free) →
      iallocLoop type fuel D inum = .ok (D.setDinode I { Dinode.zero with type := type }, I) := by
  intro fuel
  induction fuel with
  | zero =>
      intro inum _ h
      omega
  | succ fuel ih =>
      intro inum hinum hfuel hused
      rw [iallocLoop, if_pos (by omega)]
      by_cases hiI : inum = I
      · subst hiI
        rw [if_pos hfree]
        rfl
      · rw [if_neg (hused inum le_rfl (by omega))]
        exact ih (inum + 1) (by omega) (by omega) fun j h₁ h₂ => hused j (by omega) h₂

/-- `ialloc` takes the first free inode. -/
theorem ialloc_first_free (type : DiskType) {I : Nat} (h1 : 1 ≤ I) (hI : I < D.sb.ninodes)
    (hfree : (D.dinode I).type = .free) (hused : ∀ j, 1 ≤ j → j < I → (D.dinode j).type ≠ .free) :
    D.ialloc type = .ok (D.setDinode I { Dinode.zero with type := type }, I) :=
  D.iallocLoop_first_free type hI hfree _ 1 h1 (by omega) hused

@[simp] theorem setDinode_setDinode (inum : Nat) (ip ip' : Dinode) :
    (D.setDinode inum ip).setDinode inum ip' = D.setDinode inum ip' := by
  unfold setDinode
  congr 1
  funext j
  by_cases h : j = inum <;> simp [h]

/-- The inode `swapinit_file` allocates: the first free one, a file of one link. -/
theorem swapinitInode_first_free {I : Nat} (h1 : 1 ≤ I) (hI : I < D.sb.ninodes)
    (hfree : (D.dinode I).type = .free) (hused : ∀ j, 1 ≤ j → j < I → (D.dinode j).type ≠ .free) :
    D.swapinitInode = .ok (D.setDinode I { Dinode.zero with type := .file, nlink := 1 }, I) := by
  unfold swapinitInode
  rw [D.ialloc_first_free .file h1 hI hfree hused]
  simp only [Run.ok_bind, iupdate, setDinode_dinode, if_true, setDinode_setDinode]
  rfl

/-- INTERNAL: the links a directory holds are read from its inode and the data blocks. -/
theorem dirLinks_congr {D' : FsImage} {d : Nat} (hd : D'.dinode d = D.dinode d) (hdata : D'.data = D.data)
    (x : Nat) : D'.dirLinks d x = D.dirLinks d x := by
  unfold dirLinks fileByte entry
  rw [hd, hdata]

/-- Writing an inode that neither was nor becomes a directory changes no link count. -/
theorem links_setDinode_of_not_dir {I : Nat} {ip : Dinode} (hold : (D.dinode I).type ≠ .dir)
    (hnew : ip.type ≠ .dir) (x : Nat) : (D.setDinode I ip).links x = D.links x := by
  unfold links
  congr 2
  apply List.map_congr_left
  intro d _
  by_cases hd : d = I
  · subst hd
    simp [hold, hnew]
  · have hdd : (D.setDinode I ip).dinode d = D.dinode d := by simp [hd]
    rw [hdd, dirLinks_congr D hdd rfl]

/-! ## Looking a name up -/

/-- INTERNAL: `strncmp` reads `q` only at the bytes it compares. -/
theorem strncmp_congr (p : Nat → UInt8) {q q' : Nat → UInt8} :
    ∀ n i, (∀ k, i ≤ k → k < i + n → q k = q' k) → strncmp p q n i = strncmp p q' n i := by
  intro n
  induction n with
  | zero =>
      intro i _
      rfl
  | succ n ih =>
      intro i h
      have hi : q i = q' i := h i le_rfl (by omega)
      simp only [strncmp, hi]
      rw [ih (i + 1) fun k h₁ h₂ => h k (by omega) (by omega)]

/-- `namecmp` reads the first `DIRSIZ` bytes of its second name only. -/
theorem namecmp_congr (s : Nat → UInt8) {t t' : Nat → UInt8} (h : ∀ i, i < dirsiz → t i = t' i) :
    namecmp s t = namecmp s t' :=
  strncmp_congr s dirsiz 0 fun k _ hk => h k (by omega)

/-- The entry `e` is empty or has a name other than `name`. -/
def EntryMisses (name e : Nat → UInt8) : Prop :=
  le16 e 0 = 0 ∨ namecmp name (fun i => e (2 + i)) ≠ 0

/-- INTERNAL: an entry read into a buffer misses as the bytes it was read from do. -/
theorem EntryMisses.read {name e : Nat → UInt8} (h : EntryMisses name e) (f : Nat → UInt8) :
    EntryMisses name (overlay f 0 direntSize e) := by
  have hle : le16 (overlay f 0 direntSize e) 0 = le16 e 0 :=
    le16_congr fun a _ ha => overlay_zero_of_lt f e (by unfold direntSize; omega)
  have hname : namecmp name (fun i => overlay f 0 direntSize e (2 + i)) = namecmp name (fun i => e (2 + i)) :=
    namecmp_congr name fun i hi => overlay_zero_of_lt f e (by unfold direntSize dirsiz at *; omega)
  unfold EntryMisses
  rw [hle, hname]
  exact h

/-- A run of `dirlookup` over the entries `j₀, …, j₀ + k - 1` of block `bn` of the
directory, a block with an address, none of them naming `name`: the disk and the
cached inode stay as they are. -/
theorem dirlookupLoop_block (devsw : Nat → Option Devsw) (name : Nat → UInt8) (dp : Dinode)
    {bn a : Nat} (hty : dp.type ≠ .dev) (hbn : bn < ndirect) (ha : dp.addrs bn = a) (ha0 : a ≠ 0)
    (hwrap : dp.size < uintMod) :
    ∀ k j₀ fuel, j₀ + k ≤ bsize / direntSize → bsize * bn + direntSize * (j₀ + k) ≤ dp.size →
      (∀ j, j₀ ≤ j → j < j₀ + k → EntryMisses name fun i => D.data a (direntSize * j + i)) →
      dirlookupLoop devsw name (fuel + k) D dp (bsize * bn + direntSize * j₀) =
        dirlookupLoop devsw name fuel D dp (bsize * bn + direntSize * (j₀ + k)) := by
  intro k
  induction k with
  | zero =>
      intro j₀ fuel _ _ _
      rfl
  | succ k ih =>
      intro j₀ fuel hk hsize hmiss
      -- the entry `j₀` lies inside block `bn`
      have hdiv : (bsize * bn + direntSize * j₀) / bsize = bn := by
        unfold bsize direntSize at *
        omega
      have hmod : (bsize * bn + direntSize * j₀) % bsize = direntSize * j₀ := by
        unfold bsize direntSize at *
        omega
      have hb : D.bmap dp ((bsize * bn + direntSize * j₀) / bsize) = .ok (D, dp, a) := by
        rw [hdiv, D.bmap_direct_present dp hbn (by rw [ha]; exact ha0), ha]
      have hr := D.readi_in_block devsw (fun _ => 0) (n := direntSize) hty (by unfold direntSize at *; omega)
        (by unfold direntSize at *; omega) (by decide) (by rw [hmod]; unfold bsize direntSize at *; omega) hb
      rw [hmod] at hr
      rw [← Nat.add_assoc, D.dirlookupLoop_skip devsw name (fuel + k)
        (by unfold direntSize at *; omega) hr ((hmiss j₀ le_rfl (by omega)).read _)]
      have hnext : bsize * bn + direntSize * j₀ + direntSize = bsize * bn + direntSize * (j₀ + 1) := by
        rw [Nat.mul_add, Nat.mul_one, Nat.add_assoc]
      rw [hnext, ih (j₀ + 1) fuel (by omega) (by rw [Nat.add_assoc, Nat.add_comm 1 k]; exact hsize)
        fun j h₁ h₂ => hmiss j (by omega) (by omega)]
      rw [Nat.add_assoc, Nat.add_comm 1 k]

/-- The step of `dirlookup` at the first entry of a block of the directory without an
address: `bmap` allocates the block, whose zeros are an empty entry, into the cached
inode only. -/
theorem dirlookupLoop_hole (devsw : Nat → Option Devsw) (name : Nat → UInt8) {D' : FsImage}
    (dp : Dinode) {bn B : Nat} (fuel : Nat) (hty : dp.type ≠ .dev) (hbn : bn < ndirect)
    (ha : dp.addrs bn = 0) (hb : D.balloc = .ok (D', B)) (hzero : ∀ o, D'.data B o = 0)
    (hsize : bsize * bn + direntSize ≤ dp.size) (hwrap : dp.size < uintMod) :
    dirlookupLoop devsw name (fuel + 1) D dp (bsize * bn) =
      dirlookupLoop devsw name fuel D' (dp.setAddr bn B) (bsize * bn + direntSize) := by
  have hdiv : bsize * bn / bsize = bn := by
    unfold bsize
    omega
  have hmod : bsize * bn % bsize = 0 := Nat.mul_mod_right bsize bn
  have hbm : D.bmap dp (bsize * bn / bsize) = .ok (D', dp.setAddr bn B, B) := by
    rw [hdiv]
    exact D.bmap_direct_hole hbn ha hb
  have hr := D.readi_in_block devsw (fun _ => 0) (n := direntSize) hty hsize (by omega) (by decide)
    (by rw [hmod]; decide) hbm
  have hmiss : EntryMisses name fun i => D'.data B (bsize * bn % bsize + i) := by
    left
    simp [le16, hzero]
  exact D.dirlookupLoop_skip devsw name fuel (by unfold direntSize at *; omega) hr (hmiss.read _)

end FsImage

/-- **Each boot leaves an inode that no directory names.**  On a disk where `I` is the
first free inode and no entry names it, the swap file's inode `swapinit_file` creates is
`I`, a file of one link that no directory entry names: its `nlink` is not its number of
links. -/
theorem swapinit_leaves_unnamed_inode (D : FsImage) {I : Nat} (h1 : 1 ≤ I) (hI : I < D.sb.ninodes)
    (hfree : (D.dinode I).type = .free) (hused : ∀ j, 1 ≤ j → j < I → (D.dinode j).type ≠ .free)
    (hlinks : D.links I = 0) :
    ∃ D', D.swapinitInode = .ok (D', I) ∧ (D'.dinode I).type = .file ∧ (D'.dinode I).nlink = 1 ∧
      D'.links I = 0 ∧ ¬ D'.LinkLaw := by
  refine ⟨D.setDinode I { Dinode.zero with type := .file, nlink := 1 },
    D.swapinitInode_first_free h1 hI hfree hused, by simp, by simp, ?_, ?_⟩
  · rw [D.links_setDinode_of_not_dir (by rw [hfree]; decide) (by decide), hlinks]
  · intro hlaw
    have h := hlaw I h1 hI (by simp)
    rw [D.links_setDinode_of_not_dir (by rw [hfree]; decide) (by decide), hlinks] at h
    simp at h

/-- Thirty empty files for `mkfs`, `f00` to `f29`. -/
def demoFiles : List (List UInt8 × List UInt8) :=
  (List.range 30).map fun i => ([102, (48 + i / 10).toUInt8, (48 + i % 10).toUInt8], [])

/-- The image `mkfs fs.img f00 … f29` writes. -/
def demoImage : FsImage :=
  match Mkfs.mkfs demoFiles with
  | .ok D => D
  | .error _ => Mkfs.start.disk

/-- Its first boot: the swap file's inode is inode 32, named nowhere. -/
theorem boot_of_mkfs_image_leaves_unnamed_inode :
    ∃ D', demoImage.swapinitInode = .ok (D', 32) ∧ (D'.dinode 32).type = .file ∧
      (D'.dinode 32).nlink = 1 ∧ D'.links 32 = 0 ∧ ¬ D'.LinkLaw :=
  swapinit_leaves_unnamed_inode demoImage (by decide) (by decide) (by decide) (by decide)
    (by decide +kernel)

end Xv6
