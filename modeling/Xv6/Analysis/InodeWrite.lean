import Xv6.Analysis.InodeIo
import Xv6.Analysis.Mkfs
import Xv6.Analysis.SwapFile

/-!
# `writei` writes its bytes and no others, and `readi` reads them back

An inode is well formed on a disk (`InodeWf`) when its blocks are its own: each is marked in
the bitmap, no two of its block numbers share one, and its indirect block holds no data;
block `0`, which stands for no block, is marked too, so `balloc` never returns it.  On such
an inode `bmap` changes nothing the inode holds (`bmap_post`): a missing block, or indirect
block, is one that was free, so no block of the inode, and `balloc` zeroes it, which is what
the missing block read as.  A pass of `writei` then writes its bytes into the one block of
their block number and nowhere else (`fileByte_writeData`).

So `writei` leaves the inode holding the bytes written where it wrote them and what it held
before everywhere else (`writei_post`), and `readi` reads what the inode holds, holes and all
(`readi_post`).  Each fails only when the disk has no free block, which `Run.Post` states
with its results.  The content of an inode is `fileByte`, at the offsets below
`MAXFILE * BSIZE`.
-/

set_option autoImplicit false

namespace Xv6

open Window

namespace FsImage

/-! ## Inodes whose blocks are their own -/

/-- An inode whose blocks are its own. -/
structure InodeWf (D : FsImage) (ip : Dinode) : Prop where
  /-- Block `0` stands for no block and is marked, so `balloc` never hands it out. -/
  zero : D.used 0 = true
  /-- The block numbers `balloc` hands out fit a `uint`. -/
  sb_le : D.sb.size ≤ 2 ^ 32
  size_le : ip.size ≤ maxfile * bsize
  data_used : ∀ bn, bn < maxfile → D.blockAddr ip bn ≠ 0 → D.used (D.blockAddr ip bn) = true
  ind_used : ip.addrs ndirect ≠ 0 → D.used (ip.addrs ndirect) = true
  inj : ∀ bn bn', bn < maxfile → bn' < maxfile → D.blockAddr ip bn ≠ 0 →
    D.blockAddr ip bn = D.blockAddr ip bn' → bn = bn'
  sep : ∀ bn, bn < maxfile → D.blockAddr ip bn ≠ 0 → D.blockAddr ip bn ≠ ip.addrs ndirect

/-- What `bmap` and `readi` leave of a well-formed inode: a well-formed inode with the same
content, size and type. -/
structure Keeps (D : FsImage) (ip : Dinode) (D' : FsImage) (ip' : Dinode) : Prop where
  wf : InodeWf D' ip'
  content : ∀ o, o < maxfile * bsize → D'.fileByte ip' o = D.fileByte ip o
  size : ip'.size = ip.size
  type : ip'.type = ip.type

theorem Keeps.refl {D : FsImage} {ip : Dinode} (h : InodeWf D ip) : Keeps D ip D ip :=
  ⟨h, fun _ _ => rfl, rfl, rfl⟩

theorem Keeps.trans {D₁ D₂ D₃ : FsImage} {ip₁ ip₂ ip₃ : Dinode} (h₁ : Keeps D₁ ip₁ D₂ ip₂)
    (h₂ : Keeps D₂ ip₂ D₃ ip₃) : Keeps D₁ ip₁ D₃ ip₃ :=
  ⟨h₂.wf, fun o ho => (h₂.content o ho).trans (h₁.content o ho), h₂.size.trans h₁.size,
    h₂.type.trans h₁.type⟩

/-- An inode without blocks, as `ialloc` leaves it, is well formed on a disk whose block `0`
is marked and whose blocks fit a `uint`. -/
theorem InodeWf.of_addrs_zero {D : FsImage} {ip : Dinode} (h0 : D.used 0 = true) (hsb : D.sb.size ≤ 2 ^ 32)
    (haddrs : ∀ k, ip.addrs k = 0) (hsize : ip.size ≤ maxfile * bsize) : InodeWf D ip := by
  have hnone : ∀ bn, D.blockAddr ip bn = 0 := by
    intro bn
    unfold blockAddr
    split_ifs with hd hind
    · exact haddrs bn
    · rfl
    · exact absurd (haddrs ndirect) hind
  refine ⟨h0, hsb, hsize, fun bn _ hb => absurd (hnone bn) hb, fun hb => absurd (haddrs ndirect) hb,
    fun bn _ _ _ hb => absurd (hnone bn) hb, fun bn _ hb => absurd (hnone bn) hb⟩

/-- An inode without an indirect block is well formed when its direct blocks are marked
and distinct. -/
theorem InodeWf.of_direct {D : FsImage} {ip : Dinode} (h0 : D.used 0 = true) (hsb : D.sb.size ≤ 2 ^ 32)
    (hsize : ip.size ≤ maxfile * bsize) (hind : ip.addrs ndirect = 0)
    (hused : ∀ j, j < ndirect → ip.addrs j ≠ 0 → D.used (ip.addrs j) = true)
    (hinj : ∀ j, j < ndirect → ∀ j', j' < ndirect → ip.addrs j ≠ 0 → ip.addrs j = ip.addrs j' → j = j') :
    InodeWf D ip := by
  -- past the direct blocks there is none
  have hpast : ∀ bn, ¬bn < ndirect → D.blockAddr ip bn = 0 := fun bn hd => by
    unfold blockAddr
    rw [if_neg hd, if_pos hind]
  have hdirect : ∀ bn, bn < ndirect → D.blockAddr ip bn = ip.addrs bn := fun bn hd => by
    unfold blockAddr
    rw [if_pos hd]
  refine ⟨h0, hsb, hsize, fun bn _ hb => ?_, fun hb => absurd hind hb, fun bn bn' _ _ hb heq => ?_,
    fun bn _ hb => ?_⟩
  · by_cases hd : bn < ndirect
    · rw [hdirect bn hd] at hb ⊢
      exact hused bn hd hb
    · exact absurd (hpast bn hd) hb
  · by_cases hd : bn < ndirect
    · rw [hdirect bn hd] at hb heq
      by_cases hd' : bn' < ndirect
      · rw [hdirect bn' hd'] at heq
        exact hinj bn hd bn' hd' hb heq
      · rw [hpast bn' hd'] at heq
        exact absurd heq hb
    · exact absurd (hpast bn hd) hb
  · rw [hind]
    exact hb

/-- INTERNAL: the block addresses of an inode read the disk only in its indirect block. -/
theorem blockAddr_congr {D D' : FsImage} {ip : Dinode}
    (h : ip.addrs ndirect ≠ 0 → D'.data (ip.addrs ndirect) = D.data (ip.addrs ndirect)) (bn : Nat) :
    D'.blockAddr ip bn = D.blockAddr ip bn := by
  unfold blockAddr entry
  by_cases hd : bn < ndirect
  · rw [if_pos hd, if_pos hd]
  · rw [if_neg hd, if_neg hd]
    by_cases h0 : ip.addrs ndirect = 0
    · rw [if_pos h0, if_pos h0]
    · rw [if_neg h0, if_neg h0, h h0]

/-- INTERNAL: a byte of an inode's content is read from the block of its block number. -/
theorem fileByte_congr {D D' : FsImage} {ip ip' : Dinode} {o : Nat}
    (haddr : D'.blockAddr ip' (o / bsize) = D.blockAddr ip (o / bsize))
    (hdata : D.blockAddr ip (o / bsize) ≠ 0 →
      D'.data (D.blockAddr ip (o / bsize)) (o % bsize) = D.data (D.blockAddr ip (o / bsize)) (o % bsize)) :
    D'.fileByte ip' o = D.fileByte ip o := by
  rw [fileByte_eq, fileByte_eq, haddr]
  by_cases h0 : D.blockAddr ip (o / bsize) = 0
  · rw [if_pos h0, if_pos h0]
  · rw [if_neg h0, if_neg h0, hdata h0]

/-- A free block is none of a well-formed inode's. -/
theorem InodeWf.ne_of_free {D : FsImage} {ip : Dinode} (h : InodeWf D ip) {b : Nat}
    (hfree : D.used b = false) :
    b ≠ 0 ∧ (∀ bn, bn < maxfile → D.blockAddr ip bn ≠ b) ∧ ip.addrs ndirect ≠ b := by
  have hne : ∀ c, D.used c = true → c ≠ b := fun c hc hcb => by
    rw [hcb, hfree] at hc
    exact Bool.false_ne_true hc
  refine ⟨(hne 0 h.zero).symm, fun bn hbn hb => ?_, fun hb => ?_⟩
  · have h0 : D.blockAddr ip bn ≠ 0 := by
      rw [hb]
      exact (hne 0 h.zero).symm
    exact hne _ (h.data_used bn hbn h0) hb
  · have h0 : ip.addrs ndirect ≠ 0 := by
      rw [hb]
      exact (hne 0 h.zero).symm
    exact hne _ (h.ind_used h0) hb

/-- INTERNAL: an inode whose blocks are where they were, on a disk that marks at least the
blocks it marked, stays well formed. -/
theorem InodeWf.congr {D D' : FsImage} {ip ip' : Dinode} (h : InodeWf D ip)
    (haddr : ∀ bn, D'.blockAddr ip' bn = D.blockAddr ip bn) (hind : ip'.addrs ndirect = ip.addrs ndirect)
    (hused : ∀ c, D.used c = true → D'.used c = true) (hsb : D'.sb.size = D.sb.size)
    (hsize : ip'.size ≤ maxfile * bsize) : InodeWf D' ip' := by
  refine ⟨hused 0 h.zero, hsb ▸ h.sb_le, hsize, fun bn hbn h0 => ?_, fun h0 => ?_,
    fun bn bn' hbn hbn' h0 heq => ?_, fun bn hbn h0 => ?_⟩
  · rw [haddr] at h0 ⊢
    exact hused _ (h.data_used bn hbn h0)
  · rw [hind] at h0 ⊢
    exact hused _ (h.ind_used h0)
  · rw [haddr, haddr] at heq
    rw [haddr] at h0
    exact h.inj bn bn' hbn hbn' h0 heq
  · rw [haddr, hind]
    rw [haddr] at h0
    exact h.sep bn hbn h0

/-- INTERNAL: an inode given a fresh marked block at one block number, and nothing else,
stays well formed. -/
theorem InodeWf.update {D D' : FsImage} {ip ip' : Dinode} (h : InodeWf D ip) {bn b : Nat}
    (haddr : ∀ bn', D'.blockAddr ip' bn' = if bn' = bn then b else D.blockAddr ip bn')
    (hind : ip'.addrs ndirect = ip.addrs ndirect) (hused : ∀ c, D.used c = true → D'.used c = true)
    (hb : D'.used b = true) (hfresh : ∀ bn', bn' < maxfile → D.blockAddr ip bn' ≠ b)
    (hbind : ip.addrs ndirect ≠ b) (hsb : D'.sb.size = D.sb.size) (hsize : ip'.size ≤ maxfile * bsize) :
    InodeWf D' ip' := by
  refine ⟨hused 0 h.zero, hsb ▸ h.sb_le, hsize, fun bn' hbn' h0 => ?_, fun h0 => ?_,
    fun bn₁ bn₂ hbn₁ hbn₂ h0 heq => ?_, fun bn' hbn' h0 => ?_⟩
  · rw [haddr] at h0 ⊢
    split_ifs at h0 ⊢
    · exact hb
    · exact hused _ (h.data_used bn' hbn' h0)
  · rw [hind] at h0 ⊢
    exact hused _ (h.ind_used h0)
  · -- the new block is none of the old ones
    rw [haddr, haddr] at heq
    rw [haddr] at h0
    by_cases h₁ : bn₁ = bn <;> by_cases h₂ : bn₂ = bn
    · rw [h₁, h₂]
    · rw [if_pos h₁, if_neg h₂] at heq
      exact absurd heq.symm (hfresh bn₂ hbn₂)
    · rw [if_neg h₁, if_pos h₂] at heq
      exact absurd heq (hfresh bn₁ hbn₁)
    · rw [if_neg h₁, if_neg h₂] at heq
      rw [if_neg h₁] at h0
      exact h.inj bn₁ bn₂ hbn₁ hbn₂ h0 heq
  · rw [haddr, hind]
    rw [haddr] at h0
    split_ifs at h0 ⊢
    · exact fun h' => hbind h'.symm
    · exact h.sep bn' hbn' h0

/-! ## Allocation -/

theorem ballocLoop_ok (D : FsImage) {D' : FsImage} {b : Nat} (fuel : Nat) :
    ∀ b₀, D.ballocLoop fuel b₀ = .ok (D', b) →
      b < D.sb.size ∧ D.used b = false ∧ D' = (D.setUsed b true).bzero b := by
  induction fuel with
  | zero =>
    intro b₀ h
    cases h
  | succ fuel ih =>
    intro b₀ h
    rw [ballocLoop] at h
    by_cases hb : b₀ < D.sb.size
    · rw [if_pos hb] at h
      by_cases hfree : D.used b₀ = false
      · rw [if_pos hfree] at h
        cases h
        exact ⟨hb, hfree, rfl⟩
      · rw [if_neg hfree] at h
        exact ih (b₀ + 1) h
    · rw [if_neg hb] at h
      cases h

/-- `balloc` fails only when no block is free, and otherwise marks and zeroes a free block. -/
theorem balloc_post (D : FsImage) :
    Run.Post (· = "balloc: out of blocks")
      (fun r : FsImage × Nat => r.2 < D.sb.size ∧ D.used r.2 = false ∧ r.1 = (D.setUsed r.2 true).bzero r.2)
      D.balloc := by
  rcases hb : D.balloc with e | ⟨D', b⟩
  · exact D.ballocLoop_error _ 0 hb
  · exact D.ballocLoop_ok _ 0 hb

/-- Marking and zeroing a free block keeps a well-formed inode and what it holds. -/
theorem InodeWf.alloc {D : FsImage} {ip : Dinode} (h : InodeWf D ip) {b : Nat} (hfree : D.used b = false) :
    InodeWf ((D.setUsed b true).bzero b) ip ∧
      (∀ bn, ((D.setUsed b true).bzero b).blockAddr ip bn = D.blockAddr ip bn) ∧
      ∀ o, o < maxfile * bsize → ((D.setUsed b true).bzero b).fileByte ip o = D.fileByte ip o := by
  obtain ⟨-, hfresh, hind⟩ := h.ne_of_free hfree
  have haddr : ∀ bn, ((D.setUsed b true).bzero b).blockAddr ip bn = D.blockAddr ip bn :=
    blockAddr_congr fun _ => by rw [bzero_data, if_neg hind, setUsed_data]
  have hused : ∀ c, D.used c = true → ((D.setUsed b true).bzero b).used c = true := by
    intro c hc
    rw [bzero_used, setUsed_used]
    split_ifs <;> simp [hc]
  refine ⟨h.congr haddr rfl hused rfl h.size_le, haddr, fun o ho => ?_⟩
  have hbn := block_lt_maxfile ho le_rfl
  refine fileByte_congr (haddr _) fun h0 => ?_
  rw [bzero_data, if_neg (hfresh _ hbn), setUsed_data]

/-! ## Mapping a block -/

/-- INTERNAL: a direct address set: the block numbers it does not name keep their blocks. -/
theorem blockAddr_setAddr_direct (D : FsImage) (ip : Dinode) {bn : Nat} (hbn : bn < ndirect) (b bn' : Nat) :
    D.blockAddr (ip.setAddr bn b) bn' = if bn' = bn then b else D.blockAddr ip bn' := by
  have hnd : (ip.setAddr bn b).addrs ndirect = ip.addrs ndirect := by
    rw [Dinode.setAddr_addrs, if_neg (by omega)]
  by_cases hd : bn' < ndirect
  · unfold blockAddr
    rw [if_pos hd, if_pos hd, Dinode.setAddr_addrs]
  · rw [if_neg (show bn' ≠ bn by omega)]
    unfold blockAddr
    rw [if_neg hd, if_neg hd, hnd]

/-- A fresh block, marked and zeroed, as a direct block without one: the inode stays well
formed and holds what it held. -/
theorem InodeWf.setAddr_direct {D : FsImage} {ip : Dinode} (h : InodeWf D ip) {bn b : Nat}
    (hbn : bn < ndirect) (h0 : ip.addrs bn = 0) (hb : D.used b = true) (hb0 : b ≠ 0)
    (hfresh : ∀ bn', bn' < maxfile → D.blockAddr ip bn' ≠ b) (hind : ip.addrs ndirect ≠ b)
    (hzero : D.data b = fun _ => 0) :
    InodeWf D (ip.setAddr bn b) ∧ D.blockAddr (ip.setAddr bn b) bn = b ∧
      ∀ o, o < maxfile * bsize → D.fileByte (ip.setAddr bn b) o = D.fileByte ip o := by
  have haddr := D.blockAddr_setAddr_direct ip hbn b
  have hnd : (ip.setAddr bn b).addrs ndirect = ip.addrs ndirect := by
    rw [Dinode.setAddr_addrs, if_neg (by omega)]
  have hold : D.blockAddr ip bn = 0 := by
    unfold blockAddr
    rw [if_pos hbn, h0]
  refine ⟨h.update haddr hnd (fun _ hc => hc) hb hfresh hind rfl h.size_le, by rw [haddr, if_pos rfl],
    fun o ho => ?_⟩
  -- a byte of the new block reads as zero, as the missing block did
  rw [fileByte_eq, fileByte_eq, haddr]
  by_cases hob : o / bsize = bn
  · rw [if_pos hob, if_neg hb0, hzero, hob, hold, if_pos rfl]
  · rw [if_neg hob]

/-- A fresh block, marked and zeroed, as the indirect block of an inode without one: its
entries are zeros, so every block number keeps its block. -/
theorem InodeWf.setAddr_ind {D : FsImage} {ip : Dinode} (h : InodeWf D ip) {c : Nat}
    (h0 : ip.addrs ndirect = 0) (hc : D.used c = true) (hc0 : c ≠ 0)
    (hfresh : ∀ bn', bn' < maxfile → D.blockAddr ip bn' ≠ c) (hzero : D.data c = fun _ => 0) :
    InodeWf D (ip.setAddr ndirect c) ∧ (ip.setAddr ndirect c).addrs ndirect = c ∧
      ∀ bn, D.blockAddr (ip.setAddr ndirect c) bn = D.blockAddr ip bn := by
  have hnd : (ip.setAddr ndirect c).addrs ndirect = c := by
    rw [Dinode.setAddr_addrs, if_pos rfl]
  have haddr : ∀ bn, D.blockAddr (ip.setAddr ndirect c) bn = D.blockAddr ip bn := by
    intro bn
    unfold blockAddr
    by_cases hd : bn < ndirect
    · rw [if_pos hd, if_pos hd, Dinode.setAddr_addrs, if_neg (by omega)]
    · rw [if_neg hd, if_neg hd, hnd, if_neg hc0, h0, if_pos rfl, entry, hzero, le32_zero]
  refine ⟨⟨h.zero, h.sb_le, h.size_le, fun bn hbn h0' => ?_, fun _ => by rw [hnd]; exact hc,
    fun bn₁ bn₂ hbn₁ hbn₂ h0' heq => ?_, fun bn hbn h0' => ?_⟩, hnd, haddr⟩
  · rw [haddr] at h0' ⊢
    exact h.data_used bn hbn h0'
  · rw [haddr, haddr] at heq
    rw [haddr] at h0'
    exact h.inj bn₁ bn₂ hbn₁ hbn₂ h0' heq
  · rw [haddr, hnd]
    exact hfresh bn hbn

/-- INTERNAL: an entry of the indirect block set: the block numbers it does not name keep
their blocks. -/
theorem blockAddr_setEntry (D : FsImage) (ip : Dinode) {bn b : Nat} (hbn₁ : ndirect ≤ bn)
    (hb : b < 2 ^ 32) (bn' : Nat) :
    (D.setEntry (ip.addrs ndirect) (bn - ndirect) b).blockAddr ip bn' =
      if bn' = bn ∧ ip.addrs ndirect ≠ 0 then b else D.blockAddr ip bn' := by
  unfold blockAddr
  by_cases hd : bn' < ndirect
  · rw [if_pos hd, if_pos hd, if_neg (by omega)]
  · rw [if_neg hd, if_neg hd]
    by_cases h0 : ip.addrs ndirect = 0
    · rw [if_pos h0, if_pos h0, if_neg (fun h' => h'.2 h0)]
    · rw [if_neg h0, if_neg h0, D.entry_setEntry _ hb]
      by_cases hbn : bn' = bn
      · rw [if_pos (by omega), if_pos ⟨hbn, h0⟩]
      · rw [if_neg (by omega), if_neg fun h' => hbn h'.1]

/-- A fresh block, marked and zeroed, as an indirect block number without one: the inode
stays well formed and holds what it held. -/
theorem InodeWf.setEntry {D : FsImage} {ip : Dinode} (h : InodeWf D ip) {bn b : Nat}
    (hbn₁ : ndirect ≤ bn) (hind : ip.addrs ndirect ≠ 0) (h0 : D.entry (ip.addrs ndirect) (bn - ndirect) = 0)
    (hb : D.used b = true) (hb0 : b ≠ 0) (hblt : b < 2 ^ 32)
    (hfresh : ∀ bn', bn' < maxfile → D.blockAddr ip bn' ≠ b) (hbind : ip.addrs ndirect ≠ b)
    (hzero : D.data b = fun _ => 0) :
    InodeWf (D.setEntry (ip.addrs ndirect) (bn - ndirect) b) ip ∧
      (D.setEntry (ip.addrs ndirect) (bn - ndirect) b).blockAddr ip bn = b ∧
      ∀ o, o < maxfile * bsize →
        (D.setEntry (ip.addrs ndirect) (bn - ndirect) b).fileByte ip o = D.fileByte ip o := by
  have haddr := D.blockAddr_setEntry ip hbn₁ hblt
  have hold : D.blockAddr ip bn = 0 := by
    unfold blockAddr
    rw [if_neg (by omega), if_neg hind, h0]
  -- the write is to the indirect block, which holds no data
  have hdata : ∀ c, c ≠ ip.addrs ndirect →
      (D.setEntry (ip.addrs ndirect) (bn - ndirect) b).data c = D.data c :=
    fun c hc => D.writeData_data_of_ne _ _ _ hc
  -- the indirect block is there, so the entry set is the block number's
  have haddr' : ∀ bn', (D.setEntry (ip.addrs ndirect) (bn - ndirect) b).blockAddr ip bn' =
      if bn' = bn then b else D.blockAddr ip bn' := by
    intro bn'
    rw [haddr]
    by_cases hbn' : bn' = bn
    · rw [if_pos ⟨hbn', hind⟩, if_pos hbn']
    · rw [if_neg fun h' => hbn' h'.1, if_neg hbn']
  refine ⟨h.update haddr' rfl (fun _ hc => hc) hb hfresh hbind rfl h.size_le, by rw [haddr', if_pos rfl],
    fun o ho => ?_⟩
  have hbn := block_lt_maxfile ho le_rfl
  rw [fileByte_eq, fileByte_eq, haddr']
  by_cases hob : o / bsize = bn
  · rw [if_pos hob, if_neg hb0, hdata b (fun h' => hbind h'.symm), hzero, hob, hold, if_pos rfl]
  · rw [if_neg hob]
    by_cases h0' : D.blockAddr ip (o / bsize) = 0
    · rw [if_pos h0', if_pos h0']
    · rw [if_neg h0', if_neg h0', hdata _ (h.sep _ hbn h0')]

/-- **`bmap` keeps what the inode holds.**  On a well-formed inode, a block number below
`MAXFILE` gets a block, the one it had or a fresh one, and every other block number keeps
its block; the inode stays well formed with its content, size and type, and `bmap` fails
only when no block is free. -/
theorem bmap_post {D : FsImage} {ip : Dinode} (h : InodeWf D ip) {bn : Nat} (hbn : bn < maxfile) :
    Run.Post (· = "balloc: out of blocks")
      (fun r : FsImage × Dinode × Nat => Keeps D ip r.1 r.2.1 ∧ r.2.2 ≠ 0 ∧ r.1.blockAddr r.2.1 bn = r.2.2 ∧
        ∀ bn', bn' ≠ bn → r.1.blockAddr r.2.1 bn' = D.blockAddr ip bn')
      (D.bmap ip bn) := by
  unfold bmap
  by_cases hd : bn < ndirect
  · rw [if_pos hd]
    by_cases h0 : ip.addrs bn = 0
    · -- a direct block without one: a fresh block in its place
      rw [if_pos h0]
      refine Run.Post.bind D.balloc_post ?_
      rintro ⟨D₁, b⟩ ⟨-, hfree, hD₁⟩
      dsimp only at hD₁ ⊢
      subst hD₁
      obtain ⟨hb0, hfresh, hind⟩ := h.ne_of_free hfree
      obtain ⟨hwf₁, haddr₁, hcont₁⟩ := h.alloc hfree
      obtain ⟨hwf₂, haddr₂, hcont₂⟩ := hwf₁.setAddr_direct hd h0 (by simp) hb0
        (fun bn' hbn' => by rw [haddr₁]; exact hfresh bn' hbn') hind (by simp)
      refine ⟨⟨hwf₂, fun o ho => (hcont₂ o ho).trans (hcont₁ o ho), rfl, rfl⟩, hb0, haddr₂, fun bn' hbn' => ?_⟩
      rw [blockAddr_setAddr_direct _ _ hd, if_neg hbn', haddr₁]
    · rw [if_neg h0]
      refine ⟨Keeps.refl h, h0, ?_, fun _ _ => rfl⟩
      unfold blockAddr
      rw [if_pos hd]
  · have hind : bn - ndirect < nindirect := by
      unfold maxfile at hbn
      omega
    rw [if_neg hd, if_pos hind]
    -- the entry of the indirect block, a fresh block when missing
    have hentry : ∀ x : FsImage × Dinode, Keeps D ip x.1 x.2 → x.2.addrs ndirect ≠ 0 →
        (∀ bn', x.1.blockAddr x.2 bn' = D.blockAddr ip bn') →
        Run.Post (· = "balloc: out of blocks")
          (fun r : FsImage × Dinode × Nat => Keeps D ip r.1 r.2.1 ∧ r.2.2 ≠ 0 ∧ r.1.blockAddr r.2.1 bn = r.2.2 ∧
            ∀ bn', bn' ≠ bn → r.1.blockAddr r.2.1 bn' = D.blockAddr ip bn')
          (if x.1.entry (x.2.addrs ndirect) (bn - ndirect) = 0 then do
              let r ← x.1.balloc
              pure (r.1.setEntry (x.2.addrs ndirect) (bn - ndirect) r.2, x.2, r.2)
            else pure (x.1, x.2, x.1.entry (x.2.addrs ndirect) (bn - ndirect))) := by
      rintro ⟨D₁, ip₁⟩ hk hne hx
      dsimp only at hk hne hx ⊢
      by_cases he : D₁.entry (ip₁.addrs ndirect) (bn - ndirect) = 0
      · rw [if_pos he]
        refine Run.Post.bind D₁.balloc_post ?_
        rintro ⟨D₂, b⟩ ⟨hlt, hfree, hD₂⟩
        dsimp only at hD₂ ⊢
        subst hD₂
        obtain ⟨hb0, hfresh, hbind⟩ := hk.wf.ne_of_free hfree
        obtain ⟨hwf₂, haddr₂, hcont₂⟩ := hk.wf.alloc hfree
        have he₂ : ((D₁.setUsed b true).bzero b).entry (ip₁.addrs ndirect) (bn - ndirect) = 0 := by
          rw [← he]
          unfold entry
          rw [bzero_data, if_neg hbind, setUsed_data]
        have hblt : b < 2 ^ 32 := by
          have := hk.wf.sb_le
          omega
        obtain ⟨hwf₃, haddr₃, hcont₃⟩ := hwf₂.setEntry (by omega) hne he₂ (by simp) hb0 hblt
          (fun bn' hbn' => by rw [haddr₂]; exact hfresh bn' hbn') hbind (by simp)
        refine ⟨hk.trans ⟨hwf₃, fun o ho => (hcont₃ o ho).trans (hcont₂ o ho), rfl, rfl⟩, hb0, haddr₃,
          fun bn' hbn' => ?_⟩
        rw [blockAddr_setEntry _ _ (by omega) hblt, if_neg fun h' => hbn' h'.1, haddr₂, hx]
      · rw [if_neg he]
        refine ⟨hk, he, ?_, fun bn' _ => hx bn'⟩
        unfold blockAddr
        rw [if_neg hd, if_neg hne]
    dsimp only
    -- first the indirect block, a fresh one when missing
    by_cases h0 : ip.addrs ndirect = 0
    · rw [if_pos h0]
      refine Run.Post.bind D.balloc_post ?_
      rintro ⟨D₁, c⟩ ⟨-, hfree, hD₁⟩
      dsimp only at hD₁ ⊢
      subst hD₁
      obtain ⟨hc0, hfresh, -⟩ := h.ne_of_free hfree
      obtain ⟨hwf₁, haddr₁, hcont₁⟩ := h.alloc hfree
      obtain ⟨hwf₂, hnd, haddr₂⟩ := hwf₁.setAddr_ind h0 (by simp) hc0
        (fun bn' hbn' => by rw [haddr₁]; exact hfresh bn' hbn') (by simp)
      rw [pure_bind]
      refine hentry (_, _) ⟨hwf₂, fun o ho => ?_, rfl, rfl⟩ (by rw [hnd]; exact hc0)
        fun bn' => (haddr₂ bn').trans (haddr₁ bn')
      rw [← hcont₁ o ho]
      exact fileByte_congr (haddr₂ _) fun _ => rfl
    · rw [if_neg h0, pure_bind]
      exact hentry (D, ip) (Keeps.refl h) h0 fun _ => rfl

/-! ## Writing -/

/-- A pass of `writei`: `m` bytes of `src` written at `off` into the block of `off`'s block
number, inside that block, are the inode's bytes from `off` on, and the inode stays well
formed. -/
theorem InodeWf.writePass {D : FsImage} {ip : Dinode} (h : InodeWf D ip) {off m : Nat}
    (hbn : off / bsize < maxfile) (h0 : D.blockAddr ip (off / bsize) ≠ 0) (hm : off % bsize + m ≤ bsize)
    (src : Nat → UInt8) :
    InodeWf (D.writeData (D.blockAddr ip (off / bsize)) (off % bsize) m src) ip ∧
      ∀ o, o < maxfile * bsize →
        (D.writeData (D.blockAddr ip (off / bsize)) (off % bsize) m src).fileByte ip o =
          if off ≤ o ∧ o < off + m then src (o - off) else D.fileByte ip o := by
  -- the block written is no indirect block, so every block number keeps its block
  have haddr : ∀ bn, (D.writeData (D.blockAddr ip (off / bsize)) (off % bsize) m src).blockAddr ip bn =
      D.blockAddr ip bn :=
    blockAddr_congr fun _ => D.writeData_data_of_ne _ _ _ (h.sep _ hbn h0).symm
  refine ⟨h.congr haddr rfl (fun _ hc => hc) rfl h.size_le, fun o ho => ?_⟩
  have hobn := block_lt_maxfile ho le_rfl
  rw [fileByte_eq, fileByte_eq, haddr, writeData_data]
  by_cases hob : o / bsize = off / bsize
  · -- a byte of the block written: the window of the pass, or the byte it had
    have hmod : o % bsize = off % bsize + (o - off) ∨ o < off ∨ off + m ≤ o := by
      unfold bsize at *
      omega
    rw [hob, if_neg h0, if_neg h0, if_pos rfl]
    by_cases hin : off ≤ o ∧ o < off + m
    · rw [if_pos hin, overlay_of_mem src (by omega) (by unfold bsize at *; omega)]
      congr 1
      unfold bsize at *
      omega
    · rw [if_neg hin, overlay_of_not_mem src (by unfold bsize at *; omega)]
  · -- a byte of another block, which the inode holds apart
    have hout : ¬(off ≤ o ∧ o < off + m) := fun hin => hob (by unfold bsize at *; omega)
    rw [if_neg hout]
    by_cases h0' : D.blockAddr ip (o / bsize) = 0
    · rw [if_pos h0', if_pos h0']
    · rw [if_neg h0', if_neg h0',
        if_neg fun heq => hob (h.inj _ _ hobn hbn h0' heq)]

/-- The copy loop of `writei` on a well-formed inode: with the fuel `writei` gives and the
bytes below `MAXFILE * BSIZE`, it writes its bytes where they go, keeps every other byte of
the inode and the inode well formed, and fails only when no block is free. -/
theorem writeiLoop_post (src : Nat → UInt8) (n fuel : Nat) :
    ∀ (D : FsImage) (ip : Dinode) (tot off : Nat), InodeWf D ip → tot ≤ n →
      (tot < n → n - tot + off % bsize ≤ fuel * bsize) → off + (n - tot) ≤ maxfile * bsize →
      Run.Post (· = "balloc: out of blocks")
        (fun r : FsImage × Dinode × Nat => InodeWf r.1 r.2.1 ∧ r.2.1.size = ip.size ∧
          r.2.1.type = ip.type ∧ r.2.2 = off + (n - tot) ∧
          ∀ o, o < maxfile * bsize → r.1.fileByte r.2.1 o =
            if off ≤ o ∧ o < off + (n - tot) then src (tot + (o - off)) else D.fileByte ip o)
        (writeiLoop src n fuel D ip tot off) := by
  -- induction on the fuel; each pass writes the window of one block
  induction fuel with
  | zero =>
    intro D ip tot off h htot hf _
    have hn : n - tot = 0 := by
      by_contra hne
      have := hf (by omega)
      omega
    refine ⟨h, rfl, rfl, by dsimp only; omega, fun o _ => ?_⟩
    rw [if_neg (by omega)]
  | succ fuel ih =>
    intro D ip tot off h htot hf hbound
    rw [writeiLoop]
    by_cases ht : tot < n
    · rw [if_pos ht]
      have hm := chunk_bounds off ht
      have hbn : off / bsize < maxfile := block_lt_maxfile (show off < off + (n - tot) by omega) hbound
      refine Run.Post.bind (bmap_post h hbn) ?_
      rintro ⟨D₁, ip₁, a⟩ ⟨hk, ha0, haddr, -⟩
      dsimp only at hk ha0 haddr ⊢
      subst haddr
      obtain ⟨hwf₂, hcont₂⟩ := hk.wf.writePass hbn ha0 hm.2.2 fun i => src (tot + i)
      refine (ih _ ip₁ _ _ hwf₂ (by omega) (chunk_fuel ht (hf ht)) (by omega)).mono ?_
      rintro ⟨D₃, ip₃, off₃⟩ ⟨hwf₃, hsize₃, htype₃, hoff₃, hcont₃⟩
      refine ⟨hwf₃, hsize₃.trans hk.size, htype₃.trans hk.type, by omega, fun o ho => ?_⟩
      dsimp only at hcont₃ ⊢
      rw [hcont₃ o ho, hcont₂ o ho, hk.content o ho]
      -- the window of this pass, then the windows of the passes after it
      by_cases h₁ : off + min (n - tot) (bsize - off % bsize) ≤ o ∧ o < off + (n - tot)
      · rw [if_pos (by omega), if_pos (by omega)]
        congr 1
        omega
      · rw [if_neg (by omega)]
        by_cases h₂ : off ≤ o ∧ o < off + min (n - tot) (bsize - off % bsize)
        · rw [if_pos h₂, if_pos (by omega)]
        · rw [if_neg h₂, if_neg (by omega)]
    · rw [if_neg ht]
      refine ⟨h, rfl, rfl, by dsimp only; omega, fun o _ => ?_⟩
      rw [if_neg (by omega)]

/-- INTERNAL: the cached inode written back is the inode `fileByte` reads. -/
theorem InodeWf.iupdate {D : FsImage} {ip : Dinode} (h : InodeWf D ip) (inum : Nat) {s : Nat}
    (hs : s ≤ maxfile * bsize) : InodeWf (D.iupdate inum { ip with size := s }) { ip with size := s } :=
  ⟨h.zero, h.sb_le, hs, h.data_used, h.ind_used, h.inj, h.sep⟩

/-- **`writei` writes its bytes and no others.**  On a well-formed file or directory,
`writei` of `n` bytes at an offset within the file, ending within `MAXFILE * BSIZE`, returns
`n` and leaves the inode well formed, of size `max(size, off + n)`, holding the bytes of
`src` from `off` to `off + n` and what it held before everywhere else; it fails only when
no block is free. -/
theorem writei_post (devsw : Nat → Option Devsw) {D : FsImage} (inum : Nat) {ip : Dinode}
    (src : Nat → UInt8) {off n : Nat} (hty : ip.type ≠ .dev) (h : InodeWf D ip) (hoff : off ≤ ip.size)
    (hn : off + n ≤ maxfile * bsize) :
    Run.Post (· = "balloc: out of blocks")
      (fun r : FsImage × Dinode × Int => r.2.2 = n ∧ InodeWf r.1 r.2.1 ∧
        r.2.1.size = max ip.size (off + n) ∧ r.2.1.type = ip.type ∧
        ∀ o, o < maxfile * bsize → r.1.fileByte r.2.1 o =
          if off ≤ o ∧ o < off + n then src (o - off) else D.fileByte ip o)
      (D.writei devsw inum ip src off n) := by
  have hwrap : (off + n) % uintMod = off + n :=
    Nat.mod_eq_of_lt (lt_of_le_of_lt hn maxfile_mul_bsize_lt_uintMod)
  unfold writei
  rw [if_neg hty, if_neg (by omega), if_neg (by omega)]
  refine Run.Post.bind (writeiLoop_post src n _ D ip 0 off h (Nat.zero_le n)
    (fun hpos => copy_fuel n off hpos) (by omega)) ?_
  rintro ⟨D₁, ip₁, off₁⟩ ⟨hwf, hsize, htype, hoff₁, hcont⟩
  dsimp only at hwf hsize htype hoff₁ hcont ⊢
  simp only [Nat.sub_zero, Nat.zero_add] at hoff₁ hcont
  -- the inode is written back only when the write grows the file
  by_cases hgrow : 0 < n ∧ ip₁.size < off₁
  · rw [if_pos hgrow]
    refine ⟨rfl, hwf.iupdate inum (by omega), by dsimp only; omega, htype, fun o ho => ?_⟩
    rw [← hcont o ho]
    rfl
  · rw [if_neg hgrow]
    exact ⟨rfl, hwf, show ip₁.size = max ip.size (off + n) by omega, htype, hcont⟩

/-! ## Reading -/

/-- The copy loop of `readi` on a well-formed inode: with the fuel `readi` gives and the
bytes below `MAXFILE * BSIZE`, it copies the inode's bytes, allocating any missing block
without changing what the inode holds, and fails only when no block is free. -/
theorem readiLoop_post (n fuel : Nat) :
    ∀ (D : FsImage) (ip : Dinode) (dst : Nat → UInt8) (tot off : Nat), InodeWf D ip → tot ≤ n →
      (tot < n → n - tot + off % bsize ≤ fuel * bsize) → off + (n - tot) ≤ maxfile * bsize →
      Run.Post (· = "balloc: out of blocks")
        (fun r : FsImage × Dinode × (Nat → UInt8) => Keeps D ip r.1 r.2.1 ∧
          r.2.2 = overlay dst tot (n - tot) fun i => D.fileByte ip (off + i))
        (readiLoop n fuel D ip dst tot off) := by
  -- induction on the fuel; each pass reads the window of one block
  induction fuel with
  | zero =>
    intro D ip dst tot off h htot hf _
    have hn : n - tot = 0 := by
      by_contra hne
      have := hf (by omega)
      omega
    refine ⟨Keeps.refl h, ?_⟩
    dsimp only
    rw [hn, overlay_zero]
  | succ fuel ih =>
    intro D ip dst tot off h htot hf hbound
    rw [readiLoop]
    by_cases ht : tot < n
    · rw [if_pos ht]
      have hm := chunk_bounds off ht
      have hbn : off / bsize < maxfile := block_lt_maxfile (show off < off + (n - tot) by omega) hbound
      refine Run.Post.bind (bmap_post h hbn) ?_
      rintro ⟨D₁, ip₁, a⟩ ⟨hk, ha0, haddr, -⟩
      dsimp only at hk ha0 haddr ⊢
      subst haddr
      refine (ih D₁ ip₁ _ _ _ hk.wf (by omega) (chunk_fuel ht (hf ht)) (by omega)).mono ?_
      rintro ⟨D₃, ip₃, dst₃⟩ ⟨hk₃, hdst₃⟩
      refine ⟨hk.trans hk₃, ?_⟩
      dsimp only at hdst₃ ⊢
      -- the pass reads the inode's bytes, and the passes after it the rest of the window
      have hpass : (overlay dst tot (min (n - tot) (bsize - off % bsize)) fun i =>
          D₁.data (D₁.blockAddr ip₁ (off / bsize)) (off % bsize + i)) =
          overlay dst tot (min (n - tot) (bsize - off % bsize)) fun i => D.fileByte ip (off + i) := by
        refine overlay_congr _ _ _ fun i hi => ?_
        rw [D₁.fileByte_in_pass ip₁ (by omega) ha0, hk.content _ (by omega)]
      have hrest : ∀ g : Nat → UInt8,
          overlay g (tot + min (n - tot) (bsize - off % bsize)) (n - (tot + min (n - tot) (bsize - off % bsize)))
            (fun i => D₁.fileByte ip₁ (off + min (n - tot) (bsize - off % bsize) + i)) =
          overlay g (tot + min (n - tot) (bsize - off % bsize)) (n - (tot + min (n - tot) (bsize - off % bsize)))
            fun i => D.fileByte ip (off + (min (n - tot) (bsize - off % bsize) + i)) := by
        intro g
        refine overlay_congr _ _ _ fun i hi => ?_
        rw [Nat.add_assoc]
        exact hk.content _ (by omega)
      rw [hdst₃, hpass, hrest, overlay_append,
        show min (n - tot) (bsize - off % bsize) + (n - (tot + min (n - tot) (bsize - off % bsize))) = n - tot by omega]
    · rw [if_neg ht]
      refine ⟨Keeps.refl h, ?_⟩
      dsimp only
      rw [show n - tot = 0 by omega, overlay_zero]

/-- **`readi` reads what the inode holds.**  On a well-formed file or directory, `readi` at
an offset within the file, its range not wrapping, returns `min(n, size - off)` and the
inode's bytes from `off` on, and leaves the inode well formed with what it holds, though a
missing block may be allocated on the way; it fails only when no block is free. -/
theorem readi_post (devsw : Nat → Option Devsw) {D : FsImage} {ip : Dinode} (dst : Nat → UInt8)
    {off n : Nat} (hty : ip.type ≠ .dev) (h : InodeWf D ip) (hoff : off ≤ ip.size) (hn : off + n < uintMod) :
    Run.Post (· = "balloc: out of blocks")
      (fun r : FsImage × Dinode × Int × (Nat → UInt8) => Keeps D ip r.1 r.2.1 ∧
        r.2.2.1 = ((min n (ip.size - off) : Nat) : Int) ∧
        r.2.2.2 = overlay dst 0 (min n (ip.size - off)) fun i => D.fileByte ip (off + i))
      (D.readi devsw ip dst off n) := by
  unfold readi
  rw [if_neg hty, if_neg (by rw [Nat.mod_eq_of_lt hn]; omega), readi_count (by omega)]
  dsimp only
  refine Run.Post.bind (readiLoop_post _ _ D ip dst 0 off h (Nat.zero_le _)
    (fun hpos => copy_fuel _ off hpos) (by have := h.size_le; omega)) ?_
  rintro ⟨D₁, ip₁, dst₁⟩ ⟨hk, hdst⟩
  refine ⟨hk, rfl, ?_⟩
  dsimp only at hdst ⊢
  rw [hdst, Nat.sub_zero]

/-- A disk of 64 blocks with only block `0` marked and every byte zero. -/
def blankDisk : FsImage := ⟨⟨64, 1⟩, fun _ => Dinode.zero, fun b => b == 0, fun _ _ => 0⟩

/-- An empty file without blocks. -/
def blankFile : Dinode := { Dinode.zero with type := .file }

end FsImage

end Xv6
