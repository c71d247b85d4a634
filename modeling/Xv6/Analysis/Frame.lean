import Xv6.Analysis.Holes

/-!
# What a write leaves of the rest of the disk

`Frame D D' inum S`: the disk `D'` differs from `D` only in the inode `inum`, in blocks
that `S` holds, and in blocks that were free in `D`.  `bmap` changes only free blocks and
the inode's indirect block (`bmap_frame`), and `writei` only the inode's own blocks and
free ones (`writei_frame`), so every other file and directory keeps what it holds.  On a
directory without holes `dirlink` stays without holes, leaves its inode on the disk as the
cache holds it, and touches no block of another inode (`dirlink_present`).
-/

set_option autoImplicit false

namespace Xv6

namespace FsImage

/-- `D'` is `D` changed only in the inode `inum`, in blocks of `S` and in blocks free in
`D`: every other inode and the superblock are as they were, every marked block stays
marked, and a marked block outside `S` keeps its bytes. -/
structure Frame (D D' : FsImage) (inum : Nat) (S : Nat → Prop) : Prop where
  dinode : ∀ j, j ≠ inum → D'.dinode j = D.dinode j
  sb : D'.sb = D.sb
  used : ∀ c, D.used c = true → D'.used c = true
  data : ∀ c, D.used c = true → ¬S c → D'.data c = D.data c

theorem Frame.refl (D : FsImage) (inum : Nat) (S : Nat → Prop) : Frame D D inum S :=
  ⟨fun _ _ => rfl, rfl, fun _ hc => hc, fun _ _ _ => rfl⟩

theorem Frame.trans {D₁ D₂ D₃ : FsImage} {inum : Nat} {S T : Nat → Prop} (h₁ : Frame D₁ D₂ inum S)
    (h₂ : Frame D₂ D₃ inum T) : Frame D₁ D₃ inum fun c => S c ∨ T c :=
  ⟨fun j hj => (h₂.dinode j hj).trans (h₁.dinode j hj), h₂.sb.trans h₁.sb,
    fun c hc => h₂.used c (h₁.used c hc),
    fun c hc hST => (h₂.data c (h₁.used c hc) fun h => hST (Or.inr h)).trans
      (h₁.data c hc fun h => hST (Or.inl h))⟩

theorem Frame.mono {D D' : FsImage} {inum : Nat} {S T : Nat → Prop} (h : Frame D D' inum S)
    (hST : ∀ c, D.used c = true → S c → T c) : Frame D D' inum T :=
  ⟨h.dinode, h.sb, h.used, fun c hc hT => h.data c hc fun hS => hT (hST c hc hS)⟩

/-- INTERNAL: a marked block is no free one. -/
theorem ne_of_used_of_free {D : FsImage} {b c : Nat} (hc : D.used c = true) (hb : D.used b = false) : c ≠ b :=
  fun h => by
    rw [h, hb] at hc
    exact Bool.false_ne_true hc

/-- INTERNAL: marking and zeroing a free block changes no marked block. -/
theorem Frame.alloc (D : FsImage) {b : Nat} (hfree : D.used b = false) (inum : Nat) (S : Nat → Prop) :
    Frame D ((D.setUsed b true).bzero b) inum S := by
  refine ⟨fun _ _ => rfl, rfl, fun c hc => ?_, fun c hc _ => ?_⟩
  · rw [bzero_used, setUsed_used]
    by_cases hcb : c = b
    · rw [if_pos hcb]
    · rw [if_neg hcb]
      exact hc
  · rw [bzero_data, if_neg (ne_of_used_of_free hc hfree), setUsed_data]

/-- INTERNAL: a write into block `b` changes only block `b`. -/
theorem Frame.writeData (D : FsImage) (b off m : Nat) (src : Nat → UInt8) (inum : Nat) :
    Frame D (D.writeData b off m src) inum (· = b) :=
  ⟨fun _ _ => rfl, rfl, fun _ hc => hc, fun _ _ hc => D.writeData_data_of_ne _ _ _ hc⟩

/-- INTERNAL: writing the inode `inum` back changes no other inode and no block. -/
theorem Frame.iupdate (D : FsImage) (inum : Nat) (ip : Dinode) (S : Nat → Prop) :
    Frame D (D.iupdate inum ip) inum S :=
  ⟨fun j hj => by rw [FsImage.iupdate, setDinode_dinode, if_neg hj], rfl, fun _ hc => hc, fun _ _ _ => rfl⟩

/-- An inode none of whose blocks `S` holds keeps them, with the bytes it holds and its
well-formedness. -/
theorem Frame.keeps {D D' : FsImage} {inum : Nat} {S : Nat → Prop} (hfr : Frame D D' inum S) {ip : Dinode}
    (h : InodeWf D ip)
    (hS : ∀ c, c ≠ 0 → S c → c ≠ ip.addrs ndirect ∧ ∀ bn, bn < maxfile → D.blockAddr ip bn ≠ c) :
    Keeps D ip D' ip ∧ ∀ bn, D'.blockAddr ip bn = D.blockAddr ip bn := by
  have haddr : ∀ bn, D'.blockAddr ip bn = D.blockAddr ip bn :=
    blockAddr_congr fun hind => hfr.data _ (h.ind_used hind) fun hs => (hS _ hind hs).1 rfl
  refine ⟨⟨h.congr haddr rfl hfr.used (by rw [hfr.sb]) h.size_le, fun o ho => ?_, rfl, rfl⟩, haddr⟩
  -- a byte of the file lies in one of its blocks, which `S` does not hold
  have hbn : o / bsize < maxfile := Nat.div_lt_of_lt_mul (by rwa [Nat.mul_comm] at ho)
  refine fileByte_congr (haddr _) fun h0 => ?_
  rw [hfr.data _ (h.data_used _ hbn h0) fun hs => (hS _ h0 hs).2 _ hbn rfl]

/-- What a write leaves of the inode it writes: each block of `ip'` on `D'` is the block
of `ip` on `D` or one free in `D`, and so is its indirect block; its link count is kept. -/
structure Fresh (D : FsImage) (ip : Dinode) (D' : FsImage) (ip' : Dinode) : Prop where
  addr : ∀ bn, bn < maxfile → D'.blockAddr ip' bn = D.blockAddr ip bn ∨ D.used (D'.blockAddr ip' bn) = false
  ind : ip'.addrs ndirect = ip.addrs ndirect ∨ D.used (ip'.addrs ndirect) = false
  nlink : ip'.nlink = ip.nlink

theorem Fresh.of_blockAddr {D D' : FsImage} {ip ip' : Dinode} (haddr : ∀ bn, D'.blockAddr ip' bn = D.blockAddr ip bn)
    (hind : ip'.addrs ndirect = ip.addrs ndirect) (hnlink : ip'.nlink = ip.nlink) : Fresh D ip D' ip' :=
  ⟨fun bn _ => Or.inl (haddr bn), Or.inl hind, hnlink⟩

theorem Fresh.refl (D : FsImage) (ip : Dinode) : Fresh D ip D ip :=
  Fresh.of_blockAddr (fun _ => rfl) rfl rfl

/-- INTERNAL: a block free after a step that keeps every mark was free before it. -/
theorem free_of_free {D D' : FsImage} (hused : ∀ c, D.used c = true → D'.used c = true) {c : Nat}
    (h : D'.used c = false) : D.used c = false :=
  Bool.eq_false_iff.mpr fun hc => by
    rw [hused c hc] at h
    exact Bool.noConfusion h

theorem Fresh.trans {D₁ D₂ D₃ : FsImage} {ip₁ ip₂ ip₃ : Dinode} (h₁ : Fresh D₁ ip₁ D₂ ip₂)
    (h₂ : Fresh D₂ ip₂ D₃ ip₃) (hused : ∀ c, D₁.used c = true → D₂.used c = true) : Fresh D₁ ip₁ D₃ ip₃ := by
  refine ⟨fun bn hbn => ?_, ?_, h₂.nlink.trans h₁.nlink⟩
  · rcases h₂.addr bn hbn with h | h
    · rw [h]
      exact h₁.addr bn hbn
    · exact Or.inr (free_of_free hused h)
  · rcases h₂.ind with h | h
    · rw [h]
      exact h₁.ind
    · exact Or.inr (free_of_free hused h)

/-- INTERNAL: an inode without addresses has no block. -/
theorem blockAddr_of_addrs_zero (D : FsImage) {ip : Dinode} (hempty : ∀ k, ip.addrs k = 0) (bn : Nat) :
    D.blockAddr ip bn = 0 := by
  unfold blockAddr
  rw [if_pos (hempty ndirect)]
  split_ifs
  · exact hempty bn
  · rfl

/-! ## `bmap` and `writei` -/

/-- **`bmap` changes only free blocks and the indirect block.**  The block it returns is the
one the block number had or was free, and so is the indirect block it leaves in the inode;
it fails only when no block is free. -/
theorem bmap_frame (D : FsImage) (ip : Dinode) {bn : Nat} (hbn : bn < maxfile) (inum : Nat) :
    Run.Post (· = "balloc: out of blocks")
      (fun r : FsImage × Dinode × Nat => Frame D r.1 inum (· = ip.addrs ndirect) ∧
        (r.2.2 = D.blockAddr ip bn ∨ D.used r.2.2 = false) ∧
        (r.2.1.addrs ndirect = ip.addrs ndirect ∨ D.used (r.2.1.addrs ndirect) = false) ∧
        r.2.1.nlink = ip.nlink)
      (D.bmap ip bn) := by
  unfold bmap
  by_cases hd : bn < ndirect
  · rw [if_pos hd]
    by_cases h0 : ip.addrs bn = 0
    · -- a fresh direct block
      rw [if_pos h0]
      refine Run.Post.bind D.balloc_post ?_
      rintro ⟨D₁, b⟩ ⟨-, hfree, hD₁⟩
      dsimp only at hD₁ ⊢
      subst hD₁
      refine ⟨Frame.alloc D hfree inum _, Or.inr hfree, Or.inl ?_, rfl⟩
      rw [Dinode.setAddr_addrs, if_neg (by omega)]
    · rw [if_neg h0]
      refine ⟨Frame.refl D inum _, Or.inl ?_, Or.inl rfl, rfl⟩
      unfold blockAddr
      rw [if_pos hd]
  have hin : bn - ndirect < nindirect := by
    unfold maxfile at hbn
    omega
  rw [if_neg hd, if_pos hin]
  dsimp only
  by_cases h0 : ip.addrs ndirect = 0
  · -- a fresh indirect block, whose entries are all zero, then a fresh entry
    rw [if_pos h0]
    refine Run.Post.bind D.balloc_post ?_
    rintro ⟨D₁, c⟩ ⟨-, hcfree, hD₁⟩
    dsimp only at hD₁ ⊢
    subst hD₁
    rw [pure_bind]
    dsimp only
    have hnd : (ip.setAddr ndirect c).addrs ndirect = c := by
      rw [Dinode.setAddr_addrs, if_pos rfl]
    have he : ((D.setUsed c true).bzero c).entry c (bn - ndirect) = 0 := by
      unfold entry
      rw [bzero_data, if_pos rfl, le32_zero]
    rw [hnd, if_pos he]
    refine Run.Post.bind ((D.setUsed c true).bzero c).balloc_post ?_
    rintro ⟨D₂, b⟩ ⟨-, hbfree, hD₂⟩
    dsimp only at hD₂ ⊢
    subst hD₂
    -- `b` was free before `c` was taken, and differs from it
    have hbD : D.used b = false := by
      rw [bzero_used, setUsed_used] at hbfree
      by_cases hbc : b = c
      · rw [if_pos hbc] at hbfree
        exact Bool.noConfusion hbfree
      · rwa [if_neg hbc] at hbfree
    refine ⟨(((Frame.alloc D hcfree inum (· = c)).trans (Frame.alloc _ hbfree inum (· = c))).trans
      (Frame.writeData _ c _ _ _ inum)).mono fun c' hc' hS => ?_, Or.inr hbD,
      Or.inr (by rw [hnd]; exact hcfree), rfl⟩
    -- every block changed was free
    exact absurd (by rcases hS with (hS | hS) | hS <;> exact hS) (ne_of_used_of_free hc' hcfree)
  · rw [if_neg h0, pure_bind]
    dsimp only
    by_cases he : D.entry (ip.addrs ndirect) (bn - ndirect) = 0
    · -- a fresh entry of the indirect block
      rw [if_pos he]
      refine Run.Post.bind D.balloc_post ?_
      rintro ⟨D₁, b⟩ ⟨-, hbfree, hD₁⟩
      dsimp only at hD₁ ⊢
      subst hD₁
      refine ⟨((Frame.alloc D hbfree inum (· = ip.addrs ndirect)).trans
        (Frame.writeData _ (ip.addrs ndirect) _ _ _ inum)).mono fun c hc hS => ?_, Or.inr hbfree, Or.inl rfl, rfl⟩
      rcases hS with hS | hS <;> exact hS
    · rw [if_neg he]
      refine ⟨Frame.refl D inum _, Or.inl ?_, Or.inl rfl, rfl⟩
      unfold blockAddr
      rw [if_neg hd, if_neg h0]

/-- The copy loop of `writei` on a well-formed inode changes only the inode's blocks and
free ones, and gives the inode only blocks that were free; it fails only when no block is
free. -/
theorem writeiLoop_frame (src : Nat → UInt8) (n fuel inum : Nat) :
    ∀ (D : FsImage) (ip : Dinode) (tot off : Nat), InodeWf D ip → tot ≤ n →
      (tot < n → n - tot + off % bsize ≤ fuel * bsize) → off + (n - tot) ≤ maxfile * bsize →
      Run.Post (· = "balloc: out of blocks")
        (fun r : FsImage × Dinode × Nat => (Frame D r.1 inum fun c =>
          (∃ bn, bn < maxfile ∧ D.blockAddr ip bn = c) ∨ c = ip.addrs ndirect) ∧ Fresh D ip r.1 r.2.1)
        (writeiLoop src n fuel D ip tot off) := by
  -- induction on the fuel; each pass changes the inode's block or a fresh one
  induction fuel with
  | zero =>
    intro D ip tot off _ _ _ _
    exact ⟨Frame.refl D inum _, Fresh.refl D ip⟩
  | succ fuel ih =>
    intro D ip tot off h htot hf hbound
    rw [writeiLoop]
    by_cases ht : tot < n
    swap
    · rw [if_neg ht]
      exact ⟨Frame.refl D inum _, Fresh.refl D ip⟩
    rw [if_pos ht]
    have hm := chunk_bounds off ht
    have hbn : off / bsize < maxfile := block_lt_maxfile (show off < off + (n - tot) by omega) hbound
    refine Run.Post.bind ((bmap_post h hbn).and (bmap_frame D ip hbn inum)) ?_
    rintro ⟨D₁, ip₁, a⟩ ⟨⟨hk, ha0, haddr, hother⟩, hfr₁, ha, hind, hnlink⟩
    dsimp only at hk ha0 haddr hother hfr₁ ha hind hnlink ⊢
    subst haddr
    have hkeep : ∀ bn, (D₁.writeData (D₁.blockAddr ip₁ (off / bsize)) (off % bsize)
        (min (n - tot) (bsize - off % bsize)) fun i => src (tot + i)).blockAddr ip₁ bn = D₁.blockAddr ip₁ bn :=
      blockAddr_congr fun _ => D₁.writeData_data_of_ne _ _ _ (hk.wf.sep _ hbn ha0).symm
    obtain ⟨hwf₂, -⟩ := hk.wf.writePass hbn ha0 hm.2.2 fun i => src (tot + i)
    -- the block this pass wrote is the inode's or was free
    have hwritten : ∀ c, D.used c = true → c = D₁.blockAddr ip₁ (off / bsize) →
        (∃ bn, bn < maxfile ∧ D.blockAddr ip bn = c) ∨ c = ip.addrs ndirect := by
      intro c hc hca
      rcases ha with ha | ha
      · exact Or.inl ⟨off / bsize, hbn, by rw [hca, ha]⟩
      · exact absurd hca (ne_of_used_of_free hc ha)
    have hfresh₁ : Fresh D ip D₁ ip₁ := by
      refine ⟨fun bn' _ => ?_, hind, hnlink⟩
      by_cases hb : bn' = off / bsize
      · rw [hb]
        exact ha
      · exact Or.inl (hother bn' hb)
    have hfr₂ := hfr₁.trans (Frame.writeData D₁ (D₁.blockAddr ip₁ (off / bsize)) (off % bsize)
      (min (n - tot) (bsize - off % bsize)) (fun i => src (tot + i)) inum)
    refine (ih _ ip₁ _ _ hwf₂ (by omega) (chunk_fuel ht (hf ht)) (by omega)).mono ?_
    rintro r ⟨hr, hrf⟩
    refine ⟨(hfr₂.trans hr).mono fun c hc hS => ?_,
      hfresh₁.trans ((Fresh.of_blockAddr hkeep rfl rfl).trans hrf fun _ hc => hc) hfr₁.used⟩
    rcases hS with (hS | hS) | ⟨bn', hbn', hbc⟩ | hS
    · exact Or.inr hS
    · exact hwritten c hc hS
    · -- a block of the inode after this pass: the one written, or one it had
      rw [hkeep] at hbc
      by_cases hb : bn' = off / bsize
      · rw [hb] at hbc
        exact hwritten c hc hbc.symm
      · rw [hother bn' hb] at hbc
        exact Or.inl ⟨bn', hbn', hbc⟩
    · rcases hind with hind | hind
      · exact Or.inr (hS.trans hind)
      · exact absurd hS (ne_of_used_of_free hc hind)

section Write

variable (devsw : Nat → Option Devsw)

/-- **`writei` changes only the inode's blocks and free ones.**  On a well-formed inode,
`writei` leaves every other inode as it was, keeps every marked block marked and every
marked block that is not the inode's with its bytes, and gives the inode only blocks that
were free; it fails only when no block is free. -/
theorem writei_frame {D : FsImage} (inum : Nat) {ip : Dinode} (src : Nat → UInt8) (off n : Nat)
    (h : InodeWf D ip) :
    Run.Post (· = "balloc: out of blocks")
      (fun r : FsImage × Dinode × Int => (Frame D r.1 inum fun c =>
        (∃ bn, bn < maxfile ∧ D.blockAddr ip bn = c) ∨ c = ip.addrs ndirect) ∧ Fresh D ip r.1 r.2.1)
      (D.writei devsw inum ip src off n) := by
  unfold writei
  by_cases hty : ip.type = .dev
  · -- a device: nothing is written to the disk
    rw [if_pos hty]
    split
    · exact ⟨Frame.refl D inum _, Fresh.refl D ip⟩
    · exact ⟨Frame.refl D inum _, Fresh.refl D ip⟩
  rw [if_neg hty]
  by_cases hg : ip.size < off ∨ (off + n) % uintMod < off
  · rw [if_pos hg]
    exact ⟨Frame.refl D inum _, Fresh.refl D ip⟩
  rw [if_neg hg]
  by_cases hb : maxfile * bsize < off + n
  · rw [if_pos hb]
    exact ⟨Frame.refl D inum _, Fresh.refl D ip⟩
  rw [if_neg hb]
  refine Run.Post.bind (writeiLoop_frame src n _ inum D ip 0 off h (Nat.zero_le n)
    (fun hpos => copy_fuel n off hpos) (by omega)) ?_
  rintro ⟨D₃, ip₃, off₃⟩ ⟨hfr, hf⟩
  dsimp only at hfr hf ⊢
  split_ifs
  · -- the grown size written back
    exact ⟨(hfr.trans (Frame.iupdate D₃ inum _ fun _ => False)).mono fun c _ hc => hc.resolve_right id,
      hf.trans (Fresh.of_blockAddr (fun _ => rfl) rfl rfl) hfr.used⟩
  · exact ⟨hfr, hf⟩

/-- INTERNAL: `writei` from within the size of an inode without holes, as the cache holds it
on the disk, leaves it on the disk as the cache holds it: inside the size nothing is
allocated, and past it the grown size is written back. -/
theorem writei_disk_inode {D : FsImage} (inum : Nat) {ip : Dinode} (src : Nat → UInt8) {off n : Nat}
    (hty : ip.type ≠ .dev) (h : InodeWf D ip) (hh : D.NoHoles ip) (hoff : off ≤ ip.size)
    (hn : off + n ≤ maxfile * bsize) (hdisk : D.dinode inum = ip) :
    Run.Post (· = "balloc: out of blocks") (fun r : FsImage × Dinode × Int => r.1.dinode inum = r.2.1)
      (D.writei devsw inum ip src off n) := by
  by_cases hin : off + n ≤ ip.size
  · obtain ⟨D', hw, -, hdin, -⟩ := writei_present devsw inum src hty h hh hin
    rw [hw]
    show D'.dinode inum = ip
    rw [hdin, hdisk]
  have hwrap : (off + n) % uintMod = off + n :=
    Nat.mod_eq_of_lt (lt_of_le_of_lt hn maxfile_mul_bsize_lt_uintMod)
  unfold writei
  rw [if_neg hty, if_neg (by omega), if_neg (by omega)]
  refine Run.Post.bind (writeiLoop_post src n _ D ip 0 off h (Nat.zero_le n) (fun hpos => copy_fuel n off hpos)
    (by omega)) ?_
  rintro ⟨D₃, ip₃, off₃⟩ ⟨-, hsize₃, -, hoff₃, -⟩
  dsimp only at hsize₃ hoff₃ ⊢
  -- the write ends past the size, which grows and is written back
  rw [if_pos ⟨by omega, by omega⟩]
  show (D₃.iupdate inum _).dinode inum = _
  rw [iupdate, setDinode_dinode, if_pos rfl]

end Write

/-! ## `dirlink` on a directory without holes -/

section Link

variable (devsw : Nat → Option Devsw)

/-- INTERNAL: the scan of `dirlink` over a directory without holes changes nothing. -/
theorem dirlinkLoop_present {D : FsImage} {dp : Dinode} (h : DirWf D dp) (hh : D.NoHoles dp) (fuel : Nat) :
    ∀ (de : Nat → UInt8) (k : Nat), ∃ de' off, dirlinkLoop devsw fuel D dp de (direntSize * k) = .ok (D, dp, de', off) := by
  -- induction on the fuel, from any slot
  induction fuel with
  | zero => exact fun de k => ⟨de, _, rfl⟩
  | succ fuel ih =>
    intro de k
    rw [dirlinkLoop]
    by_cases hkn : direntSize * k < dp.size
    · have hk : k < dp.size / direntSize := by
        have := h.whole
        unfold direntSize at *
        omega
      rw [if_pos hkn, readi_entry_present devsw h hh _ hk, Run.ok_bind]
      dsimp only
      rw [if_neg (not_not_intro rfl)]
      split_ifs
      · exact ⟨_, _, rfl⟩
      · obtain ⟨de', off, hr⟩ := ih (Window.overlay de 0 direntSize fun i => D.fileByte dp (direntSize * k + i)) (k + 1)
        rw [Nat.mul_succ] at hr
        exact ⟨de', off, hr⟩
    · exact ⟨de, _, by rw [if_neg hkn]; rfl⟩

/-- **`dirlink` on a directory without holes.**  In a well-formed directory without holes,
held on the disk as the cache holds it, with room for the slot `dirlink` writes: the
directory stays without holes and on the disk as the cache holds it, `dirlink` changes no
other inode and no marked block but the directory's, and gives the directory only blocks
that were free.  It fails only when no block is free. -/
theorem dirlink_present {D : FsImage} (dnum : Nat) {dp : Dinode} (name : Nat → UInt8) (inum : Nat)
    (h : DirWf D dp) (hh : D.NoHoles dp) (hroom : direntSize * D.freeSlot dp + direntSize ≤ maxfile * bsize)
    (hdisk : D.dinode dnum = dp) :
    Run.Post (· = "balloc: out of blocks")
      (fun r : FsImage × Dinode × Int => r.1.NoHoles r.2.1 ∧ r.1.dinode dnum = r.2.1 ∧
        (Frame D r.1 dnum fun c => (∃ bn, bn < maxfile ∧ D.blockAddr dp bn = c) ∨ c = dp.addrs ndirect) ∧
        Fresh D dp r.1 r.2.1)
      (D.dirlink devsw dnum dp name inum) := by
  have hty : dp.type ≠ .dev := by
    rw [h.dir]
    decide
  unfold dirlink
  rw [dirlookup_present devsw h hh name, Run.ok_bind]
  dsimp only
  rcases hl : D.lookup dp name with _ | found
  · -- the name is absent: the scan changes nothing and stops at the free slot
    dsimp only
    obtain ⟨de, off, hscan⟩ := dirlinkLoop_present devsw h hh (dp.size / direntSize + 1) (fun _ => 0) 0
    have hpost := dirlinkLoop_post devsw (dp.size / direntSize + 1) D dp (fun _ => 0) 0 h (Nat.zero_le _)
      (Nat.lt_succ_of_le (Nat.sub_le _ _)) fun j hj => absurd hj (Nat.not_lt_zero j)
    rw [Nat.mul_zero] at hscan hpost
    obtain ⟨-, hoff⟩ := hpost.of_ok hscan
    dsimp only at hoff
    subst hoff
    rw [hscan, Run.ok_bind]
    dsimp only
    have hf : D.freeSlot dp ≤ dp.size / direntSize := SlotTable.freeSlot_le _ _
    have hoff : direntSize * D.freeSlot dp ≤ dp.size := by
      have := h.whole
      unfold direntSize at *
      omega
    have hw := ((((writei_post devsw dnum (dirlinkEntry de name inum) hty h.wf hoff hroom).and
      (writei_maps devsw dnum (dirlinkEntry de name inum) hty h.wf hoff hroom)).and
      (writei_disk_inode devsw dnum (dirlinkEntry de name inum) hty h.wf hh hoff hroom hdisk)).and
      (writei_frame devsw dnum (dirlinkEntry de name inum) _ _ h.wf))
    refine Run.Post.bind hw ?_
    rintro ⟨D₃, dp₃, r⟩ ⟨⟨⟨⟨hr, -⟩, hmaps⟩, hdisk₃⟩, hfr, hfresh⟩
    dsimp only at hr hmaps hdisk₃ hfr hfresh ⊢
    rw [if_neg (not_not_intro hr)]
    exact ⟨fun o ho => hmaps o ho (hh o), hdisk₃, hfr, hfresh⟩
  · -- the name is present: nothing is written
    exact ⟨hh, hdisk, Frame.refl D dnum _, Fresh.refl D dp⟩

end Link

end FsImage

end Xv6
