import Xv6.Analysis.Directory

/-!
# Files without holes

A file whose every byte below its size lies in a block with an address (`NoHoles`).  Every
file xv6 writes is one: `writei` never writes past the size, and it leaves no hole where it
writes (`writei_keeps_noHoles`).  On such a file `readi` and `writei` inside the size
allocate nothing: they return the inode as it was and keep every inode on the disk and the
bitmap (`writei_present`, `readi_entry_present`), and so does the scan of `dirlookup`
(`dirlookup_present`).
-/

set_option autoImplicit false

namespace Xv6

namespace FsImage

open Window

/-! ## Files without holes -/

/-- Every byte below the size of the inode lies in a block with an address. -/
def NoHoles (D : FsImage) (ip : Dinode) : Prop :=
  ∀ o, o < ip.size → D.blockAddr ip (o / bsize) ≠ 0

/-- INTERNAL: an inode whose block addresses are kept keeps its blocks. -/
theorem NoHoles.congr {D D' : FsImage} {ip : Dinode} (hh : D.NoHoles ip)
    (haddr : ∀ bn, D'.blockAddr ip bn = D.blockAddr ip bn) : D'.NoHoles ip := fun o ho => by
  rw [haddr]
  exact hh o ho

/-- The copy loop of `writei` over blocks that all have addresses allocates nothing: it
keeps the inode, every inode on the disk, the bitmap and the block addresses, and writes
no block but the inode's. -/
theorem writeiLoop_present (src : Nat → UInt8) (n : Nat) {ip : Dinode} (fuel : Nat) :
    ∀ (D : FsImage) (tot off : Nat), InodeWf D ip → tot ≤ n →
      (tot < n → n - tot + off % bsize ≤ fuel * bsize) →
      (∀ k, off ≤ k → k < off + (n - tot) → k / bsize < maxfile ∧ D.blockAddr ip (k / bsize) ≠ 0) →
      ∃ D', writeiLoop src n fuel D ip tot off = .ok (D', ip, off + (n - tot)) ∧ InodeWf D' ip ∧
        D'.dinode = D.dinode ∧ D'.used = D.used ∧ D'.sb = D.sb ∧
        (∀ bn, D'.blockAddr ip bn = D.blockAddr ip bn) ∧
        ∀ c, (∀ bn, bn < maxfile → D.blockAddr ip bn ≠ c) → D'.data c = D.data c := by
  -- induction on the fuel; the block of each pass has its address, so `bmap` returns it
  induction fuel with
  | zero =>
    intro D tot off h htot hf _
    have hn : n - tot = 0 := by
      by_contra hne
      have := hf (by omega)
      omega
    refine ⟨D, ?_, h, rfl, rfl, rfl, fun _ => rfl, fun _ _ => rfl⟩
    rw [hn, Nat.add_zero]
    rfl
  | succ fuel ih =>
    intro D tot off h htot hf hin
    by_cases ht : tot < n
    · obtain ⟨hbn, haddr⟩ := hin off le_rfl (by omega)
      have hm := chunk_bounds off ht
      rw [writeiLoop, if_pos ht, D.bmap_of_blockAddr ip hbn haddr, Run.ok_bind]
      dsimp only
      -- the block written is a data block, no indirect block
      have hkeep : ∀ bn, (D.writeData (D.blockAddr ip (off / bsize)) (off % bsize)
          (min (n - tot) (bsize - off % bsize)) fun i => src (tot + i)).blockAddr ip bn = D.blockAddr ip bn :=
        blockAddr_congr fun _ => D.writeData_data_of_ne _ _ _ (h.sep _ hbn haddr).symm
      obtain ⟨hwf₁, -⟩ := h.writePass hbn haddr hm.2.2 fun i => src (tot + i)
      obtain ⟨D', hloop, hwf', hdin, hused, hsb, haddr', hdata'⟩ :=
        ih _ _ _ hwf₁ (by omega) (chunk_fuel ht (hf ht)) fun k hk₁ hk₂ => by
          rw [hkeep]
          exact hin k (by omega) (by omega)
      refine ⟨D', ?_, hwf', hdin, hused, hsb, fun bn => (haddr' bn).trans (hkeep bn), fun c hc => ?_⟩
      · rw [hloop, show off + min (n - tot) (bsize - off % bsize) +
          (n - (tot + min (n - tot) (bsize - off % bsize))) = off + (n - tot) by omega]
      · rw [hdata' c fun bn hbn' => by rw [hkeep]; exact hc bn hbn']
        exact D.writeData_data_of_ne _ _ _ (hc _ hbn).symm
    · refine ⟨D, ?_, h, rfl, rfl, rfl, fun _ => rfl, fun _ _ => rfl⟩
      rw [writeiLoop, if_neg ht, show n - tot = 0 by omega, Nat.add_zero]
      rfl

/-- The copy loop of `writei` on a well-formed inode leaves every block number it writes
with a block, and every block number that had one with it; it fails only when no block is
free. -/
theorem writeiLoop_fills (src : Nat → UInt8) (n fuel : Nat) :
    ∀ (D : FsImage) (ip : Dinode) (tot off : Nat), InodeWf D ip → tot ≤ n →
      (tot < n → n - tot + off % bsize ≤ fuel * bsize) → off + (n - tot) ≤ maxfile * bsize →
      Run.Post (· = "balloc: out of blocks")
        (fun r : FsImage × Dinode × Nat => ∀ bn,
          (D.blockAddr ip bn ≠ 0 ∨ ∃ k, off ≤ k ∧ k < off + (n - tot) ∧ k / bsize = bn) →
            r.1.blockAddr r.2.1 bn ≠ 0)
        (writeiLoop src n fuel D ip tot off) := by
  -- induction on the fuel; each pass maps the block it writes and no other
  induction fuel with
  | zero =>
    intro D ip tot off h htot hf _
    have hn : n - tot = 0 := by
      by_contra hne
      have := hf (by omega)
      omega
    rintro bn (hbn | ⟨k, hk₁, hk₂, -⟩)
    · exact hbn
    · omega
  | succ fuel ih =>
    intro D ip tot off h htot hf hbound
    rw [writeiLoop]
    by_cases ht : tot < n
    · rw [if_pos ht]
      have hm := chunk_bounds off ht
      have hbn : off / bsize < maxfile := block_lt_maxfile (show off < off + (n - tot) by omega) hbound
      refine Run.Post.bind (bmap_post h hbn) ?_
      rintro ⟨D₁, ip₁, a⟩ ⟨hk, ha0, haddr, hframe⟩
      dsimp only at hk ha0 haddr hframe ⊢
      subst haddr
      -- the block written is a data block, so every block number keeps its block
      have hkeep : ∀ bn, (D₁.writeData (D₁.blockAddr ip₁ (off / bsize)) (off % bsize)
          (min (n - tot) (bsize - off % bsize)) fun i => src (tot + i)).blockAddr ip₁ bn = D₁.blockAddr ip₁ bn :=
        blockAddr_congr fun _ => D₁.writeData_data_of_ne _ _ _ (hk.wf.sep _ hbn ha0).symm
      obtain ⟨hwf₂, -⟩ := hk.wf.writePass hbn ha0 hm.2.2 fun i => src (tot + i)
      refine (ih _ ip₁ _ _ hwf₂ (by omega) (chunk_fuel ht (hf ht)) (by omega)).mono fun r hr bn hbn' => hr bn ?_
      rw [hkeep]
      by_cases hb : bn = off / bsize
      · -- the block of this pass
        left
        rw [hb]
        exact ha0
      · rcases hbn' with hold | ⟨k, hk₁, hk₂, hkb⟩
        · left
          rw [hframe bn hb]
          exact hold
        · -- a byte of the window in another block lies past this pass
          right
          refine ⟨k, ?_, by omega, hkb⟩
          by_contra hlt
          exact hb (by rw [← hkb]; unfold bsize at *; omega)
    · rw [if_neg ht]
      rintro bn (hbn | ⟨k, hk₁, hk₂, -⟩)
      · exact hbn
      · omega

section Present

variable (devsw : Nat → Option Devsw)

/-- **`writei` inside a file without holes allocates nothing.**  On a well-formed file or
directory with no hole, `writei` of `n` bytes ending within the size returns `n` and the
inode as it was, and changes no inode on the disk, no bit of the bitmap, no block address
and no block but the inode's. -/
theorem writei_present {D : FsImage} (inum : Nat) {ip : Dinode} (src : Nat → UInt8) {off n : Nat}
    (hty : ip.type ≠ .dev) (h : InodeWf D ip) (hh : D.NoHoles ip) (hn : off + n ≤ ip.size) :
    ∃ D', D.writei devsw inum ip src off n = .ok (D', ip, n) ∧ InodeWf D' ip ∧
      D'.dinode = D.dinode ∧ D'.used = D.used ∧ D'.sb = D.sb ∧
      (∀ bn, D'.blockAddr ip bn = D.blockAddr ip bn) ∧
      ∀ c, (∀ bn, bn < maxfile → D.blockAddr ip bn ≠ c) → D'.data c = D.data c := by
  have hsize := h.size_le
  have hwrap : (off + n) % uintMod = off + n :=
    Nat.mod_eq_of_lt (lt_of_le_of_lt (hn.trans hsize) maxfile_mul_bsize_lt_uintMod)
  obtain ⟨D', hloop, hrest⟩ := writeiLoop_present src n (n / bsize + 2) D 0 off h (Nat.zero_le n)
    (fun hpos => copy_fuel n off hpos)
    fun k hk₁ hk₂ => ⟨block_lt_maxfile (show k < ip.size by omega) hsize, hh k (by omega)⟩
  unfold writei
  rw [if_neg hty, if_neg (by omega), if_neg (by omega), hloop, Run.ok_bind]
  dsimp only
  -- the write ends within the size, so the size is not written back
  rw [if_neg (by omega)]
  exact ⟨D', rfl, hrest⟩

/-- `readi` of the entry in slot `k` of a directory without holes reads its bytes into the
buffer and changes nothing. -/
theorem readi_entry_present {D : FsImage} {dp : Dinode} (h : DirWf D dp) (hh : D.NoHoles dp)
    (dst : Nat → UInt8) {k : Nat} (hk : k < dp.size / direntSize) :
    D.readi devsw dp dst (direntSize * k) direntSize =
      .ok (D, dp, direntSize, overlay dst 0 direntSize fun i => D.fileByte dp (direntSize * k + i)) := by
  have hsize := h.wf.size_le
  have hwrap := maxfile_mul_bsize_lt_uintMod
  have hin := slot_lt_size hk (show direntSize - 1 < direntSize by decide)
  have hmin : min direntSize (dp.size - direntSize * k) = direntSize := by
    unfold direntSize at *
    omega
  rw [readi_bytes_of_inRange devsw D dst (by rw [h.dir]; decide) hsize (by unfold direntSize at *; omega)
    (by unfold direntSize at *; omega) (by unfold direntSize at *; omega)
    fun o _ ho => hh o (by unfold direntSize at *; omega), hmin]

/-- INTERNAL: the scan of `dirlookup` over a directory without holes changes nothing. -/
theorem dirlookupLoop_present {D : FsImage} {dp : Dinode} (h : DirWf D dp) (hh : D.NoHoles dp)
    (name : Nat → UInt8) (fuel : Nat) :
    ∀ k, ∃ r, dirlookupLoop devsw name fuel D dp (direntSize * k) = .ok (D, dp, r) := by
  -- induction on the fuel, from any slot
  induction fuel with
  | zero => exact fun _ => ⟨none, rfl⟩
  | succ fuel ih =>
    intro k
    rw [dirlookupLoop]
    by_cases hkn : direntSize * k < dp.size
    · have hk : k < dp.size / direntSize := by
        have := h.whole
        unfold direntSize at *
        omega
      rw [if_pos hkn, readi_entry_present devsw h hh _ hk, Run.ok_bind]
      dsimp only
      rw [if_neg (not_not_intro rfl)]
      obtain ⟨r, hr⟩ := ih (k + 1)
      rw [Nat.mul_succ] at hr
      split_ifs
      · exact ⟨r, hr⟩
      · exact ⟨_, rfl⟩
      · exact ⟨r, hr⟩
    · exact ⟨none, by rw [if_neg hkn]; rfl⟩

/-- `dirlookup` in a well-formed directory without holes changes nothing and finds the
entry the directory maps the name to. -/
theorem dirlookup_present {D : FsImage} {dp : Dinode} (h : DirWf D dp) (hh : D.NoHoles dp)
    (name : Nat → UInt8) : D.dirlookup devsw dp name = .ok (D, dp, D.lookup dp name) := by
  obtain ⟨r, hr⟩ := dirlookupLoop_present devsw h hh name (dp.size / direntSize + 1) 0
  have hpost := dirlookupLoop_post devsw name (dp.size / direntSize + 1) D dp 0 h (Nat.zero_le _)
    (Nat.lt_succ_of_le (Nat.sub_le _ _)) fun j hj => absurd hj (Nat.not_lt_zero j)
  rw [Nat.mul_zero] at hr hpost
  obtain ⟨-, hfound⟩ := hpost.of_ok hr
  unfold dirlookup
  rw [if_neg (not_not_intro h.dir), hr, ← hfound]

/-- INTERNAL: `writei` at an offset within the size keeps each block of the inode mapped and
maps every block it writes: a byte below the new size lies in a block with an address when
it was written or its block had one. -/
theorem writei_maps {D : FsImage} (inum : Nat) {ip : Dinode} (src : Nat → UInt8) {off n : Nat}
    (hty : ip.type ≠ .dev) (h : InodeWf D ip) (hoff : off ≤ ip.size) (hn : off + n ≤ maxfile * bsize) :
    Run.Post (· = "balloc: out of blocks")
      (fun r : FsImage × Dinode × Int => ∀ o, o < r.2.1.size →
        (o < ip.size → D.blockAddr ip (o / bsize) ≠ 0) → r.1.blockAddr r.2.1 (o / bsize) ≠ 0)
      (D.writei devsw inum ip src off n) := by
  have hwrap : (off + n) % uintMod = off + n :=
    Nat.mod_eq_of_lt (lt_of_le_of_lt hn maxfile_mul_bsize_lt_uintMod)
  unfold writei
  rw [if_neg hty, if_neg (by omega), if_neg (by omega)]
  refine Run.Post.bind ((writeiLoop_post src n _ D ip 0 off h (Nat.zero_le n) (fun hpos => copy_fuel n off hpos)
    (by omega)).and (writeiLoop_fills src n _ D ip 0 off h (Nat.zero_le n) (fun hpos => copy_fuel n off hpos)
    (by omega))) ?_
  rintro ⟨D₃, ip₃, off₃⟩ ⟨⟨-, hsize₃, -, hoff₃, -⟩, hfill⟩
  dsimp only at hsize₃ hoff₃ hfill ⊢
  -- a byte below the new size was below the old one, or was written
  have hcover : ∀ o, o < max ip.size (off + n) → (o < ip.size → D.blockAddr ip (o / bsize) ≠ 0) →
      D₃.blockAddr ip₃ (o / bsize) ≠ 0 := fun o ho hmapped => by
    by_cases hold : o < ip.size
    · exact hfill _ (Or.inl (hmapped hold))
    · exact hfill _ (Or.inr ⟨o, by omega, by omega, rfl⟩)
  split_ifs
  · -- the grown size is written back, the addresses are the loop's
    intro o ho
    exact hcover o (by dsimp only at ho; omega)
  · intro o ho
    exact hcover o (by dsimp only at ho; omega)

/-- **`writei` keeps a file without holes.**  On a well-formed file or directory with no
hole, `writei` at an offset within the size, ending within `MAXFILE * BSIZE`, leaves no
hole: every byte below the new size lies in a block with an address.  It fails only when
`balloc` runs out of blocks, on a disk with fewer free blocks than two for each pass of its
loop. -/
theorem writei_keeps_noHoles {D : FsImage} (inum : Nat) {ip : Dinode} (src : Nat → UInt8) {off n : Nat}
    (hty : ip.type ≠ .dev) (h : InodeWf D ip) (hh : D.NoHoles ip) (hoff : off ≤ ip.size)
    (hn : off + n ≤ maxfile * bsize) :
    Run.Post (D.OutOfBlocks (2 * (n / bsize + 2))) (fun r : FsImage × Dinode × Int => r.1.NoHoles r.2.1)
      (D.writei devsw inum ip src off n) :=
  post_outOfBlocks ((writei_maps devsw inum src hty h hoff hn).mono fun _ hmaps o ho => hmaps o ho (hh o))
    fun hk => writei_total devsw D inum ip src off n hk

/-- Writing three bytes into an empty file leaves it without holes. -/
theorem writei_blank_noHoles :
    blankFile.type ≠ .dev ∧ InodeWf blankDisk blankFile ∧ blankDisk.NoHoles blankFile ∧
      0 ≤ blankFile.size ∧ 0 + 3 ≤ maxfile * bsize ∧ 2 * (3 / bsize + 2) ≤ blankDisk.freeBlocks ∧
      Run.Post (blankDisk.OutOfBlocks (2 * (3 / bsize + 2)))
        (fun r : FsImage × Dinode × Int => r.1.NoHoles r.2.1)
        (blankDisk.writei (fun _ => none) 2 blankFile (fun j => j.toUInt8) 0 3) :=
  have hwf : InodeWf blankDisk blankFile := InodeWf.of_addrs_zero rfl (by decide) (fun _ => rfl) (by decide)
  have hh : blankDisk.NoHoles blankFile := fun o ho => absurd ho (Nat.not_lt_zero o)
  ⟨by decide, hwf, hh, Nat.zero_le _, by decide, by decide,
    writei_keeps_noHoles (fun _ => none) 2 (fun j => j.toUInt8) (by decide) hwf hh (Nat.zero_le _) (by decide)⟩

end Present

end FsImage

end Xv6
