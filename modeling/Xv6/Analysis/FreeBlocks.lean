import Xv6.Analysis.InodeWrite

/-!
# Free blocks: the inode layer succeeds while enough blocks are free

`balloc` is the one call of the block layer that can fail, and it fails only when no
block below the superblock's size is free.  Counting the free blocks (`freeBlocks`),
`balloc` takes one (`freeBlocks_alloc`), `bmap` at most two, for a missing indirect block
and its entry (`bmap_total`), and a pass of the copy loops of `readi` and `writei` calls
`bmap` once.  So `readi` and `writei` of `n` bytes return on any disk with
`2 * (n / BSIZE + 2)` free blocks, the fuel they give their loops (`readi_total`,
`writei_total`).  `Spent D D' k` is that bookkeeping: the same superblock and at most `k`
fewer free blocks.

The results of the inode layer then state both halves at once: a call fails only with
`balloc`'s panic, and only when fewer blocks are free than it may take (`OutOfBlocks`,
built from the two by `Run.Post.unless`).  Reading back what `writei` wrote
(`readi_after_writei`) and the bound of inode I/O (`inode_io_respects_size_bound`) are
stated so.
-/

set_option autoImplicit false

namespace Xv6

open Window

namespace FsImage

/-! ## Counting free blocks -/

/-- The blocks `balloc` can still hand out: those below the superblock's size whose bitmap
bit is clear. -/
def freeBlocks (D : FsImage) : Nat := ((Finset.range D.sb.size).filter fun b => D.used b = false).card

/-- The failure of a call that may take `k` blocks: `balloc`'s panic, on a disk `D` with
fewer than `k` free blocks. -/
def OutOfBlocks (D : FsImage) (k : Nat) (e : String) : Prop :=
  e = "balloc: out of blocks" ∧ D.freeBlocks < k

/-- `D'` is `D` after at most `k` allocations: the same superblock and at most `k` fewer
free blocks. -/
structure Spent (D D' : FsImage) (k : Nat) : Prop where
  sb : D'.sb = D.sb
  free : D.freeBlocks ≤ D'.freeBlocks + k

theorem Spent.refl (D : FsImage) : Spent D D 0 := ⟨rfl, Nat.le_add_right _ _⟩

theorem Spent.trans {D₁ D₂ D₃ : FsImage} {k k' : Nat} (h₁ : Spent D₁ D₂ k) (h₂ : Spent D₂ D₃ k') :
    Spent D₁ D₃ (k + k') :=
  ⟨h₂.sb.trans h₁.sb, by have := h₁.free; have := h₂.free; omega⟩

theorem Spent.mono {D D' : FsImage} {k k' : Nat} (h : Spent D D' k) (hk : k ≤ k') : Spent D D' k' :=
  ⟨h.sb, by have := h.free; omega⟩

/-- INTERNAL: a disk with the superblock and the bitmap of `D` has its free blocks. -/
theorem Spent.of_used {D D' : FsImage} (hsb : D'.sb = D.sb) (hused : D'.used = D.used) : Spent D D' 0 :=
  ⟨hsb, by unfold freeBlocks; rw [hsb, hused]; omega⟩

theorem Spent.writeData (D : FsImage) (b off m : Nat) (src : Nat → UInt8) :
    Spent D (D.writeData b off m src) 0 :=
  Spent.of_used (writeData_sb _ _ _ _ _) (writeData_used _ _ _ _ _)

theorem Spent.iupdate (D : FsImage) (inum : Nat) (ip : Dinode) : Spent D (D.iupdate inum ip) 0 :=
  Spent.of_used (setDinode_sb _ _ _) (setDinode_used _ _ _)

/-- Marking a free block and zeroing it takes one free block. -/
theorem freeBlocks_alloc (D : FsImage) {b : Nat} (hb : b < D.sb.size) (hfree : D.used b = false) :
    ((D.setUsed b true).bzero b).freeBlocks + 1 = D.freeBlocks := by
  have hset : ((Finset.range D.sb.size).filter fun c => ((D.setUsed b true).bzero b).used c = false) =
      ((Finset.range D.sb.size).filter fun c => D.used c = false).erase b := by
    ext c
    simp only [bzero_used, setUsed_used, Finset.mem_filter, Finset.mem_range, Finset.mem_erase]
    by_cases hc : c = b
    · subst hc
      simp
    · simp [hc]
  have hmem : b ∈ (Finset.range D.sb.size).filter fun c => D.used c = false := by simp [hb, hfree]
  have hpos := Finset.card_pos.mpr ⟨b, hmem⟩
  unfold freeBlocks
  rw [bzero_sb, setUsed_sb, hset, Finset.card_erase_of_mem hmem]
  omega

/-- INTERNAL: a call that fails only with `balloc`'s panic, and cannot fail with `k` free
blocks, fails only when fewer are free. -/
theorem post_outOfBlocks {α : Type} {x : Except String α} {P Q : α → Prop} {D : FsImage} {k : Nat}
    (h : Run.Post (· = "balloc: out of blocks") P x) (ht : k ≤ D.freeBlocks → Run.Post (fun _ => False) Q x) :
    Run.Post (D.OutOfBlocks k) P x :=
  (h.unless ht).weaken fun _ ⟨he, hk⟩ => ⟨he, Nat.lt_of_not_le hk⟩

/-! ## Allocation with free blocks -/

/-- INTERNAL: the scan from `b₀` returns when a free block lies between `b₀` and the size. -/
theorem ballocLoop_returns (D : FsImage) :
    ∀ (fuel b₀ : Nat), D.sb.size ≤ b₀ + fuel → (∃ b, b₀ ≤ b ∧ b < D.sb.size ∧ D.used b = false) →
      ∃ r, D.ballocLoop fuel b₀ = .ok r := by
  intro fuel
  -- induction on the fuel, the start of the scan generalized
  induction fuel with
  | zero =>
    rintro b₀ hf ⟨b, hb₀, hb, -⟩
    omega
  | succ fuel ih =>
    rintro b₀ hf ⟨b, hb₀, hb, hfree⟩
    rw [ballocLoop, if_pos (by omega)]
    by_cases h : D.used b₀ = false
    · rw [if_pos h]
      exact ⟨_, rfl⟩
    · rw [if_neg h]
      have hne : b ≠ b₀ := fun heq => h (heq ▸ hfree)
      exact ih (b₀ + 1) (by omega) ⟨b, by omega, hb, hfree⟩

/-- **`balloc` with a free block** returns, and takes one free block. -/
theorem balloc_total (D : FsImage) (h : 0 < D.freeBlocks) :
    Run.Post (fun _ => False) (fun r : FsImage × Nat => Spent D r.1 1) D.balloc := by
  obtain ⟨b, hb⟩ := Finset.card_pos.mp h
  rw [Finset.mem_filter, Finset.mem_range] at hb
  obtain ⟨r, hr⟩ := D.ballocLoop_returns D.sb.size 0 (by omega) ⟨b, Nat.zero_le _, hb.1, hb.2⟩
  obtain ⟨hlt, hfree, hD⟩ := D.balloc_post.of_ok hr
  have hbal : D.balloc = .ok r := hr
  rw [hbal]
  refine ⟨by rw [hD]; rfl, ?_⟩
  rw [hD, ← D.freeBlocks_alloc hlt hfree]

/-- **`bmap` with two free blocks** returns, taking at most the two blocks a missing
indirect block and its entry need. -/
theorem bmap_total (D : FsImage) (ip : Dinode) {bn : Nat} (hbn : bn < maxfile) (h : 2 ≤ D.freeBlocks) :
    Run.Post (fun _ => False) (fun r : FsImage × Dinode × Nat => Spent D r.1 2) (D.bmap ip bn) := by
  unfold bmap
  by_cases hd : bn < ndirect
  · rw [if_pos hd]
    by_cases h0 : ip.addrs bn = 0
    · -- a direct block without one takes a block
      rw [if_pos h0]
      refine Run.Post.bind (D.balloc_total (by omega)) ?_
      rintro ⟨D₁, b⟩ hsp
      exact hsp.mono (by omega)
    · rw [if_neg h0]
      exact (Spent.refl D).mono (Nat.zero_le _)
  · have hind : bn - ndirect < nindirect := by
      unfold maxfile at hbn
      omega
    rw [if_neg hd, if_pos hind]
    -- the entry of the indirect block, from a disk that took at most one block so far
    have hentry : ∀ x : FsImage × Dinode, Spent D x.1 1 →
        Run.Post (fun _ => False) (fun r : FsImage × Dinode × Nat => Spent D r.1 2)
          (if x.1.entry (x.2.addrs ndirect) (bn - ndirect) = 0 then do
              let r ← x.1.balloc
              pure (r.1.setEntry (x.2.addrs ndirect) (bn - ndirect) r.2, x.2, r.2)
            else pure (x.1, x.2, x.1.entry (x.2.addrs ndirect) (bn - ndirect))) := by
      rintro ⟨D₁, ip₁⟩ hsp
      dsimp only at hsp ⊢
      by_cases he : D₁.entry (ip₁.addrs ndirect) (bn - ndirect) = 0
      · rw [if_pos he]
        refine Run.Post.bind (D₁.balloc_total (by have := hsp.free; omega)) ?_
        rintro ⟨D₂, b⟩ hsp₂
        exact hsp.trans (hsp₂.trans (Spent.writeData _ _ _ _ _))
      · rw [if_neg he]
        exact hsp.mono (by omega)
    dsimp only
    by_cases h0 : ip.addrs ndirect = 0
    · -- first the indirect block, which takes a block
      rw [if_pos h0]
      refine Run.Post.bind (D.balloc_total (by omega)) ?_
      rintro ⟨D₁, c⟩ hsp
      rw [pure_bind]
      exact hentry (_, _) hsp
    · rw [if_neg h0, pure_bind]
      exact hentry (D, ip) ((Spent.refl D).mono (Nat.zero_le _))

/-! ## The copy loops with free blocks -/

section Content

variable (devsw : Nat → Option Devsw)

/-- The copy loop of `writei` with two free blocks for each pass of its fuel returns,
taking at most those. -/
theorem writeiLoop_total (src : Nat → UInt8) (n fuel : Nat) :
    ∀ (D : FsImage) (ip : Dinode) (tot off : Nat), 2 * fuel ≤ D.freeBlocks →
      off + (n - tot) ≤ maxfile * bsize →
      Run.Post (fun _ => False) (fun r : FsImage × Dinode × Nat => Spent D r.1 (2 * fuel))
        (writeiLoop src n fuel D ip tot off) := by
  -- induction on the fuel; each pass takes at most two blocks
  induction fuel with
  | zero =>
    intro D ip tot off _ _
    exact Spent.refl D
  | succ fuel ih =>
    intro D ip tot off hfree hbound
    rw [writeiLoop]
    by_cases ht : tot < n
    · rw [if_pos ht]
      have hm := chunk_bounds off ht
      have hbn : off / bsize < maxfile := block_lt_maxfile (show off < off + (n - tot) by omega) hbound
      refine Run.Post.bind (D.bmap_total ip hbn (by omega)) ?_
      rintro ⟨D₁, ip₁, a⟩ hsp
      dsimp only at hsp ⊢
      have hsp₂ := hsp.trans (Spent.writeData D₁ a (off % bsize) (min (n - tot) (bsize - off % bsize))
        fun i => src (tot + i))
      refine (ih _ ip₁ _ _ (by have := hsp₂.free; omega) (by omega)).mono fun r hr => ?_
      exact (hsp₂.trans hr).mono (by omega)
    · rw [if_neg ht]
      exact (Spent.refl D).mono (Nat.zero_le _)

/-- **`writei` with enough free blocks returns**: with `2 * (n / BSIZE + 2)` free blocks,
two for each pass of its loop, `writei` of `n` bytes never fails, on any inode. -/
theorem writei_total (D : FsImage) (inum : Nat) (ip : Dinode) (src : Nat → UInt8) (off n : Nat)
    (h : 2 * (n / bsize + 2) ≤ D.freeBlocks) :
    Run.Post (fun _ => False) (fun r : FsImage × Dinode × Int => Spent D r.1 (2 * (n / bsize + 2)))
      (D.writei devsw inum ip src off n) := by
  unfold writei
  by_cases hty : ip.type = .dev
  · -- a device takes no block
    rw [if_pos hty]
    split <;> exact (Spent.refl D).mono (Nat.zero_le _)
  rw [if_neg hty]
  by_cases hg : ip.size < off ∨ (off + n) % uintMod < off
  · rw [if_pos hg]
    exact (Spent.refl D).mono (Nat.zero_le _)
  rw [if_neg hg]
  by_cases hmax : maxfile * bsize < off + n
  · rw [if_pos hmax]
    exact (Spent.refl D).mono (Nat.zero_le _)
  rw [if_neg hmax]
  refine Run.Post.bind (writeiLoop_total src n _ D ip 0 off h (by omega)) ?_
  rintro ⟨D₁, ip₁, off₁⟩ hsp
  dsimp only at hsp ⊢
  -- the write-back of a grown inode takes no block
  split
  · exact hsp.trans (Spent.iupdate _ _ _)
  · exact hsp

/-- The copy loop of `readi` with two free blocks for each pass of its fuel returns,
taking at most those. -/
theorem readiLoop_total (n fuel : Nat) :
    ∀ (D : FsImage) (ip : Dinode) (dst : Nat → UInt8) (tot off : Nat), 2 * fuel ≤ D.freeBlocks →
      off + (n - tot) ≤ maxfile * bsize →
      Run.Post (fun _ => False) (fun r : FsImage × Dinode × (Nat → UInt8) => Spent D r.1 (2 * fuel))
        (readiLoop n fuel D ip dst tot off) := by
  -- induction on the fuel; each pass takes at most two blocks
  induction fuel with
  | zero =>
    intro D ip dst tot off _ _
    exact Spent.refl D
  | succ fuel ih =>
    intro D ip dst tot off hfree hbound
    rw [readiLoop]
    by_cases ht : tot < n
    · rw [if_pos ht]
      have hm := chunk_bounds off ht
      have hbn : off / bsize < maxfile := block_lt_maxfile (show off < off + (n - tot) by omega) hbound
      refine Run.Post.bind (D.bmap_total ip hbn (by omega)) ?_
      rintro ⟨D₁, ip₁, a⟩ hsp
      dsimp only at hsp ⊢
      refine (ih _ ip₁ _ _ _ (by have := hsp.free; omega) (by omega)).mono fun r hr => ?_
      exact (hsp.trans hr).mono (by omega)
    · rw [if_neg ht]
      exact (Spent.refl D).mono (Nat.zero_le _)

/-- **`readi` with enough free blocks returns**: on an inode of at most `MAXFILE * BSIZE`
bytes with `2 * (n / BSIZE + 2)` free blocks, `readi` of `n` bytes never fails. -/
theorem readi_total (D : FsImage) (ip : Dinode) (dst : Nat → UInt8) (off n : Nat)
    (hsize : ip.size ≤ maxfile * bsize) (h : 2 * (n / bsize + 2) ≤ D.freeBlocks) :
    Run.Post (fun _ => False) (fun r : FsImage × Dinode × Int × (Nat → UInt8) => Spent D r.1 (2 * (n / bsize + 2)))
      (D.readi devsw ip dst off n) := by
  unfold readi
  by_cases hty : ip.type = .dev
  · -- a device takes no block
    rw [if_pos hty]
    split <;> exact (Spent.refl D).mono (Nat.zero_le _)
  rw [if_neg hty]
  by_cases hg : ip.size < off ∨ (off + n) % uintMod < off
  · rw [if_pos hg]
    exact (Spent.refl D).mono (Nat.zero_le _)
  rw [if_neg hg]
  -- the count is clamped to the size, so the loop takes no more than the count allows
  have hcount : (if ip.size < off + n then ip.size - off else n) ≤ n := by split <;> omega
  have hdiv := Nat.div_le_div_right (c := bsize) hcount
  dsimp only
  refine Run.Post.bind (readiLoop_total _ _ D ip dst 0 off (by omega) (by split <;> omega)) ?_
  rintro ⟨D₁, ip₁, dst₁⟩ hsp
  exact hsp.mono (by omega)

/-- **`readi` reads back what `writei` wrote.**  On a well-formed file or directory,
`writei` of `n` bytes of `src` at an offset within the file, ending within
`MAXFILE * BSIZE`, returns `n` and grows the file to `max(size, off + n)`; after it, every
`readi` within the file returns the bytes of `src` where it overlaps the write and the
bytes the inode held before everywhere else.  Each call fails only when `balloc` runs out
of blocks, on a disk with fewer free blocks than two for each pass of its loop. -/
theorem readi_after_writei {D : FsImage} (inum : Nat) {ip : Dinode} (src : Nat → UInt8) {off n : Nat}
    (hty : ip.type ≠ .dev) (h : InodeWf D ip) (hoff : off ≤ ip.size) (hn : off + n ≤ maxfile * bsize) :
    Run.Post (D.OutOfBlocks (2 * (n / bsize + 2)))
      (fun r : FsImage × Dinode × Int => r.2.2 = n ∧ r.2.1.size = max ip.size (off + n) ∧
        ∀ (dst : Nat → UInt8) (off' n' : Nat), off' ≤ r.2.1.size → off' + n' < uintMod →
          Run.Post (r.1.OutOfBlocks (2 * (n' / bsize + 2)))
            (fun q : FsImage × Dinode × Int × (Nat → UInt8) =>
              q.2.2.1 = ((min n' (r.2.1.size - off') : Nat) : Int) ∧
              ∀ i, i < min n' (r.2.1.size - off') → q.2.2.2 i =
                if off ≤ off' + i ∧ off' + i < off + n then src (off' + i - off) else D.fileByte ip (off' + i))
            (r.1.readi devsw r.2.1 dst off' n'))
      (D.writei devsw inum ip src off n) := by
  refine post_outOfBlocks ((writei_post devsw inum src hty h hoff hn).mono ?_)
    fun hk => writei_total devsw D inum ip src off n hk
  rintro ⟨D₁, ip₁, r⟩ ⟨hr, hwf, hsize, htype, hcont⟩
  refine ⟨hr, hsize, fun dst off' n' hoff' hn' => ?_⟩
  dsimp only at hwf hsize htype hcont hoff' ⊢
  refine post_outOfBlocks ((readi_post devsw dst (by rw [htype]; exact hty) hwf hoff' hn').mono ?_)
    fun hk => readi_total devsw D₁ ip₁ dst off' n' hwf.size_le hk
  rintro ⟨D₂, ip₂, r', dst'⟩ ⟨-, hr', hdst'⟩
  refine ⟨hr', fun i hi => ?_⟩
  dsimp only at hdst' ⊢
  rw [hdst', overlay_of_mem _ (Nat.zero_le i) (by omega), Nat.sub_zero,
    hcont _ (by have := hwf.size_le; omega)]

end Content

/-- Three bytes written into an empty file on a blank disk of 63 free blocks, then read
back. -/
theorem readi_after_writei_blank :
    blankFile.type ≠ .dev ∧ InodeWf blankDisk blankFile ∧ 0 ≤ blankFile.size ∧ 0 + 3 ≤ maxfile * bsize ∧
    2 * (3 / bsize + 2) ≤ blankDisk.freeBlocks ∧
    Run.Post (blankDisk.OutOfBlocks (2 * (3 / bsize + 2)))
      (fun r : FsImage × Dinode × Int => r.2.2 = 3 ∧ r.2.1.size = max blankFile.size (0 + 3) ∧
        ∀ (dst : Nat → UInt8) (off' n' : Nat), off' ≤ r.2.1.size → off' + n' < uintMod →
          Run.Post (r.1.OutOfBlocks (2 * (n' / bsize + 2)))
            (fun q : FsImage × Dinode × Int × (Nat → UInt8) =>
              q.2.2.1 = ((min n' (r.2.1.size - off') : Nat) : Int) ∧
              ∀ i, i < min n' (r.2.1.size - off') → q.2.2.2 i =
                if 0 ≤ off' + i ∧ off' + i < 0 + 3 then (fun j : Nat => j.toUInt8) (off' + i - 0)
                else blankDisk.fileByte blankFile (off' + i))
            (r.1.readi (fun _ => none) r.2.1 dst off' n'))
      (blankDisk.writei (fun _ => none) 2 blankFile (fun j => j.toUInt8) 0 3) :=
  have hwf : InodeWf blankDisk blankFile := InodeWf.of_addrs_zero rfl (by decide) (fun _ => rfl) (by decide)
  ⟨by decide, hwf, Nat.zero_le _, by decide, by decide,
    readi_after_writei (fun _ => none) 2 (fun j => j.toUInt8) (by decide) hwf (Nat.zero_le _) (by decide)⟩

/-! ## The bound of inode I/O -/

/-- INTERNAL: an error of a call that fails only with `balloc`'s panic, and cannot fail
with `k` free blocks, is a failure with fewer free. -/
theorem outOfBlocks_of_error {α : Type} {x : Except String α} {Q : α → Prop} {D : FsImage} {k : Nat}
    {e : String} (hE : e = "balloc: out of blocks") (ht : k ≤ D.freeBlocks → Run.Post (fun _ => False) Q x)
    (he : x = .error e) : D.OutOfBlocks k e :=
  ⟨hE, Nat.lt_of_not_le fun hk => by
    have := ht hk
    rw [he] at this
    exact this⟩

section Io

variable (devsw : Nat → Option Devsw) (D : FsImage) (inum : Nat) (ip : Dinode) (dst src : Nat → UInt8)
  (off n : Nat)

/-- What `readi` and `writei` do on a file or a directory: the failures the guards give,
the only other failure, `balloc` running out of blocks, and otherwise the count, the bytes
reached and the size. -/
structure IoBound : Prop where
  /-- `readi` returns `-1` when `off > size` or `off + n` wraps. -/
  readFail : ip.size < off ∨ uintMod ≤ off + n → D.readi devsw ip dst off n = .ok (D, ip, -1, dst)
  /-- Otherwise it fails only when `balloc` runs out of blocks, with fewer than
  `2 * (n / BSIZE + 2)` free. -/
  readError : ¬(ip.size < off ∨ uintMod ≤ off + n) →
    ∀ e, D.readi devsw ip dst off n = .error e → D.OutOfBlocks (2 * (n / bsize + 2)) e
  /-- It returns `min(n, size - off)`, keeps the size and writes `dst` below that count only. -/
  readCount : ¬(ip.size < off ∨ uintMod ≤ off + n) → ∀ D' ip' r dst',
    D.readi devsw ip dst off n = .ok (D', ip', r, dst') →
      r = ((min n (ip.size - off) : Nat) : Int) ∧ ip'.size = ip.size ∧ ∀ j, min n (ip.size - off) ≤ j → dst' j = dst j
  /-- On an inode whose blocks are its own, the bytes copied are the file's from `off` on,
  a hole reading as zeros, and the file keeps what it holds. -/
  readBytes : InodeWf D ip → ¬(ip.size < off ∨ uintMod ≤ off + n) → ∀ D' ip' r dst',
    D.readi devsw ip dst off n = .ok (D', ip', r, dst') →
      Keeps D ip D' ip' ∧ dst' = overlay dst 0 (min n (ip.size - off)) fun i => D.fileByte ip (off + i)
  /-- When the blocks of the range have addresses, it allocates nothing. -/
  readMapped : ¬(ip.size < off ∨ uintMod ≤ off + n) →
    (∀ k, off ≤ k → k < off + min n (ip.size - off) → D.blockAddr ip (k / bsize) ≠ 0) →
      D.readi devsw ip dst off n = .ok (D, ip, ((min n (ip.size - off) : Nat) : Int),
        overlay dst 0 (min n (ip.size - off)) fun i => D.fileByte ip (off + i))
  /-- `writei` returns `-1` when `off > size`, `off + n` wraps or passes `MAXFILE * BSIZE`. -/
  writeFail : ip.size < off ∨ uintMod ≤ off + n ∨ maxfile * bsize < off + n →
    D.writei devsw inum ip src off n = .ok (D, ip, -1)
  /-- Otherwise it fails only when `balloc` runs out of blocks, with fewer than
  `2 * (n / BSIZE + 2)` free. -/
  writeError : ¬(ip.size < off ∨ uintMod ≤ off + n ∨ maxfile * bsize < off + n) →
    ∀ e, D.writei devsw inum ip src off n = .error e → D.OutOfBlocks (2 * (n / bsize + 2)) e
  /-- It returns `n` and leaves the size `max(size, off + n)`, within the bound. -/
  writeCount : ¬(ip.size < off ∨ uintMod ≤ off + n ∨ maxfile * bsize < off + n) → ∀ D' ip' r,
    D.writei devsw inum ip src off n = .ok (D', ip', r) →
      r = (n : Int) ∧ ip'.size = max ip.size (off + n) ∧ ip'.size ≤ maxfile * bsize
  /-- On an inode whose blocks are its own, the file then holds the bytes of `src` from
  `off` to `off + n` and what it held before everywhere else, its blocks still its own. -/
  writeBytes : InodeWf D ip → ¬(ip.size < off ∨ uintMod ≤ off + n ∨ maxfile * bsize < off + n) →
    ∀ D' ip' r, D.writei devsw inum ip src off n = .ok (D', ip', r) →
      InodeWf D' ip' ∧ ∀ o, o < maxfile * bsize →
        D'.fileByte ip' o = if off ≤ o ∧ o < off + n then src (o - off) else D.fileByte ip o

end Io

/-- **`readi` and `writei` respect the file-size bound.**  On a file or a directory of
at most `MAXFILE * BSIZE` bytes, for every `uint` offset and count. -/
theorem inode_io_respects_size_bound (devsw : Nat → Option Devsw) (D : FsImage) (inum : Nat)
    {ip : Dinode} (hty : ip.type ≠ .dev) (hsize : ip.size ≤ maxfile * bsize) (dst src : Nat → UInt8)
    {off n : Nat} (hoff : off < uintMod) (hn : n < uintMod) :
    IoBound devsw D inum ip dst src off n where
  readFail := readi_of_guard devsw D dst hty hoff hn
  readError hok e he := outOfBlocks_of_error (readi_error_of_inRange devsw D dst hty hsize hoff hn hok e he)
    (readi_total devsw D ip dst off n hsize) he
  readCount := readi_count_of_inRange devsw D dst hty hoff hn
  readBytes hwf hok _ _ _ _ h := by
    obtain ⟨hk, -, hdst⟩ := (readi_post devsw dst hty hwf (by omega) (by omega)).of_ok h
    exact ⟨hk, hdst⟩
  readMapped := readi_bytes_of_inRange devsw D dst hty hsize hoff hn
  writeFail := writei_of_guard devsw D inum src hty hoff hn
  writeError hok e he := outOfBlocks_of_error (writei_error_of_inRange devsw D inum src hty hoff hn hok e he)
    (writei_total devsw D inum ip src off n) he
  writeCount := writei_count_of_inRange devsw D inum src hty hsize hoff hn
  writeBytes hwf hok _ _ _ h := by
    obtain ⟨-, hwf', -, -, hcont⟩ := (writei_post devsw inum src hty hwf (by omega) (by omega)).of_ok h
    exact ⟨hwf', hcont⟩

/-- A regular file of one block's size with no blocks yet: a hole. -/
def holeFile : Dinode := ⟨.file, 0, 0, 1, bsize, fun _ => 0⟩

/-- The bound for sixteen bytes at the start of that file, all in the hole, on the blank
disk. -/
theorem inode_io_hole_file :
    holeFile.type ≠ .dev ∧ holeFile.size ≤ maxfile * bsize ∧ (0 : Nat) < uintMod ∧ (16 : Nat) < uintMod ∧
      IoBound consoleDevsw blankDisk 2 holeFile (fun _ => 0) (fun i => i.toUInt8) 0 16 :=
  ⟨by decide, by decide, by rw [uintMod_eq]; decide, by rw [uintMod_eq]; decide,
    inode_io_respects_size_bound consoleDevsw blankDisk 2 (by decide) (by decide)
      (fun _ => 0) (fun i => i.toUInt8) (by rw [uintMod_eq]; decide) (by rw [uintMod_eq]; decide)⟩

end FsImage

end Xv6
