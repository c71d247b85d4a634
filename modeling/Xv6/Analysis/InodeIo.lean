import Xv6.Analysis.Fs

/-!
# `readi` and `writei` stay inside the file-size bound

On a file or a directory of at most `MAXFILE * BSIZE` bytes, every block `readi` and
`writei` hand to `bmap` lies before the offset `off + n` their guards allow, so below
`MAXFILE = NDIRECT + NINDIRECT`: the only way either can fail is `balloc` running out of
blocks (`bmap_error`, `readiLoop_error`, `writeiLoop_error`), never `bmap: out of range`.

The copy loops take `min(n - tot, BSIZE - off % BSIZE)` bytes a pass (`chunk_bounds`), and
`n / BSIZE + 2` passes are enough for `n` bytes from any offset (`chunk_fuel`): `readi`
returns `min(n, size - off)` and writes nothing past it (`readiLoop_ok`), and reads the
file's bytes when the blocks of the range have addresses (`readiLoop_present`); `writei`
reaches `off + n` and leaves the size `max(size, off + n)` (`writeiLoop_ok`).

A device inode takes neither guard: `readi` and `writei` pass it to `devsw` whatever the
offset (`readi_device_past_size`).  The bound as one statement, with the bytes read and
written and the free blocks the calls need, is `inode_io_respects_size_bound`
(`Analysis/FreeBlocks`).
-/

set_option autoImplicit false

namespace Xv6

open Window

namespace FsImage

/-! ## Allocation fails only when the disk is full -/

theorem ballocLoop_error (D : FsImage) {e : String} (fuel : Nat) :
    ∀ b, D.ballocLoop fuel b = .error e → e = "balloc: out of blocks" := by
  induction fuel with
  | zero =>
      intro b h
      cases h
      rfl
  | succ fuel ih =>
      intro b h
      rw [ballocLoop] at h
      by_cases hb : b < D.sb.size
      · rw [if_pos hb] at h
        by_cases hfree : D.used b = false
        · rw [if_pos hfree] at h
          cases h
        · rw [if_neg hfree] at h
          exact ih (b + 1) h
      · rw [if_neg hb] at h
        cases h
        rfl

/-- INTERNAL: a `balloc` whose block is then put to use fails only as `balloc` does. -/
theorem balloc_bind_error (D : FsImage) {β : Type} {f : FsImage × Nat → Except String β} {e : String}
    (hf : ∀ a, f a ≠ .error e) (h : (D.balloc >>= f) = .error e) : e = "balloc: out of blocks" := by
  rcases Run.bind_eq_error h with h | ⟨a, -, h⟩
  · exact D.ballocLoop_error _ 0 h
  · exact absurd h (hf a)

/-- `bmap` of a block below `MAXFILE` fails only when `balloc` does. -/
theorem bmap_error (D : FsImage) (ip : Dinode) {bn : Nat} {e : String} (hbn : bn < maxfile)
    (h : D.bmap ip bn = .error e) : e = "balloc: out of blocks" := by
  unfold bmap at h
  by_cases hd : bn < ndirect
  · rw [if_pos hd] at h
    by_cases h0 : ip.addrs bn = 0
    · rw [if_pos h0] at h
      exact D.balloc_bind_error (fun _ h => by cases h) h
    · rw [if_neg h0] at h
      cases h
  · have hind : bn - ndirect < nindirect := by
      unfold maxfile at hbn
      omega
    rw [if_neg hd, if_pos hind] at h
    dsimp only at h
    -- the indirect block, allocated when missing, then its entry
    split at h
    · rcases Run.bind_eq_error h with h | ⟨⟨D₁, a⟩, -, h⟩
      · exact D.ballocLoop_error _ 0 h
      · simp only [pure_bind] at h
        split at h
        · exact FsImage.balloc_bind_error _ (fun _ h => by cases h) h
        · cases h
    · simp only [pure_bind] at h
      split at h
      · exact D.balloc_bind_error (fun _ h => by cases h) h
      · cases h

/-- `bmap` changes only the addresses of the cached inode. -/
theorem bmap_ok (D : FsImage) (ip : Dinode) {bn : Nat} {D' : FsImage} {ip' : Dinode} {a : Nat}
    (h : D.bmap ip bn = .ok (D', ip', a)) : ip'.size = ip.size ∧ ip'.type = ip.type := by
  unfold bmap at h
  by_cases hd : bn < ndirect
  · rw [if_pos hd] at h
    by_cases h0 : ip.addrs bn = 0
    · rw [if_pos h0] at h
      obtain ⟨⟨D₁, addr⟩, -, h⟩ := Run.bind_eq_ok h
      cases h
      simp
    · rw [if_neg h0] at h
      cases h
      simp
  by_cases hind : bn - ndirect < nindirect
  · rw [if_neg hd, if_pos hind] at h
    dsimp only at h
    -- the indirect block, allocated when missing, then its entry; the do block puts the
    -- entry's step in both branches
    split at h
    · obtain ⟨⟨D₁, addr⟩, -, h⟩ := Run.bind_eq_ok h
      simp only [pure_bind] at h
      split at h
      · obtain ⟨⟨D₂, addr₂⟩, -, h⟩ := Run.bind_eq_ok h
        cases h
        simp
      · cases h
        simp
    · simp only [pure_bind] at h
      split at h
      · obtain ⟨⟨D₂, addr₂⟩, -, h⟩ := Run.bind_eq_ok h
        cases h
        simp
      · cases h
        simp
  · rw [if_neg hd, if_neg hind] at h
    cases h

/-- The address of block `bn` of the inode `ip`, as `fileByte` finds it: `0` for a block
without one. -/
def blockAddr (D : FsImage) (ip : Dinode) (bn : Nat) : Nat :=
  if bn < ndirect then ip.addrs bn
  else if ip.addrs ndirect = 0 then 0 else D.entry (ip.addrs ndirect) (bn - ndirect)

theorem fileByte_eq (D : FsImage) (ip : Dinode) (o : Nat) :
    D.fileByte ip o =
      if D.blockAddr ip (o / bsize) = 0 then 0 else D.data (D.blockAddr ip (o / bsize)) (o % bsize) :=
  rfl

/-- `bmap` of a block that has an address allocates nothing. -/
theorem bmap_of_blockAddr (D : FsImage) (ip : Dinode) {bn : Nat} (hbn : bn < maxfile)
    (h : D.blockAddr ip bn ≠ 0) : D.bmap ip bn = .ok (D, ip, D.blockAddr ip bn) := by
  unfold blockAddr at h ⊢
  by_cases hd : bn < ndirect
  · rw [if_pos hd] at h ⊢
    exact D.bmap_direct_present ip hd h
  have hind : bn - ndirect < nindirect := by
    unfold maxfile at hbn
    omega
  rw [if_neg hd] at h ⊢
  have h0 : ip.addrs ndirect ≠ 0 := fun h0 => h (if_pos h0)
  rw [if_neg h0] at h ⊢
  unfold bmap
  rw [if_neg hd, if_pos hind]
  simp only [if_neg h0, pure_bind, if_neg h]
  rfl

/-! ## The copy loops -/

/-- INTERNAL: a pass takes at least one byte, at most what is left, and nothing past the
block of `off`. -/
theorem chunk_bounds {n tot : Nat} (off : Nat) (h : tot < n) :
    0 < min (n - tot) (bsize - off % bsize) ∧ min (n - tot) (bsize - off % bsize) ≤ n - tot ∧
      off % bsize + min (n - tot) (bsize - off % bsize) ≤ bsize := by
  unfold bsize
  omega

/-- INTERNAL: a pass either ends the copy or ends at a block boundary, spending one block of
the room the fuel gives. -/
theorem chunk_fuel {n tot off fuel : Nat} (h : tot < n) (hf : n - tot + off % bsize ≤ (fuel + 1) * bsize) :
    tot + min (n - tot) (bsize - off % bsize) < n →
      n - (tot + min (n - tot) (bsize - off % bsize)) + (off + min (n - tot) (bsize - off % bsize)) % bsize ≤
        fuel * bsize := by
  unfold bsize at *
  omega

/-- INTERNAL: the fuel `readi` and `writei` give is enough for `n` bytes from any offset. -/
theorem copy_fuel (n off : Nat) : 0 < n → n - 0 + off % bsize ≤ (n / bsize + 2) * bsize := by
  unfold bsize
  omega

/-- INTERNAL: a byte of the block at `off`, read in the pass at `off`, is the file's byte. -/
theorem fileByte_in_pass (D : FsImage) (ip : Dinode) {off i : Nat} (hi : off % bsize + i < bsize)
    (h : D.blockAddr ip (off / bsize) ≠ 0) :
    D.data (D.blockAddr ip (off / bsize)) (off % bsize + i) = D.fileByte ip (off + i) := by
  have hdiv : (off + i) / bsize = off / bsize := by
    unfold bsize at *
    omega
  have hmod : (off + i) % bsize = off % bsize + i := by
    unfold bsize at *
    omega
  rw [fileByte_eq, hdiv, hmod, if_neg h]

section Loops

variable {n : Nat}

/-- The copy loop of `readi` fails only when `balloc` does, when its bytes lie below
`MAXFILE` blocks. -/
theorem readiLoop_error {e : String} (fuel : Nat) :
    ∀ (D : FsImage) (ip : Dinode) (dst : Nat → UInt8) (tot off : Nat),
      (∀ k, off ≤ k → k < off + (n - tot) → k / bsize < maxfile) →
      readiLoop n fuel D ip dst tot off = .error e → e = "balloc: out of blocks" := by
  induction fuel with
  | zero =>
      intro D ip dst tot off _ h
      cases h
  | succ fuel ih =>
      intro D ip dst tot off hin h
      rw [readiLoop] at h
      by_cases ht : tot < n
      · rw [if_pos ht] at h
        rcases Run.bind_eq_error h with h | ⟨⟨D₁, ip₁, a⟩, -, h⟩
        · exact D.bmap_error ip (hin off le_rfl (by omega)) h
        · have hm := chunk_bounds off ht
          dsimp only at h
          exact ih D₁ ip₁ _ _ _ (fun k hk₁ hk₂ => hin k (by omega) (by omega)) h
      · rw [if_neg ht] at h
        cases h

/-- The copy loop of `readi` keeps the inode's size and type and writes `dst` only
between `tot` and `n`. -/
theorem readiLoop_ok (fuel : Nat) :
    ∀ (D : FsImage) (ip : Dinode) (dst : Nat → UInt8) (tot off : Nat) (D' : FsImage) (ip' : Dinode)
      (dst' : Nat → UInt8), readiLoop n fuel D ip dst tot off = .ok (D', ip', dst') →
      ip'.size = ip.size ∧ ip'.type = ip.type ∧ ∀ j, j < tot ∨ n ≤ j → dst' j = dst j := by
  induction fuel with
  | zero =>
      intro D ip dst tot off D' ip' dst' h
      cases h
      exact ⟨rfl, rfl, fun _ _ => rfl⟩
  | succ fuel ih =>
      intro D ip dst tot off D' ip' dst' h
      rw [readiLoop] at h
      by_cases ht : tot < n
      · rw [if_pos ht] at h
        obtain ⟨⟨D₁, ip₁, a⟩, hb, h⟩ := Run.bind_eq_ok h
        have hm := chunk_bounds off ht
        dsimp only at h
        obtain ⟨hsize, htype, hdst⟩ := ih D₁ ip₁ _ _ _ D' ip' dst' h
        have hb' := D.bmap_ok ip hb
        refine ⟨hsize.trans hb'.1, htype.trans hb'.2, fun j hj => ?_⟩
        rw [hdst j (by omega), overlay_of_not_mem _ (by omega)]
      · rw [if_neg ht] at h
        cases h
        exact ⟨rfl, rfl, fun _ _ => rfl⟩

/-- The copy loop of `readi` over blocks that all have addresses reads the file's bytes
and allocates nothing. -/
theorem readiLoop_present (D : FsImage) (ip : Dinode) (fuel : Nat) :
    ∀ (dst : Nat → UInt8) (tot off : Nat), tot ≤ n → (tot < n → n - tot + off % bsize ≤ fuel * bsize) →
      (∀ k, off ≤ k → k < off + (n - tot) → k / bsize < maxfile ∧ D.blockAddr ip (k / bsize) ≠ 0) →
      readiLoop n fuel D ip dst tot off = .ok (D, ip, overlay dst tot (n - tot) fun i => D.fileByte ip (off + i)) := by
  induction fuel with
  | zero =>
      intro dst tot off htot hf _
      have hn : n - tot = 0 := by
        by_contra hne
        have := hf (by omega)
        omega
      rw [hn, overlay_zero]
      rfl
  | succ fuel ih =>
      intro dst tot off htot hf hin
      by_cases ht : tot < n
      · obtain ⟨hbn, haddr⟩ := hin off le_rfl (by omega)
        have hm := chunk_bounds off ht
        rw [readiLoop, if_pos ht, D.bmap_of_blockAddr ip hbn haddr, Run.ok_bind]
        dsimp only
        rw [ih _ _ _ (by omega) (chunk_fuel ht (hf ht)) (fun k hk₁ hk₂ => hin k (by omega) (by omega))]
        -- the pass reads the file's bytes, and the passes after it the rest of the window
        have hpass : (overlay dst tot (min (n - tot) (bsize - off % bsize)) fun i =>
            D.data (D.blockAddr ip (off / bsize)) (off % bsize + i)) =
            overlay dst tot (min (n - tot) (bsize - off % bsize)) fun i => D.fileByte ip (off + i) :=
          overlay_congr _ _ _ fun i hi => D.fileByte_in_pass ip (by omega) haddr
        have hrest : (fun i => D.fileByte ip (off + min (n - tot) (bsize - off % bsize) + i)) =
            fun i => D.fileByte ip (off + (min (n - tot) (bsize - off % bsize) + i)) := by
          funext i
          rw [Nat.add_assoc]
        rw [hpass, hrest, overlay_append, show min (n - tot) (bsize - off % bsize) +
          (n - (tot + min (n - tot) (bsize - off % bsize))) = n - tot by omega]
      · rw [readiLoop, if_neg ht, show n - tot = 0 by omega, overlay_zero]
        rfl

/-- The copy loop of `writei` fails only when `balloc` does, when its bytes lie below
`MAXFILE` blocks. -/
theorem writeiLoop_error (src : Nat → UInt8) {e : String} (fuel : Nat) :
    ∀ (D : FsImage) (ip : Dinode) (tot off : Nat),
      (∀ k, off ≤ k → k < off + (n - tot) → k / bsize < maxfile) →
      writeiLoop src n fuel D ip tot off = .error e → e = "balloc: out of blocks" := by
  induction fuel with
  | zero =>
      intro D ip tot off _ h
      cases h
  | succ fuel ih =>
      intro D ip tot off hin h
      rw [writeiLoop] at h
      by_cases ht : tot < n
      · rw [if_pos ht] at h
        rcases Run.bind_eq_error h with h | ⟨⟨D₁, ip₁, a⟩, -, h⟩
        · exact D.bmap_error ip (hin off le_rfl (by omega)) h
        · have hm := chunk_bounds off ht
          dsimp only at h
          exact ih _ ip₁ _ _ (fun k hk₁ hk₂ => hin k (by omega) (by omega)) h
      · rw [if_neg ht] at h
        cases h

/-- The copy loop of `writei` keeps the inode's size and type, and with fuel enough it
ends at the offset past its `n` bytes. -/
theorem writeiLoop_ok (src : Nat → UInt8) (fuel : Nat) :
    ∀ (D : FsImage) (ip : Dinode) (tot off : Nat) (D' : FsImage) (ip' : Dinode) (off' : Nat),
      writeiLoop src n fuel D ip tot off = .ok (D', ip', off') →
      ip'.size = ip.size ∧ ip'.type = ip.type ∧
        (tot ≤ n → (tot < n → n - tot + off % bsize ≤ fuel * bsize) → off' = off + (n - tot)) := by
  induction fuel with
  | zero =>
      intro D ip tot off D' ip' off' h
      cases h
      refine ⟨rfl, rfl, fun htot hf => ?_⟩
      -- no fuel: nothing was left to write
      have hn : n - tot = 0 := by
        by_contra hne
        have := hf (by omega)
        omega
      omega
  | succ fuel ih =>
      intro D ip tot off D' ip' off' h
      rw [writeiLoop] at h
      by_cases ht : tot < n
      · rw [if_pos ht] at h
        obtain ⟨⟨D₁, ip₁, a⟩, hb, h⟩ := Run.bind_eq_ok h
        have hm := chunk_bounds off ht
        dsimp only at h
        obtain ⟨hsize, htype, hoff⟩ := ih _ ip₁ _ _ D' ip' off' h
        have hb' := D.bmap_ok ip hb
        refine ⟨hsize.trans hb'.1, htype.trans hb'.2, fun htot hf => ?_⟩
        have := hoff (by omega) (chunk_fuel ht (hf ht))
        omega
      · rw [if_neg ht] at h
        cases h
        exact ⟨rfl, rfl, fun htot _ => by omega⟩

end Loops

/-! ## `readi` and `writei` -/

/-- INTERNAL: `off + n` wraps as a `uint` exactly when it reaches `2^32`. -/
theorem wrap_iff {off n : Nat} (hoff : off < uintMod) (hn : n < uintMod) :
    (off + n) % uintMod < off ↔ uintMod ≤ off + n := by
  constructor
  · intro h
    by_contra hlt
    rw [Nat.mod_eq_of_lt (by omega)] at h
    omega
  · intro h
    rw [Nat.mod_eq_sub_mod h, Nat.mod_eq_of_lt (by omega)]
    omega

/-- INTERNAL: bytes below a size of at most `MAXFILE * BSIZE` lie in blocks below
`MAXFILE`. -/
theorem block_lt_maxfile {k lim : Nat} (hk : k < lim) (hlim : lim ≤ maxfile * bsize) : k / bsize < maxfile := by
  unfold maxfile ndirect nindirect bsize at *
  omega

/-- INTERNAL: the count `readi` clamps `n` to. -/
theorem readi_count {size off n : Nat} (h : ¬size < off) :
    (if size < off + n then size - off else n) = min n (size - off) := by
  split <;> omega

section Fields

variable (devsw : Nat → Option Devsw) (D : FsImage) (inum : Nat) {ip : Dinode} (dst src : Nat → UInt8)
  {off n : Nat}

/-- INTERNAL: `readi` past the size or with a wrapping range returns `-1`. -/
theorem readi_of_guard (hty : ip.type ≠ .dev) (hoff : off < uintMod) (hn : n < uintMod)
    (h : ip.size < off ∨ uintMod ≤ off + n) : D.readi devsw ip dst off n = .ok (D, ip, -1, dst) := by
  unfold readi
  rw [if_neg hty, if_pos (by rw [wrap_iff hoff hn]; exact h)]
  rfl

/-- INTERNAL: within the guards, `readi` fails only when `bmap` runs out of blocks. -/
theorem readi_error_of_inRange (hty : ip.type ≠ .dev) (hsize : ip.size ≤ maxfile * bsize)
    (hoff : off < uintMod) (hn : n < uintMod) (hok : ¬(ip.size < off ∨ uintMod ≤ off + n)) (e : String)
    (h : D.readi devsw ip dst off n = .error e) : e = "balloc: out of blocks" := by
  unfold readi at h
  rw [if_neg hty, if_neg (by rw [wrap_iff hoff hn]; exact hok), readi_count (by omega)] at h
  rcases Run.bind_eq_error h with h | ⟨_, -, h⟩
  · exact readiLoop_error _ D ip dst 0 off
      (fun k _ hk => block_lt_maxfile (show k < ip.size by omega) hsize) h
  · cases h

/-- INTERNAL: within the guards, `readi` returns the clamped count and writes `dst` below it. -/
theorem readi_count_of_inRange (hty : ip.type ≠ .dev) (hoff : off < uintMod) (hn : n < uintMod)
    (hok : ¬(ip.size < off ∨ uintMod ≤ off + n)) (D' : FsImage) (ip' : Dinode) (r : Int) (dst' : Nat → UInt8)
    (h : D.readi devsw ip dst off n = .ok (D', ip', r, dst')) :
    r = ((min n (ip.size - off) : Nat) : Int) ∧ ip'.size = ip.size ∧
      ∀ j, min n (ip.size - off) ≤ j → dst' j = dst j := by
  unfold readi at h
  rw [if_neg hty, if_neg (by rw [wrap_iff hoff hn]; exact hok), readi_count (by omega)] at h
  obtain ⟨⟨D₁, ip₁, dst₁⟩, hloop, h⟩ := Run.bind_eq_ok h
  obtain ⟨hs, -, hdst⟩ := readiLoop_ok _ D ip dst 0 off _ _ _ hloop
  cases h
  exact ⟨rfl, hs, fun j hj => hdst j (Or.inr hj)⟩

/-- INTERNAL: within the guards and over blocks with addresses, `readi` copies the file's
bytes from `off` on. -/
theorem readi_bytes_of_inRange (hty : ip.type ≠ .dev) (hsize : ip.size ≤ maxfile * bsize)
    (hoff : off < uintMod) (hn : n < uintMod) (hok : ¬(ip.size < off ∨ uintMod ≤ off + n))
    (hall : ∀ k, off ≤ k → k < off + min n (ip.size - off) → D.blockAddr ip (k / bsize) ≠ 0) :
    D.readi devsw ip dst off n = .ok (D, ip, ((min n (ip.size - off) : Nat) : Int),
      overlay dst 0 (min n (ip.size - off)) fun i => D.fileByte ip (off + i)) := by
  unfold readi
  rw [if_neg hty, if_neg (by rw [wrap_iff hoff hn]; exact hok), readi_count (by omega)]
  by_cases hz : min n (ip.size - off) = 0
  · simp only [hz, overlay_zero]
    rw [readiLoop, if_neg (Nat.lt_irrefl 0)]
    rfl
  dsimp only
  rw [readiLoop_present D ip _ dst 0 off (Nat.zero_le _)
    (fun _ => copy_fuel _ off (by omega))
    (fun k hk₁ hk₂ => ⟨block_lt_maxfile (show k < ip.size by omega) hsize, hall k hk₁ (by omega)⟩)]
  rfl

/-- INTERNAL: `writei` past the size, with a wrapping range or past the bound returns `-1`. -/
theorem writei_of_guard (hty : ip.type ≠ .dev) (hoff : off < uintMod) (hn : n < uintMod)
    (h : ip.size < off ∨ uintMod ≤ off + n ∨ maxfile * bsize < off + n) :
    D.writei devsw inum ip src off n = .ok (D, ip, -1) := by
  unfold writei
  rw [if_neg hty]
  by_cases hg : ip.size < off ∨ (off + n) % uintMod < off
  · rw [if_pos hg]
    rfl
  · -- neither of the first guards: the bound on `off + n` fails
    have hmax : maxfile * bsize < off + n := by
      rw [wrap_iff hoff hn] at hg
      omega
    rw [if_neg hg, if_pos hmax]
    rfl

/-- INTERNAL: within the guards, `writei` fails only when `balloc` runs out of blocks. -/
theorem writei_error_of_inRange (hty : ip.type ≠ .dev) (hoff : off < uintMod) (hn : n < uintMod)
    (hok : ¬(ip.size < off ∨ uintMod ≤ off + n ∨ maxfile * bsize < off + n)) (e : String)
    (h : D.writei devsw inum ip src off n = .error e) : e = "balloc: out of blocks" := by
  unfold writei at h
  rw [if_neg hty, if_neg (by rw [wrap_iff hoff hn]; omega), if_neg (by omega)] at h
  rcases Run.bind_eq_error h with h | ⟨⟨D₁, ip₁, off₁⟩, -, h⟩
  · exact writeiLoop_error src _ D ip 0 off
      (fun k _ hk => block_lt_maxfile (show k < off + n by omega) (by omega)) h
  · dsimp only at h
    split at h <;> cases h

/-- INTERNAL: within the guards, `writei` returns `n` and leaves the size `max(size, off + n)`. -/
theorem writei_count_of_inRange (hty : ip.type ≠ .dev) (hsize : ip.size ≤ maxfile * bsize)
    (hoff : off < uintMod) (hn : n < uintMod) (hok : ¬(ip.size < off ∨ uintMod ≤ off + n ∨ maxfile * bsize < off + n)) (D' : FsImage) (ip' : Dinode)
    (r : Int) (h : D.writei devsw inum ip src off n = .ok (D', ip', r)) :
    r = (n : Int) ∧ ip'.size = max ip.size (off + n) ∧ ip'.size ≤ maxfile * bsize := by
  unfold writei at h
  rw [if_neg hty, if_neg (by rw [wrap_iff hoff hn]; omega), if_neg (by omega)] at h
  obtain ⟨⟨D₁, ip₁, off₁⟩, hloop, h⟩ := Run.bind_eq_ok h
  obtain ⟨hs, -, hend⟩ := writeiLoop_ok src _ D ip 0 off D₁ ip₁ off₁ hloop
  have hoff₁ : off₁ = off + n := by
    by_cases hz : n = 0
    · have := hend (Nat.zero_le _) (fun h => absurd h (by omega))
      omega
    · have := hend (Nat.zero_le _) (fun _ => copy_fuel n off (by omega))
      omega
  dsimp only at h
  -- the inode is written back only when the write grows the file
  by_cases hgrow : 0 < n ∧ ip₁.size < off₁
  · rw [if_pos hgrow] at h
    cases h
    refine ⟨rfl, ?_, ?_⟩ <;> simp only <;> omega
  · rw [if_neg hgrow] at h
    cases h
    refine ⟨rfl, ?_, ?_⟩ <;> omega

end Fields

end FsImage

/-- A console whose `read` and `write` take every byte. -/
def consoleDevsw : Nat → Option Devsw := fun k => if k = 1 then some ⟨fun n => n, fun n => n⟩ else none

/-- The console's inode, as `mknod("console", 1, 1)` leaves it: a device of size `0`. -/
def consoleInode : Dinode := ⟨.dev, 1, 1, 1, 0, fun _ => 0⟩

/-- `readi` of the console at offset `1`, past its size `0`, does not return `-1`: it
returns what the device reads. -/
theorem readi_device_past_size :
    consoleInode.size < 1 ∧
      demoImage.readi consoleDevsw consoleInode (fun _ => 0) 1 1 =
        .ok (demoImage, consoleInode, 1, fun _ => 0) := by
  refine ⟨by decide, ?_⟩
  rfl

end Xv6
