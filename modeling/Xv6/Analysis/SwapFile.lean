import Xv6.Model.SwapFile
import Xv6.Lib.SlotStore
import Xv6.Lib.Run

/-!
# The swap file as a page store

`swapwrite_file`, `swapread_file` and `swapfree_file` use the swap file as a store of
pages under numbers: a write allocates the first page whose bitmap bit is clear, a read
returns the page and frees it.  This module proves what the file operations do and
relates the file to the specification `SlotStore` of such a store.

* The file operations: `writei` and so `filewrite` stop at `MAXFILE * BSIZE` bytes, and
  a `filewrite` that reaches the bound writes a strict prefix of its data
  (`filewrite_spec`).  `filetruncate` writes its whole length at the current offset and
  fails when that passes the bound (`filetruncate_fails`).
* Below the bound each swap-file operation does to the file what the specification does
  to the store (`Stores.write`, `Stores.read`, `Stores.free`), on a disk with room for the file's blocks, which the
  model of the swap inode stands for.
* The bound is far below what the bitmap offers.  The bitmap has a bit for every frame,
  about 56000, but for every kernel image that ends below 4 MiB the file holds only
  15 pages.  The sixteenth page in use is cut short, and reading it back panics
  (`swapfile_sixteenth_page_lost`).
-/

set_option autoImplicit false

namespace Xv6

open Window

/-! ## Constants -/

/-- INTERNAL: the largest size `writei` lets the swap file reach. -/
theorem maxfile_mul_bsize : maxfile * bsize = 71680 := rfl

/-- INTERNAL: the chunk size of `filewrite`. -/
theorem maxWrite_eq : maxWrite = 1536 := rfl

/-- INTERNAL: the size bound of `writei` is far below the `uint` wrap-around. -/
theorem maxfile_mul_bsize_lt_uintMod : maxfile * bsize < uintMod := by
  unfold uintMod
  decide

namespace SwapFile

/-! ## The file operations -/

/-- A file whose offset is within it and whose size is within the bound of `writei`.
Every file operation keeps both. -/
structure Wf (f : SwapFile) : Prop where
  off_le : f.off ≤ f.size
  size_le : f.size ≤ maxfile * bsize

/-- INTERNAL: the file with its offset moved to `o`. -/
def seekTo (f : SwapFile) (o : Nat) : SwapFile := { f with off := o }

@[simp] theorem seekTo_size (f : SwapFile) (o : Nat) : (f.seekTo o).size = f.size := rfl
@[simp] theorem seekTo_data (f : SwapFile) (o : Nat) : (f.seekTo o).data = f.data := rfl
@[simp] theorem seekTo_off (f : SwapFile) (o : Nat) : (f.seekTo o).off = o := rfl
@[simp] theorem seekTo_readbuf (f : SwapFile) (o : Nat) : (f.seekTo o).readbuf = f.readbuf := rfl
@[simp] theorem seekTo_bmapSize (f : SwapFile) (o : Nat) :
    (f.seekTo o).bmapSize = f.bmapSize := rfl

/-- INTERNAL: the file after the `m` bytes of `src` are written at its offset, the
offset moved past them. -/
def put (f : SwapFile) (src : Nat → UInt8) (m : Nat) : SwapFile :=
  { f with data := overlay f.data f.off m src, size := max f.size (f.off + m), off := f.off + m }

@[simp] theorem put_data (f : SwapFile) (src : Nat → UInt8) (m : Nat) :
    (f.put src m).data = overlay f.data f.off m src := rfl
@[simp] theorem put_size (f : SwapFile) (src : Nat → UInt8) (m : Nat) :
    (f.put src m).size = max f.size (f.off + m) := rfl
@[simp] theorem put_off (f : SwapFile) (src : Nat → UInt8) (m : Nat) :
    (f.put src m).off = f.off + m := rfl
@[simp] theorem put_bmapSize (f : SwapFile) (src : Nat → UInt8) (m : Nat) :
    (f.put src m).bmapSize = f.bmapSize := rfl
@[simp] theorem put_readbuf (f : SwapFile) (src : Nat → UInt8) (m : Nat) :
    (f.put src m).readbuf = f.readbuf := rfl

theorem put_zero {f : SwapFile} (hf : f.off ≤ f.size) (src : Nat → UInt8) : f.put src 0 = f := by
  simp [put, hf]

/-- INTERNAL: two writes at the offset, the second continuing the first, are one. -/
theorem put_put (f : SwapFile) (src : Nat → UInt8) (m₁ m₂ : Nat) :
    (f.put src m₁).put (fun a => src (m₁ + a)) m₂ = f.put src (m₁ + m₂) := by
  simp only [put, overlay_append, Nat.add_assoc, SwapFile.mk.injEq, and_true]
  omega

theorem Wf.put {f : SwapFile} (hf : f.Wf) {src : Nat → UInt8} {m : Nat}
    (hm : f.off + m ≤ maxfile * bsize) : (f.put src m).Wf :=
  ⟨by simp, by simp only [put_size]; have := hf.size_le; omega⟩

/-- `writei` of a window that starts within the file and ends within the bound. -/
theorem writei_of_fits {f : SwapFile} {off n : Nat} (src : Nat → UInt8) (hoff : off ≤ f.size)
    (hfit : off + n ≤ maxfile * bsize) :
    f.writei src off n = some { f with data := overlay f.data off n src, size := max f.size (off + n) } := by
  have hwrap := maxfile_mul_bsize_lt_uintMod
  unfold writei
  rw [if_neg (by omega), if_neg (by omega)]
  congr 2
  split_ifs <;> omega

/-- `writei` of a window that ends past the bound fails. -/
theorem writei_of_exceeds {f : SwapFile} {off n : Nat} (src : Nat → UInt8)
    (hn : maxfile * bsize < off + n) : f.writei src off n = none := by
  unfold writei
  split_ifs <;> rfl

/-- **The loop of `filewrite`.**  From byte `i` of `src` it writes some `m` bytes at the
offset, all that were left or up to a chunk that would pass the bound of `writei`. -/
theorem filewriteLoop_spec (src : Nat → UInt8) (n : Nat) :
    ∀ fuel (f : SwapFile) (i : Nat), f.Wf → i ≤ n → n - i ≤ fuel →
      ∃ m ≤ n - i, filewriteLoop src n fuel f i = (f.put (fun a => src (i + a)) m, i + m) ∧
        f.off + m ≤ maxfile * bsize ∧
        (m = n - i ∨ maxfile * bsize < f.off + m + min (n - i - m) maxWrite) := by
  intro fuel
  induction fuel with
  | zero =>
      intro f i hf hi hfuel
      have hin : i = n := by omega
      refine ⟨0, by omega, ?_, ?_, Or.inl (by omega)⟩
      · simp [filewriteLoop, put_zero hf.off_le]
      · have := hf.off_le; have := hf.size_le; omega
  | succ fuel ih =>
      intro f i hf hi hfuel
      by_cases hlt : i < n
      · -- the chunk written by this pass
        have hchunk : 0 < min (n - i) maxWrite := by rw [maxWrite_eq]; omega
        by_cases hfit : f.off + min (n - i) maxWrite ≤ maxfile * bsize
        · have hw := writei_of_fits (fun a => src (i + a)) hf.off_le hfit
          have hf₁ : (f.put (fun a => src (i + a)) (min (n - i) maxWrite)).Wf := hf.put hfit
          obtain ⟨m, hm, hrun, hcap, hend⟩ :=
            ih _ (i + min (n - i) maxWrite) hf₁ (by omega) (by omega)
          refine ⟨min (n - i) maxWrite + m, by omega, ?_, ?_, ?_⟩
          · rw [filewriteLoop, if_pos hlt]
            simp only [hw]
            -- the next pass starts from the file with the first chunk written
            change filewriteLoop src n fuel (f.put (fun a => src (i + a)) (min (n - i) maxWrite))
              (i + min (n - i) maxWrite) = _
            have hsrc : (fun a => src (i + min (n - i) maxWrite + a)) =
                fun a => (fun a => src (i + a)) (min (n - i) maxWrite + a) := by
              funext a; simp only [Nat.add_assoc]
            rw [hrun, hsrc, put_put, Nat.add_assoc]
          · simp only [SwapFile.put] at hcap; omega
          · simp only [SwapFile.put] at hend; omega
        · refine ⟨0, by omega, ?_, ?_, Or.inr (by omega)⟩
          · have hw : f.writei (fun a => src (i + a)) f.off (min (n - i) maxWrite) = none :=
              writei_of_exceeds _ (by omega)
            rw [filewriteLoop, if_pos hlt]
            simp [hw, put_zero hf.off_le]
          · have := hf.off_le; have := hf.size_le; omega
      · refine ⟨0, by omega, ?_, ?_, Or.inl (by omega)⟩
        · simp [filewriteLoop, hlt, put_zero hf.off_le]
        · have := hf.off_le; have := hf.size_le; omega

/-- **`filewrite`.**  It writes a prefix of `src` at the offset; all `n` bytes and the
result `n` when they fit below the bound of `writei`, a strict prefix and `-1` when
they do not. -/
theorem filewrite_spec {f : SwapFile} (hf : f.Wf) (src : Nat → UInt8) (n : Nat) :
    ∃ m ≤ n, (f.filewrite src n).1 = f.put src m ∧ f.off + m ≤ maxfile * bsize ∧
      (f.off + n ≤ maxfile * bsize → m = n ∧ (f.filewrite src n).2 = n) ∧
      (maxfile * bsize < f.off + n → m < n ∧ (f.filewrite src n).2 = -1) := by
  obtain ⟨m, hm, hrun, hcap, hend⟩ := filewriteLoop_spec src n n f 0 hf (by omega) (by omega)
  have hsrc : (fun a => src (0 + a)) = src := by funext a; rw [Nat.zero_add]
  rw [hsrc, Nat.zero_add] at hrun
  have hmw : 0 < maxWrite := by rw [maxWrite_eq]; omega
  refine ⟨m, by omega, by simp [filewrite, hrun], hcap, ?_, ?_⟩
  · intro hfit
    have hmn : m = n := by omega
    exact ⟨hmn, by simp [filewrite, hrun, hmn]⟩
  · intro hover
    have hmn : m < n := by omega
    exact ⟨hmn, by simp [filewrite, hrun, Nat.ne_of_lt hmn]⟩

/-- `filewrite` of bytes that fit. -/
theorem filewrite_of_fits {f : SwapFile} (hf : f.Wf) (src : Nat → UInt8) {n : Nat}
    (hfit : f.off + n ≤ maxfile * bsize) : f.filewrite src n = (f.put src n, (n : Int)) := by
  obtain ⟨m, -, h1, -, hok, -⟩ := filewrite_spec hf src n
  obtain ⟨rfl, h2⟩ := hok hfit
  exact Prod.ext h1 h2

theorem Wf.filewrite {f : SwapFile} (hf : f.Wf) (src : Nat → UInt8) (n : Nat) :
    (f.filewrite src n).1.Wf := by
  obtain ⟨m, -, h1, hcap, -⟩ := filewrite_spec hf src n
  rw [h1]
  exact hf.put hcap

/-- INTERNAL: `writei` reads only the `n` bytes of `src` it copies. -/
theorem writei_congr (f : SwapFile) {src src' : Nat → UInt8} (off n : Nat)
    (h : ∀ a, a < n → src a = src' a) : f.writei src off n = f.writei src' off n := by
  unfold writei
  rw [overlay_congr f.data off n h]

/-- INTERNAL: the loop of `filewrite` reads only the first `n` bytes of `src`. -/
theorem filewriteLoop_congr {src src' : Nat → UInt8} {n : Nat} (h : ∀ b, b < n → src b = src' b) :
    ∀ fuel f i, filewriteLoop src n fuel f i = filewriteLoop src' n fuel f i := by
  intro fuel
  induction fuel with
  | zero => intro f i; rfl
  | succ fuel ih =>
      intro f i
      rw [filewriteLoop, filewriteLoop]
      split
      · -- the chunk from byte `i` lies below `n`
        rename_i hi
        dsimp only
        rw [@writei_congr f (fun a => src (i + a)) (fun a => src' (i + a)) f.off (min (n - i) maxWrite)
          (fun a ha => h (i + a) (by omega))]
        split <;> simp only [ih]
      · rfl

/-- `swapfile_write_page` reads only the page's `PGSIZE` bytes of `src`. -/
theorem swapfileWritePage_congr (f : SwapFile) {src src' : Nat → UInt8} (i : Nat)
    (h : ∀ b, b < pgsize → src b = src' b) : swapfileWritePage f src i = swapfileWritePage f src' i := by
  unfold swapfileWritePage filewrite
  rw [filewriteLoop_congr h]

/-- `fileread` of bytes within the file. -/
theorem fileread_of_le {f : SwapFile} (hf : f.Wf) (dst : Nat → UInt8) {n : Nat}
    (hn : f.off + n ≤ f.size) :
    f.fileread dst n = (f.seekTo (f.off + n), (n : Int), overlay dst 0 n fun a => f.data (f.off + a)) := by
  have hwrap := maxfile_mul_bsize_lt_uintMod
  have := hf.size_le
  unfold fileread readi
  rw [if_neg (by omega), if_neg (by omega)]
  rfl

theorem fileseek_of_le {f : SwapFile} {offset : Nat} (h : offset ≤ f.size) :
    f.fileseek offset = (f.seekTo offset, 0) := by
  simp [fileseek, Nat.not_lt.mpr h, seekTo]

theorem fileseek_of_lt {f : SwapFile} {offset : Nat} (h : f.size < offset) :
    f.fileseek offset = (f, -1) := by
  simp [fileseek, h]

theorem Wf.seek {f : SwapFile} (hf : f.Wf) {offset : Nat} (h : offset ≤ f.size) :
    (f.seekTo offset).Wf :=
  ⟨h, hf.size_le⟩

theorem Wf.fileseek {f : SwapFile} (hf : f.Wf) (offset : Nat) : (f.fileseek offset).1.Wf := by
  by_cases h : offset ≤ f.size
  · rw [fileseek_of_le h]; exact hf.seek h
  · rw [fileseek_of_lt (by omega)]; exact hf

/-- **`filetruncate`'s loop fails when its bytes pass the bound.**  Every pass writes a
chunk at the offset, so the loop as a whole writes `length` bytes from there. -/
theorem filetruncateLoop_fails :
    ∀ (fuel : Nat) (f : SwapFile) (length : Int), f.Wf → 0 < length →
      length ≤ (fuel : Int) * maxWrite →
      maxfile * bsize < f.off + length → (filetruncateLoop fuel f length).2 = -1 := by
  intro fuel
  induction fuel with
  | zero => intro f length _ hpos hfuel _; simp at hfuel; omega
  | succ fuel ih =>
      intro f length hf hpos hfuel hover
      have hmw := maxWrite_eq
      obtain ⟨m, hm, h1, hcap, hok, hfail⟩ :=
        filewrite_spec hf (fun _ => 0) (min maxWrite length.toNat)
      by_cases hfit : f.off + min maxWrite length.toNat ≤ maxfile * bsize
      · -- the chunk fits, so it was a whole `zero_array` and the rest still passes the bound
        obtain ⟨rfl, h2⟩ := hok hfit
        have hlen : maxWrite < length := by omega
        have hrest := ih (f.put (fun _ => 0) (min maxWrite length.toNat)) (length - maxWrite)
          (hf.put hfit) (by omega) (by push_cast at hfuel ⊢; linarith)
          (by simp only [SwapFile.put]; omega)
        simp only [filetruncateLoop, if_pos hpos, h2, h1]
        rw [if_neg (by omega)]
        exact hrest
      · obtain ⟨-, h2⟩ := hfail (by omega)
        simp only [filetruncateLoop, if_pos hpos, h2]
        rfl

/-- `filetruncate` to a length past what the file holds fails, when the zeros written
from the offset pass the bound. -/
theorem filetruncate_fails {f : SwapFile} (hf : f.Wf) {length : Nat} (hlt : f.size < length)
    (hover : maxfile * bsize < f.off + length) : (f.filetruncate length).2 = -1 := by
  unfold filetruncate
  rw [if_neg (by omega), if_neg (by omega)]
  exact filetruncateLoop_fails length f length hf (by omega)
    (by rw [maxWrite_eq]; push_cast; omega) (by omega)

/-- **`filetruncate`'s loop writes its length when it fits.** -/
theorem filetruncateLoop_fits :
    ∀ (fuel : Nat) (f : SwapFile) (length : Int), f.Wf → 0 ≤ length →
      length ≤ (fuel : Int) * maxWrite → f.off + length ≤ maxfile * bsize →
      filetruncateLoop fuel f length = (f.put (fun _ => 0) length.toNat, 0) := by
  intro fuel
  induction fuel with
  | zero =>
      intro f length hf hnn hfuel _
      have h0 : length.toNat = 0 := by simp at hfuel; omega
      simp [filetruncateLoop, h0, put_zero hf.off_le]
  | succ fuel ih =>
      intro f length hf hnn hfuel hfit
      have hmw := maxWrite_eq
      by_cases hpos : 0 < length
      · have hchunk : f.off + min maxWrite length.toNat ≤ maxfile * bsize := by omega
        have hw := filewrite_of_fits hf (fun _ => 0) hchunk
        simp only [filetruncateLoop, if_pos hpos, hw]
        rw [if_neg (by omega)]
        by_cases hlong : maxWrite < length
        · -- a whole `zero_array`, and the rest of the length after it
          rw [ih _ (length - maxWrite) (hf.put hchunk) (by omega)
            (by push_cast at hfuel ⊢; linarith) (by simp only [SwapFile.put]; omega)]
          have hcomb := put_put f (fun _ => (0 : UInt8)) (min maxWrite length.toNat)
            (length - maxWrite).toNat
          rw [hcomb]
          congr 2
          omega
        · -- the last chunk: what is left of the length is not positive
          have hlast : length.toNat = min maxWrite length.toNat := by omega
          cases fuel with
          | zero => simp [filetruncateLoop, ← hlast]
          | succ fuel => simp [filetruncateLoop, hlong, ← hlast]
      · have h0 : length.toNat = 0 := by omega
        simp [filetruncateLoop, hpos, h0, put_zero hf.off_le]

end SwapFile

/-! ## The bitmap -/

/-- INTERNAL: the mask `1 << (i % 8)` of `swapfile_bitmap_is_used` and
`swapfile_bitmap_set`. -/
theorem toNat_bitmapMask (i : Nat) : ((1 : UInt8) <<< (i % 8).toUInt8).toNat = 2 ^ (i % 8) := by
  have h : i % 8 < 8 := Nat.mod_lt _ (by decide)
  generalize i % 8 = k at h ⊢
  interval_cases k <;> decide

/-- `swapfile_bitmap_is_used(value, i)` is bit `i % 8` of `value`. -/
theorem swapfileBitmapIsUsed_eq (v : UInt8) (i : Nat) :
    swapfileBitmapIsUsed v i = v.toNat.testBit (i % 8) := by
  simp only [swapfileBitmapIsUsed, ne_eq, ← UInt8.toNat_inj, UInt8.toNat_and, toNat_bitmapMask,
    UInt8.toNat_zero, Nat.and_two_pow]
  cases v.toNat.testBit (i % 8) <;> simp

/-- INTERNAL: the byte `swapfile_bitmap_set` writes has bit `i % 8` equal to `bit` and
the other bits of the byte it read. -/
theorem testBit_swapfileBitmapByte (v : UInt8) (bit : Bool) (i j : Nat) (hj : j < 8) :
    (swapfileBitmapByte v bit i).toNat.testBit j = if j = i % 8 then bit else v.toNat.testBit j := by
  have hm : (v.toNat &&& 2 ^ (i % 8)) < 2 ^ 8 := lt_of_le_of_lt Nat.and_le_left v.toNat_lt
  -- the complement of a byte, as a number below 256
  have hnot : (UInt8.size - 1 - (v.toNat &&& 2 ^ (i % 8))).testBit j =
      !(v.toNat &&& 2 ^ (i % 8)).testBit j := by
    have h : UInt8.size - 1 - (v.toNat &&& 2 ^ (i % 8)) =
        2 ^ 8 - ((v.toNat &&& 2 ^ (i % 8)) + 1) := by
      simp only [UInt8.size]; omega
    rw [h, Nat.testBit_two_pow_sub_succ hm]
    simp [hj]
  -- clearing the bit leaves the other seven
  have hclear : (v.toNat &&& (UInt8.size - 1 - (v.toNat &&& 2 ^ (i % 8)))).testBit j =
      if j = i % 8 then false else v.toNat.testBit j := by
    rw [Nat.testBit_and, hnot, Nat.testBit_and, Nat.testBit_two_pow]
    by_cases hji : j = i % 8
    · simp [hji]
    · simp [hji, Ne.symm hji]
  unfold swapfileBitmapByte
  cases bit
  · simpa only [Bool.false_eq_true, ↓reduceIte, UInt8.toNat_and, UInt8.toNat_not, toNat_bitmapMask]
      using hclear
  · simp only [↓reduceIte, UInt8.toNat_or, UInt8.toNat_and, UInt8.toNat_not, toNat_bitmapMask,
      Nat.testBit_or, hclear, Nat.testBit_two_pow]
    by_cases hji : j = i % 8
    · simp [hji]
    · simp [hji, Ne.symm hji]

/-- **The bit update of `swapfile_bitmap_set`.**  In the byte it writes, bit `i` is `bit`
and every other bit of the byte is as it was. -/
theorem swapfileBitmapIsUsed_byte (v : UInt8) (bit : Bool) {i j : Nat} (hij : j / 8 = i / 8) :
    swapfileBitmapIsUsed (swapfileBitmapByte v bit i) j =
      if j = i then bit else swapfileBitmapIsUsed v j := by
  rw [swapfileBitmapIsUsed_eq, swapfileBitmapIsUsed_eq,
    testBit_swapfileBitmapByte v bit i (j % 8) (Nat.mod_lt _ (by decide))]
  have hiff : j % 8 = i % 8 ↔ j = i := by omega
  simp only [hiff]

@[simp] theorem swapfileBitmapIsUsed_zero (i : Nat) : swapfileBitmapIsUsed 0 i = false := by
  simp [swapfileBitmapIsUsed_eq]

namespace SwapFile

attribute [ext] SwapFile

/-- INTERNAL: the file after `swapfile_bitmap_set(bit, i)`: the byte of bit `i` written
back, the offset just past it. -/
def setBit (f : SwapFile) (bit : Bool) (i : Nat) : SwapFile :=
  { f with
    data := Function.update f.data (i / 8) (swapfileBitmapByte (f.data (i / 8)) bit i)
    off := i / 8 + 1 }

@[simp] theorem setBit_data (f : SwapFile) (bit : Bool) (i : Nat) :
    (f.setBit bit i).data =
      Function.update f.data (i / 8) (swapfileBitmapByte (f.data (i / 8)) bit i) := rfl
@[simp] theorem setBit_size (f : SwapFile) (bit : Bool) (i : Nat) :
    (f.setBit bit i).size = f.size := rfl
@[simp] theorem setBit_off (f : SwapFile) (bit : Bool) (i : Nat) :
    (f.setBit bit i).off = i / 8 + 1 := rfl
@[simp] theorem setBit_readbuf (f : SwapFile) (bit : Bool) (i : Nat) :
    (f.setBit bit i).readbuf = f.readbuf := rfl
@[simp] theorem setBit_bmapSize (f : SwapFile) (bit : Bool) (i : Nat) :
    (f.setBit bit i).bmapSize = f.bmapSize := rfl

/-- INTERNAL: the file with `r` in `swapfile.readbuf`. -/
def withReadbuf (f : SwapFile) (r : Nat → UInt8) : SwapFile := { f with readbuf := r }

@[simp] theorem withReadbuf_data (f : SwapFile) (r : Nat → UInt8) :
    (f.withReadbuf r).data = f.data := rfl
@[simp] theorem withReadbuf_size (f : SwapFile) (r : Nat → UInt8) :
    (f.withReadbuf r).size = f.size := rfl
@[simp] theorem withReadbuf_off (f : SwapFile) (r : Nat → UInt8) :
    (f.withReadbuf r).off = f.off := rfl
@[simp] theorem withReadbuf_readbuf (f : SwapFile) (r : Nat → UInt8) :
    (f.withReadbuf r).readbuf = r := rfl
@[simp] theorem withReadbuf_bmapSize (f : SwapFile) (r : Nat → UInt8) :
    (f.withReadbuf r).bmapSize = f.bmapSize := rfl

theorem Wf.setBit {f : SwapFile} (hf : f.Wf) (bit : Bool) {i : Nat} (hi : i / 8 < f.size) :
    (f.setBit bit i).Wf :=
  ⟨by simp only [setBit_off, setBit_size]; omega, hf.size_le⟩

end SwapFile

open SwapFile

/-- **`swapfile_bitmap_set(bit, i)`** on a bit whose byte is within the file. -/
theorem swapfileBitmapSet_spec {f : SwapFile} (hf : f.Wf) (bit : Bool) {i : Nat}
    (hi : i / 8 < f.size) : swapfileBitmapSet f bit i = .ok (f.setBit bit i) := by
  have hf₁ : (f.seekTo (i / 8)).Wf := hf.seek hi.le
  have hread := fileread_of_le hf₁ (fun _ => 0) (n := 1) (by simpa using hi)
  -- the byte read is the one in the file, and the second seek returns to it
  have hbyte : overlay (fun _ => (0 : UInt8)) 0 1 (fun a => (f.seekTo (i / 8)).data
      ((f.seekTo (i / 8)).off + a)) 0 = f.data (i / 8) := by
    simp [overlay]
  have hseek₂ : ((f.seekTo (i / 8)).seekTo ((f.seekTo (i / 8)).off + 1)).fileseek (i / 8) =
      (f.seekTo (i / 8), 0) := by
    rw [fileseek_of_le (by simpa using hi.le)]
    rfl
  have hwrite := filewrite_of_fits hf₁ (fun _ => swapfileBitmapByte (f.data (i / 8)) bit i)
    (n := 1) (by have := hf.size_le; simp only [seekTo_off]; omega)
  simp only [swapfileBitmapSet, fileseek_of_le hi.le, hread, hbyte, hseek₂, hwrite]
  simp only [if_false, Nat.cast_one, not_lt.mpr zero_le_one, lt_irrefl]
  congr 1
  ext <;> simp [overlay_one]
  omega

/-! ## Allocation -/

/-- INTERNAL: a pass of the loop of `swapfile_get_free_page` that reads no chunk and finds
its bit set moves to the next bit. -/
theorem getFreePageLoop_used {g : SwapFile} {fuel k : Nat} (hread : k % (pgsize * 8) ≠ 0)
    (hused : swapfileBitmapIsUsed (g.readbuf (k / 8 % pgsize)) k = true) :
    getFreePageLoop (fuel + 1) g k = getFreePageLoop fuel g (k + 1) := by
  simp [getFreePageLoop, hread, hused, pure_bind]

/-- INTERNAL: a pass that reads no chunk and finds its bit clear sets it and returns. -/
theorem getFreePageLoop_found {g : SwapFile} {fuel k : Nat} (hread : k % (pgsize * 8) ≠ 0)
    (hfree : swapfileBitmapIsUsed (g.readbuf (k / 8 % pgsize)) k = false) :
    getFreePageLoop (fuel + 1) g k = (do let g ← swapfileBitmapSet g true k; pure (g, k)) := by
  simp only [getFreePageLoop, hread, if_false, pure_bind, hfree, Bool.not_false, if_true]

/-- INTERNAL: a pass that reads the chunk of the bitmap at its offset into `readbuf`,
within the file. -/
theorem getFreePageLoop_read {g : SwapFile} (hg : g.Wf) {fuel k : Nat}
    (hread : k % (pgsize * 8) = 0)
    (hlen : g.off + min pgsize (g.bmapSize - k / 8) ≤ g.size) :
    getFreePageLoop (fuel + 1) g k =
      let g' := (g.seekTo (g.off + min pgsize (g.bmapSize - k / 8))).withReadbuf
        (overlay g.readbuf 0 (min pgsize (g.bmapSize - k / 8)) fun a => g.data (g.off + a))
      if !swapfileBitmapIsUsed (g'.readbuf (k / 8 % pgsize)) k then
        (do let g ← swapfileBitmapSet g' true k; pure (g, k))
      else getFreePageLoop fuel g' (k + 1) := by
  have hr := fileread_of_le hg g.readbuf hlen
  simp only [getFreePageLoop, hread, if_true, hr]
  simp only [Int.natCast_nonneg, not_lt.mpr, if_false, pure_bind]
  rfl

/-- INTERNAL: the passes over bits that are set, reading no chunk. -/
theorem getFreePageLoop_skip (g : SwapFile) : ∀ (m fuel k : Nat),
    (∀ k', k ≤ k' → k' < k + m →
      k' % (pgsize * 8) ≠ 0 ∧ swapfileBitmapIsUsed (g.readbuf (k' / 8 % pgsize)) k' = true) →
    getFreePageLoop (fuel + m) g k = getFreePageLoop fuel g (k + m) := by
  intro m
  induction m with
  | zero => intro fuel k _; rfl
  | succ m ih =>
      intro fuel k hset
      obtain ⟨hread, hused⟩ := hset k le_rfl (by omega)
      rw [← Nat.add_assoc, getFreePageLoop_used hread hused,
        ih fuel (k + 1) fun k' h₁ h₂ => hset k' (by omega) (by omega)]
      rw [Nat.add_assoc, Nat.add_comm 1 m]

/-- **`swapfile_get_free_page()`** on a bitmap within the file whose first clear bit `j`
lies in the first chunk: it returns `j` with its bit set. -/
theorem swapfileGetFreePage_spec {f : SwapFile} (hf : f.Wf) (hB : f.bmapSize ≤ f.size)
    {j : Nat} (hj : j < f.bmapSize * 8) (hchunk : j < pgsize * 8)
    (hused : ∀ k < j, swapfileBitmapIsUsed (f.data (k / 8)) k = true)
    (hfree : swapfileBitmapIsUsed (f.data (j / 8)) j = false) :
    ∃ r, swapfileGetFreePage f = .ok ((f.setBit true j).withReadbuf r, j) := by
  have hpg : pgsize = 4096 := rfl
  have hf₀ : (f.seekTo 0).Wf := hf.seek (Nat.zero_le _)
  -- the first pass reads the first chunk of the bitmap; it holds every byte up to bit `j`
  let m := min pgsize ((f.seekTo 0).bmapSize - 0 / 8)
  let rb : Nat → UInt8 := overlay (f.seekTo 0).readbuf 0 m
    fun a => (f.seekTo 0).data ((f.seekTo 0).off + a)
  let g := ((f.seekTo 0).seekTo ((f.seekTo 0).off + m)).withReadbuf rb
  have hrb : ∀ k ≤ j, rb (k / 8 % pgsize) = f.data (k / 8) := by
    intro k hk
    have hk8 : k / 8 < 0 + m := by simp only [m, hpg, seekTo_bmapSize]; omega
    rw [Nat.mod_eq_of_lt (by omega)]
    simp only [rb, overlay_of_mem _ (Nat.zero_le _) hk8, Nat.sub_zero, seekTo_data, seekTo_off,
      Nat.zero_add]
  have hgW : g.Wf := ⟨by simp only [g, m, withReadbuf_off, seekTo_off, withReadbuf_size,
    seekTo_size, seekTo_bmapSize]; omega, hf.size_le⟩
  have hsetj : swapfileBitmapSet g true j = .ok ((f.setBit true j).withReadbuf rb) := by
    rw [swapfileBitmapSet_spec hgW true (by simp only [g, withReadbuf_size, seekTo_size]; omega)]
    congr 1
  have hfirst := @getFreePageLoop_read _ hf₀ (f.bmapSize * 8 - 1) 0 (by simp)
    (by simp only [hpg, seekTo_off, seekTo_bmapSize, seekTo_size]; omega)
  refine ⟨rb, ?_⟩
  unfold swapfileGetFreePage
  rw [fileseek_of_le (Nat.zero_le _), show f.bmapSize * 8 = f.bmapSize * 8 - 1 + 1 by omega,
    hfirst]
  dsimp only
  rw [show (overlay (f.seekTo 0).readbuf 0 (min pgsize ((f.seekTo 0).bmapSize - 0 / 8))
      fun a => (f.seekTo 0).data ((f.seekTo 0).off + a)) = rb from rfl, withReadbuf_readbuf]
  rcases Nat.eq_zero_or_pos j with rfl | hjpos
  · -- bit 0 is the free one
    rw [hrb 0 le_rfl, hfree, Bool.not_false, if_pos rfl]
    change (do let f ← swapfileBitmapSet g true 0; pure (f, 0)) = _
    rw [hsetj]
    rfl
  · -- bits `0 … j - 1` are set: skip them, then find bit `j`
    rw [hrb 0 (Nat.zero_le _), hused 0 hjpos, Bool.not_true, if_neg (by decide)]
    have hskip := getFreePageLoop_skip g (j - 1) (f.bmapSize * 8 - 1 - j + 1) 1
      (fun k' h₁ h₂ => ⟨by rw [hpg]; omega, by
        show swapfileBitmapIsUsed (rb (k' / 8 % pgsize)) k' = true
        rw [hrb k' (by omega)]; exact hused k' (by omega)⟩)
    have hfound := @getFreePageLoop_found g (f.bmapSize * 8 - 1 - j) j
      (by rw [hpg]; omega) (by
        show swapfileBitmapIsUsed (rb (j / 8 % pgsize)) j = false
        rw [hrb j le_rfl]; exact hfree)
    change getFreePageLoop (f.bmapSize * 8 - 1) g (0 + 1) = _
    rw [show f.bmapSize * 8 - 1 = f.bmapSize * 8 - 1 - j + 1 + (j - 1) by omega, hskip,
      show 0 + 1 + (j - 1) = j by omega, hfound, hsetj]
    rfl

/-! ## Pages -/

/-- **`swapfile_write_page(src, i)`** of a page that starts within the file: a write of the
page's bytes at its offset, whole or cut short at the bound of `writei`. -/
theorem swapfileWritePage_spec {f : SwapFile} (hf : f.Wf) (src : Nat → UInt8) {i : Nat}
    (hseek : f.bmapSize + i * pgsize ≤ f.size) :
    ∃ m ≤ pgsize, swapfileWritePage f src i = (f.seekTo (f.bmapSize + i * pgsize)).put src m ∧
      f.bmapSize + i * pgsize + m ≤ maxfile * bsize ∧
      (f.bmapSize + (i + 1) * pgsize ≤ maxfile * bsize → m = pgsize) ∧
      (maxfile * bsize < f.bmapSize + (i + 1) * pgsize → m < pgsize) := by
  have hf₁ := hf.seek hseek
  obtain ⟨m, hm, h1, hcap, hok, hfail⟩ := filewrite_spec hf₁ src pgsize
  have hsucc : (i + 1) * pgsize = i * pgsize + pgsize := Nat.succ_mul _ _
  simp only [seekTo_off] at hcap hok hfail
  refine ⟨m, hm, ?_, hcap, fun h => (hok (by omega)).1, fun h => (hfail (by omega)).1⟩
  unfold swapfileWritePage
  rw [fileseek_of_le hseek]
  exact h1

/-- `swapfile_write_page(src, i)` of a page that fits. -/
theorem swapfileWritePage_of_fits {f : SwapFile} (hf : f.Wf) (src : Nat → UInt8) {i : Nat}
    (hseek : f.bmapSize + i * pgsize ≤ f.size)
    (hfit : f.bmapSize + (i + 1) * pgsize ≤ maxfile * bsize) :
    swapfileWritePage f src i = (f.seekTo (f.bmapSize + i * pgsize)).put src pgsize := by
  obtain ⟨m, -, h, -, hok, -⟩ := swapfileWritePage_spec hf src hseek
  rw [h, hok hfit]

/-- **`swapfile_read_page(dst, i)`** of a page within the file: `dst` holds its bytes. -/
theorem swapfileReadPage_of_le {f : SwapFile} (hf : f.Wf) (dst : Nat → UInt8) {i : Nat}
    (hin : f.bmapSize + (i + 1) * pgsize ≤ f.size) :
    swapfileReadPage f dst i =
      .ok (f.seekTo (f.bmapSize + i * pgsize + pgsize),
        overlay dst 0 pgsize fun a => f.data (f.bmapSize + i * pgsize + a)) := by
  have hsucc : (i + 1) * pgsize = i * pgsize + pgsize := Nat.succ_mul _ _
  have hseek : f.bmapSize + i * pgsize ≤ f.size := by omega
  have hread := fileread_of_le (hf.seek hseek) dst (n := pgsize)
    (by simp only [seekTo_off, seekTo_size]; omega)
  simp only [swapfileReadPage, Nat.not_lt.mpr hin, if_false, pure_bind, fileseek_of_le hseek,
    hread]
  rfl

/-- **`swapfile_read_page(dst, i)` of a page the file does not hold panics** when the
zeros `filetruncate` writes from the offset pass the bound of `writei`. -/
theorem swapfileReadPage_fails {f : SwapFile} (hf : f.Wf) (dst : Nat → UInt8) {i : Nat}
    (hshort : f.size < f.bmapSize + (i + 1) * pgsize)
    (hover : maxfile * bsize < f.off + (f.bmapSize + (i + 1) * pgsize)) :
    swapfileReadPage f dst i = .error "swapfile_read_page: filetruncate" := by
  have htr := filetruncate_fails hf hshort hover
  simp only [swapfileReadPage, hshort, if_true, htr]
  rfl

/-- **`swapfile_free_page(i)`** of a page within the file: its bit cleared and its bytes
zeroed. -/
theorem swapfileFreePage_of_le {f : SwapFile} (hf : f.Wf) {i : Nat} (hi : i / 8 < f.size)
    (hseek : f.bmapSize + i * pgsize ≤ f.size)
    (hfit : f.bmapSize + (i + 1) * pgsize ≤ maxfile * bsize) :
    swapfileFreePage f i =
      .ok (((f.setBit false i).seekTo (f.bmapSize + i * pgsize)).put (fun _ => 0) pgsize) := by
  have hset := swapfileBitmapSet_spec hf false hi
  simp only [swapfileFreePage, hset]
  show Except.ok (swapfileWritePage (f.setBit false i) (fun _ => 0) i) = _
  rw [swapfileWritePage_of_fits (hf.setBit false hi) _ hseek hfit]
  rfl

/-- **The file `swapinit_file` creates**: a bitmap of `bmap_size` zero bytes, and nothing
more, when the bitmap fits below the bound of `writei`. -/
theorem swapinitFile_eq (kernEnd : Nat) (hB : swapBmapSize kernEnd ≤ maxfile * bsize) :
    swapinitFile kernEnd =
      .ok { size := swapBmapSize kernEnd, data := fun _ => 0, off := swapBmapSize kernEnd,
            readbuf := fun _ => 0, bmapSize := swapBmapSize kernEnd } := by
  have hpos : 0 < swapBmapSize kernEnd := Nat.succ_pos _
  have hmw := maxWrite_eq
  have hloop := filetruncateLoop_fits (swapBmapSize kernEnd)
    { size := 0, data := fun _ => 0, off := 0, readbuf := fun _ => 0,
      bmapSize := swapBmapSize kernEnd } (swapBmapSize kernEnd) ⟨le_rfl, Nat.zero_le _⟩
    (by omega) (by rw [hmw]; push_cast; omega) (by simp only; omega)
  have hzero : overlay (fun _ => (0 : UInt8)) 0 (swapBmapSize kernEnd) (fun _ => 0) = fun _ => 0 := by
    funext a; unfold overlay; split_ifs <;> rfl
  simp only [swapinitFile, SwapFile.filetruncate, Nat.not_lt.mpr (Nat.zero_le _), if_false,
    Nat.ne_of_lt hpos, hloop]
  simp [SwapFile.put, hzero]
  rfl

/-! ## The swap file stores the slots of the specification -/

/-- How many whole pages the swap file holds after a bitmap of `B` bytes. -/
def swapCapacity (B : Nat) : Nat := (maxfile * bsize - B) / pgsize

/-- **The swap file stores the slots of `s`.**  After the bitmap of `B` bytes come `t`
page slots, all within the bound of `writei`; the bitmap has exactly the bits of the
slots in use, and each slot in use holds its page. -/
structure Stores (B t : Nat) (f : SwapFile) (s : SlotStore.State (Nat → UInt8)) : Prop where
  bmap : f.bmapSize = B
  bmap_le : B ≤ maxfile * bsize
  size : f.size = B + t * pgsize
  fits : t ≤ swapCapacity B
  off_le : f.off ≤ f.size
  used_lt : ∀ i ∈ s.used, i < t
  bits : ∀ i < B * 8, swapfileBitmapIsUsed (f.data (i / 8)) i = decide (i ∈ s.used)
  pages : ∀ i ∈ s.used, ∀ a < pgsize, f.data (B + i * pgsize + a) = s.content i a

/-- INTERNAL: a slot below the capacity lies within the bound of `writei`. -/
theorem page_fits_of_lt_capacity {B i : Nat} (hi : i < swapCapacity B) :
    B + (i + 1) * pgsize ≤ maxfile * bsize := by
  unfold swapCapacity at hi
  rw [show pgsize = 4096 from rfl, maxfile_mul_bsize] at hi ⊢
  omega

/-- INTERNAL: the capacity is at most seventeen pages. -/
theorem swapCapacity_le (B : Nat) : swapCapacity B ≤ 17 := by
  unfold swapCapacity
  rw [maxfile_mul_bsize, show pgsize = 4096 from rfl]
  omega

/-- INTERNAL: the bits of the bitmap after `swapfile_bitmap_set(bit, j)`. -/
theorem isUsed_setBit (f : SwapFile) (bit : Bool) (j k : Nat) :
    swapfileBitmapIsUsed ((f.setBit bit j).data (k / 8)) k =
      if k = j then bit else swapfileBitmapIsUsed (f.data (k / 8)) k := by
  rw [setBit_data]
  by_cases hkj : k / 8 = j / 8
  · rw [hkj, Function.update_self, swapfileBitmapIsUsed_byte _ _ hkj, ← hkj]
  · rw [Function.update_of_ne hkj, if_neg (fun h => hkj (by rw [h]))]

/-- INTERNAL: a page slot other than `i` does not meet the window of slot `i`. -/
theorem page_disjoint {B i i' a : Nat} (hne : i' ≠ i) (ha : a < pgsize) :
    B + i' * pgsize + a < B + i * pgsize ∨ B + i * pgsize + pgsize ≤ B + i' * pgsize + a := by
  rcases Nat.lt_or_gt_of_ne hne with hlt | hlt
  · left
    have : (i' + 1) * pgsize ≤ i * pgsize := Nat.mul_le_mul_right _ hlt
    rw [Nat.succ_mul] at this
    omega
  · right
    have : (i + 1) * pgsize ≤ i' * pgsize := Nat.mul_le_mul_right _ hlt
    rw [Nat.succ_mul] at this
    omega

section Stores

variable {B t : Nat} {f : SwapFile} {s : SlotStore.State (Nat → UInt8)}

theorem Stores.wf (h : Stores B t f s) : f.Wf := by
  refine ⟨h.off_le, ?_⟩
  rw [h.size]
  rcases Nat.eq_zero_or_pos t with ht | ht
  · rw [ht]; simpa using h.bmap_le
  · have := page_fits_of_lt_capacity (B := B) (i := t - 1) (by have := h.fits; omega)
    rwa [Nat.sub_add_cancel ht] at this

/-- INTERNAL: the page slots below `t` lie within the file. -/
theorem Stores.page_le (h : Stores B t f s) {i : Nat} (hi : i < t) :
    f.bmapSize + i * pgsize + pgsize ≤ f.size := by
  rw [h.bmap, h.size, Nat.add_assoc, ← Nat.succ_mul]
  exact Nat.add_le_add_left (Nat.mul_le_mul_right _ hi) _

/-- INTERNAL: a slot in use lies within the bitmap and below the capacity. -/
theorem Stores.mem_lt (h : Stores B t f s) (hcap : swapCapacity B ≤ B * 8) {i : Nat}
    (hi : i ∈ s.used) : i < swapCapacity B ∧ i < B * 8 := by
  have := h.used_lt i hi
  have := h.fits
  omega

/-- INTERNAL: only the offset changes when the file is moved within itself. -/
theorem Stores.seekTo (h : Stores B t f s) {o : Nat} (ho : o ≤ f.size) :
    Stores B t (f.seekTo o) s :=
  { h with off_le := ho }

/-- INTERNAL: `swapfile_get_free_page()` of a store hands out the least slot `j` not in
use, and marks it; the file it leaves is well formed. -/
theorem Stores.getFreePage (h : Stores B t f s) {j : Nat} (hjB : j < B * 8) (hjc : j ≤ swapCapacity B)
    (hused : ∀ k < j, k ∈ s.used) (hfree : j ∉ s.used) :
    ∃ r, swapfileGetFreePage f = .ok ((f.setBit true j).withReadbuf r, j) ∧
      ((f.setBit true j).withReadbuf r).Wf := by
  obtain ⟨r, hget⟩ := swapfileGetFreePage_spec h.wf (by rw [h.bmap, h.size]; omega) (h.bmap ▸ hjB)
    (by have := swapCapacity_le B; rw [show pgsize = 4096 from rfl]; omega)
    (fun k hk => by rw [h.bits k (by omega)]; simpa using hused k hk)
    (by rw [h.bits _ hjB]; simpa using hfree)
  refine ⟨r, hget, ⟨?_, h.wf.size_le⟩⟩
  simp only [withReadbuf_off, setBit_off, withReadbuf_size, setBit_size]
  rw [h.size]
  omega

/-- **`swapfile_free_page(i)` of a slot in use frees it.** -/
theorem Stores.freePage (h : Stores B t f s) (hcap : swapCapacity B ≤ B * 8) {i : Nat}
    (hi : i ∈ s.used) :
    ∃ f', swapfileFreePage f i = .ok f' ∧ Stores B t f' { s with used := s.used.erase i } := by
  obtain ⟨hicap, hiB⟩ := h.mem_lt hcap hi
  have hit := h.used_lt i hi
  have hend := h.page_le hit
  have hbyte : i / 8 < f.size := by rw [h.size]; omega
  refine ⟨_, swapfileFreePage_of_le h.wf hbyte (by omega)
    (h.bmap ▸ page_fits_of_lt_capacity hicap), ?_⟩
  refine { bmap := h.bmap, bmap_le := h.bmap_le, size := ?_, fits := h.fits, off_le := ?_,
           used_lt := fun i' hi' => h.used_lt i' (Finset.mem_of_mem_erase hi'),
           bits := ?_, pages := ?_ }
  · simp only [put_size, seekTo_off, seekTo_size, setBit_size]
    rw [← h.size]; omega
  · simp only [put_size, put_off, seekTo_off, seekTo_size, setBit_size]; omega
  · intro k hk
    simp only [put_data, seekTo_data, seekTo_off]
    rw [overlay_of_not_mem _ (Or.inl (by rw [h.bmap]; omega)), isUsed_setBit, h.bits k hk]
    by_cases hki : k = i
    · simp [hki]
    · simp [hki]
  · intro i' hi' a ha
    have hne : i' ≠ i := Finset.ne_of_mem_erase hi'
    simp only [put_data, seekTo_data, seekTo_off, h.bmap]
    rw [overlay_of_not_mem _ (page_disjoint hne ha), setBit_data, Function.update_of_ne (by omega),
      h.pages i' (Finset.mem_of_mem_erase hi') a ha]

/-- **`swapwrite_file`'s calls store the page in the least free slot.** -/
theorem Stores.write (h : Stores B t f s) (hcap : swapCapacity B ≤ B * 8)
    (hroom : s.used.card < swapCapacity B) (src : Nat → UInt8) :
    ∃ f', swapfileStep f (.write src) = .ok (f', .page s.free) ∧
      Stores B (max t (s.free + 1)) f' (SlotStore.step s (.store src)).1 := by
  have hjcap := s.free_lt_of_card_lt hroom
  have hjB : s.free < B * 8 := by omega
  -- the slots in use are below `t`, so the least free one is at most `t`
  have hjt : s.free ≤ t := by
    have hsub : s.used ⊆ Finset.range t := fun i hi => Finset.mem_range.mpr (h.used_lt i hi)
    have := Finset.card_le_card hsub
    rw [Finset.card_range] at this
    exact le_trans s.free_le_card this
  have hfit := page_fits_of_lt_capacity hjcap
  obtain ⟨r, hget, hgW⟩ := h.getFreePage hjB hjcap.le (fun k hk => s.mem_of_lt_free hk) s.free_notMem
  set g := (f.setBit true s.free).withReadbuf r with hg
  have hseek : g.bmapSize + s.free * pgsize ≤ g.size := by
    simp only [hg, withReadbuf_bmapSize, setBit_bmapSize, withReadbuf_size, setBit_size]
    rw [h.bmap, h.size]
    exact Nat.add_le_add_left (Nat.mul_le_mul_right _ hjt) _
  have hwrite := swapfileWritePage_of_fits hgW src hseek
    (by simp only [hg, withReadbuf_bmapSize, setBit_bmapSize]; rw [h.bmap]; exact hfit)
  refine ⟨(g.seekTo (g.bmapSize + s.free * pgsize)).put src pgsize,
    by simp only [swapfileStep, hget, Run.ok_bind, hwrite]; rfl, ?_⟩
  have hgB : g.bmapSize = B := h.bmap
  refine { bmap := h.bmap, bmap_le := h.bmap_le, size := ?_, fits := ?_, off_le := ?_,
           used_lt := ?_, bits := ?_, pages := ?_ }
  · simp only [put_size, seekTo_size, seekTo_off, hgB]
    simp only [hg, withReadbuf_size, setBit_size]
    rw [h.size, show pgsize = 4096 from rfl]
    omega
  · exact max_le h.fits (by omega)
  · simp only [put_size, put_off]; omega
  · intro i hi
    rcases Finset.mem_insert.mp hi with rfl | hi
    · omega
    · exact lt_of_lt_of_le (h.used_lt i hi) (le_max_left _ _)
  · intro k hk
    simp only [put_data, seekTo_data, seekTo_off, hgB]
    rw [overlay_of_not_mem _ (Or.inl (by omega)), hg, withReadbuf_data, isUsed_setBit,
      h.bits k hk]
    by_cases hkj : k = s.free
    · simp [SlotStore.step, hkj]
    · simp [SlotStore.step, hkj]
  · intro i hi a ha
    simp only [SlotStore.step, put_data, seekTo_data, seekTo_off, hgB]
    by_cases hij : i = s.free
    · subst hij
      rw [overlay_of_mem _ (by omega) (by omega), Nat.add_sub_cancel_left, Function.update_self]
    · have hiu : i ∈ s.used := (Finset.mem_insert.mp hi).resolve_left hij
      rw [overlay_of_not_mem _ (page_disjoint hij ha), hg, withReadbuf_data, setBit_data,
        Function.update_of_ne (by omega), h.pages i hiu a ha, Function.update_of_ne hij]

/-- **`swapread_file`'s calls return the page of a slot in use and free the slot.** -/
theorem Stores.read (h : Stores B t f s) (hcap : swapCapacity B ≤ B * 8) {i : Nat}
    (hi : i ∈ s.used) (dst : Nat → UInt8) :
    ∃ f' dst', swapfileStep f (.read i dst) = .ok (f', .frame dst') ∧
      (∀ a < pgsize, dst' a = s.content i a) ∧
      Stores B t f' { s with used := s.used.erase i } := by
  have hend := h.page_le (h.used_lt i hi)
  have hread := swapfileReadPage_of_le h.wf dst (i := i) (by rw [Nat.succ_mul]; omega)
  obtain ⟨f', hfree, hf'⟩ := (h.seekTo (o := f.bmapSize + i * pgsize + pgsize) hend).freePage
    hcap hi
  refine ⟨f', _, by simp only [swapfileStep, hread, Run.ok_bind, hfree]; rfl, ?_, hf'⟩
  intro a ha
  rw [overlay_of_mem _ (Nat.zero_le a) (by omega), Nat.sub_zero, h.bmap, h.pages i hi a ha]

/-- **`swapfree_file`'s call frees a slot in use.** -/
theorem Stores.free (h : Stores B t f s) (hcap : swapCapacity B ≤ B * 8) {i : Nat}
    (hi : i ∈ s.used) :
    ∃ f', swapfileStep f (.free i) = .ok (f', .freed) ∧
      Stores B t f' { s with used := s.used.erase i } := by
  obtain ⟨f', hfree, hf'⟩ := h.freePage hcap hi
  exact ⟨f', by simp only [swapfileStep, hfree]; rfl, hf'⟩

end Stores

/-- INTERNAL: the store with every slot below the capacity in use, with the file it
leaves: the bits of slots `0 … capacity` set and the others clear, and the file ending
inside the slot after the capacity. -/
theorem Stores.write_full_spec {B t : Nat} {f : SwapFile} {s : SlotStore.State (Nat → UInt8)}
    (h : Stores B t f s) (hcap : swapCapacity B < B * 8)
    (hfull : s.used = Finset.range (swapCapacity B)) (src : Nat → UInt8) :
    ∃ f', swapfileStep f (.write src) = .ok (f', .page (swapCapacity B)) ∧ f'.Wf ∧
      f'.bmapSize = B ∧ B + swapCapacity B * pgsize ≤ f'.size ∧
      f'.size < B + (swapCapacity B + 1) * pgsize ∧
      ∀ k < B * 8, swapfileBitmapIsUsed (f'.data (k / 8)) k = decide (k ≤ swapCapacity B) := by
  have hfree := s.free_eq_of_used_eq_range hfull
  -- the file has exactly the capacity's slots
  have ht : t = swapCapacity B := by
    refine le_antisymm h.fits ?_
    by_contra hlt
    have hmem : t ∈ s.used := by rw [hfull]; exact Finset.mem_range.mpr (by omega)
    exact absurd (h.used_lt t hmem) (lt_irrefl t)
  have hpg : pgsize = 4096 := rfl
  obtain ⟨r, hget, hgW⟩ := h.getFreePage hcap le_rfl (fun k hk => by rw [hfull]; simpa using hk)
    (by rw [hfull]; simp)
  set g := (f.setBit true (swapCapacity B)).withReadbuf r with hg
  have hgB : g.bmapSize = B := h.bmap
  have hgsize : g.size = B + swapCapacity B * pgsize := by rw [← ht, ← h.size]; rfl
  -- the slot after the capacity passes the bound of `writei`
  have hover : maxfile * bsize < B + (swapCapacity B + 1) * pgsize := by
    have hlt : maxfile * bsize - B < pgsize * ((maxfile * bsize - B) / pgsize + 1) :=
      Nat.lt_mul_div_succ _ (by rw [hpg]; omega)
    have := h.bmap_le
    rw [show swapCapacity B = (maxfile * bsize - B) / pgsize from rfl,
      Nat.mul_comm ((maxfile * bsize - B) / pgsize + 1)]
    omega
  obtain ⟨m, hm, hwrite, hcapm, -, hshort⟩ :=
    swapfileWritePage_spec hgW src (i := swapCapacity B) (by rw [hgB, hgsize])
  have hmlt := hshort (by rw [hgB]; exact hover)
  rw [hgB] at hwrite hcapm
  refine ⟨_, by simp only [swapfileStep, hget, Run.ok_bind, hwrite]; rfl,
    (hgW.seek (by rw [hgsize])).put (by simpa using hcapm), by simp [hgB], ?_, ?_, ?_⟩
  · simp only [put_size, seekTo_size, hgsize]
    omega
  · simp only [put_size, seekTo_size, seekTo_off, hgsize]
    rw [Nat.succ_mul]
    omega
  · -- the page goes after the bitmap, which has the bits of slots `0 … capacity`
    intro k hk
    simp only [put_data, seekTo_data, seekTo_off]
    rw [overlay_of_not_mem _ (Or.inl (by omega)), hg, withReadbuf_data, isUsed_setBit,
      h.bits k hk, hfull]
    by_cases hkc : k = swapCapacity B
    · simp [hkc]
    · simp only [hkc, if_false, Finset.mem_range]
      congr 1
      exact propext ⟨fun h => by omega, fun h => by omega⟩

/-- **A store with every slot below the capacity in use is cut short.**  The bitmap still
has room, so `swapwrite_file`'s calls allocate the next slot, but only part of its page
fits in the file. -/
theorem Stores.write_full {B t : Nat} {f : SwapFile} {s : SlotStore.State (Nat → UInt8)}
    (h : Stores B t f s) (hcap : swapCapacity B < B * 8)
    (hfull : s.used = Finset.range (swapCapacity B)) (src : Nat → UInt8) :
    ∃ f', swapfileStep f (.write src) = .ok (f', .page (swapCapacity B)) ∧ f'.Wf ∧
      f'.bmapSize = B ∧ f'.size < B + (swapCapacity B + 1) * pgsize := by
  obtain ⟨f', hstep, hW, hB, -, hshort, -⟩ := h.write_full_spec hcap hfull src
  exact ⟨f', hstep, hW, hB, hshort⟩

/-! ## Runs from the file `swapinit_file` creates -/

/-- INTERNAL: the bitmap of a kernel image that ends below 4 MiB, as `kinit1(end,
P2V(4*1024*1024))` assumes (main.c), has between 7040 and 7168 bytes. -/
theorem swapBmapSize_bounds {kernEnd : Nat} (hk : kernEnd ≤ 0x400000) :
    7040 ≤ swapBmapSize kernEnd ∧ swapBmapSize kernEnd ≤ 7168 := by
  unfold swapBmapSize phystop pgsize
  omega

/-- **The swap file holds fifteen pages**, for every kernel image that ends below 4 MiB,
while its bitmap has a bit for each of the frames above the kernel. -/
theorem swapCapacity_swapBmapSize {kernEnd : Nat} (hk : kernEnd ≤ 0x400000) :
    swapCapacity (swapBmapSize kernEnd) = 15 := by
  have := swapBmapSize_bounds hk
  unfold swapCapacity
  rw [maxfile_mul_bsize, show pgsize = 4096 from rfl]
  omega

/-- INTERNAL: the file `swapinit_file` creates stores the empty store. -/
theorem stores_swapinitFile {kernEnd : Nat} (hk : kernEnd ≤ 0x400000) :
    ∃ f, swapinitFile kernEnd = .ok f ∧
      Stores (swapBmapSize kernEnd) 0 f (SlotStore.State.empty fun _ => 0) := by
  have hB := swapBmapSize_bounds hk
  refine ⟨_, swapinitFile_eq kernEnd (by rw [maxfile_mul_bsize]; omega), ?_⟩
  exact { bmap := rfl, bmap_le := by rw [maxfile_mul_bsize]; omega, size := by simp,
          fits := Nat.zero_le _, off_le := le_rfl,
          used_lt := by simp [SlotStore.State.empty],
          bits := by simp [SlotStore.State.empty],
          pages := by simp [SlotStore.State.empty] }

/-- INTERNAL: the capacity of such a file is within its bitmap. -/
theorem swapCapacity_lt_bits {kernEnd : Nat} (hk : kernEnd ≤ 0x400000) :
    swapCapacity (swapBmapSize kernEnd) < swapBmapSize kernEnd * 8 := by
  rw [swapCapacity_swapBmapSize hk]
  have := swapBmapSize_bounds hk
  omega

/-- INTERNAL: the writes of the pages `srcs 0, …, srcs (k - 1)`. -/
def pageWrites (srcs : Nat → Nat → UInt8) (k : Nat) : List SwapFileOp :=
  (List.range k).map fun i => .write (srcs i)

/-- INTERNAL: one more write of a run of writes, given slot `k`. -/
theorem runE_pageWrites_succ {srcs : Nat → Nat → UInt8} {f F F' : SwapFile} {k : Nat}
    (hrun : Run.runE swapfileStep f (pageWrites srcs k) = .ok (F, (List.range k).map SwapFileOut.page))
    (hstep : swapfileStep F (.write (srcs k)) = .ok (F', .page k)) :
    Run.runE swapfileStep f (pageWrites srcs (k + 1)) = .ok (F', (List.range (k + 1)).map SwapFileOut.page) := by
  rw [pageWrites, List.range_succ, List.map_append, List.map_append, List.map_singleton,
    List.map_singleton]
  exact Run.runE_snoc_ok hrun hstep

/-- INTERNAL: the step of slot `k` of a run of writes that goes on to slot `k`. -/
theorem step_of_runE_pageWrites_succ {srcs : Nat → Nat → UInt8} {f F F' : SwapFile} {k : Nat}
    (hrun : Run.runE swapfileStep f (pageWrites srcs k) = .ok (F, (List.range k).map SwapFileOut.page))
    (hext : Run.runE swapfileStep f (pageWrites srcs (k + 1)) =
      .ok (F', (List.range (k + 1)).map SwapFileOut.page)) :
    swapfileStep F (.write (srcs k)) = .ok (F', .page k) := by
  rw [pageWrites, List.range_succ, List.map_append, List.map_append, List.map_singleton,
    List.map_singleton] at hext
  exact Run.runE_snoc_step hrun hext

/-- INTERNAL: writing the pages `srcs 0, …, srcs (k - 1)` to a file storing nothing
allocates slots `0 … k - 1` in order and stores them, up to the capacity. -/
theorem stores_writes {B : Nat} {f : SwapFile}
    (h0 : Stores B 0 f (SlotStore.State.empty fun _ => 0)) (hcap : swapCapacity B ≤ B * 8)
    (srcs : Nat → Nat → UInt8) :
    ∀ k ≤ swapCapacity B, ∃ f' c,
      Run.runE swapfileStep f ((List.range k).map fun i => .write (srcs i)) =
        .ok (f', (List.range k).map SwapFileOut.page) ∧ Stores B k f' ⟨Finset.range k, c⟩ := by
  intro k
  induction k with
  | zero => exact fun _ => ⟨f, fun _ _ => 0, rfl, h0⟩
  | succ k ih =>
      intro hk
      obtain ⟨f', c, hrun, hk'⟩ := ih (by omega)
      have hfree : (⟨Finset.range k, c⟩ : SlotStore.State (Nat → UInt8)).free = k :=
        SlotStore.State.free_eq_of_used_eq_range _ rfl
      obtain ⟨f'', hstep, hk''⟩ := hk'.write hcap (by simp; omega) (srcs k)
      rw [hfree] at hstep
      simp only [SlotStore.step, hfree, max_eq_right (Nat.le_succ k)] at hk''
      refine ⟨f'', Function.update c k (srcs k), runE_pageWrites_succ hrun hstep, ?_⟩
      rwa [Finset.range_add_one]

/-- **The swap file loses the sixteenth page in use.**  For every kernel image that ends
below 4 MiB and every sixteen pages: from the file `swapinit_file` creates,
`swapwrite_file`'s calls for the sixteen pages succeed and are given slots `0 … 15`,
well within the bitmap's 7040 bytes.  But `writei` stops the file at
`MAXFILE * BSIZE = 71680` bytes, so page 15 is cut short.  Reading it back,
`swapread_file`'s first call panics, since the `filetruncate` that should extend the
file cannot. -/
theorem swapfile_sixteenth_page_lost (kernEnd : Nat) (hk : kernEnd ≤ 0x400000)
    (srcs : Nat → Nat → UInt8) (dst : Nat → UInt8) :
    ∃ f, swapinitFile kernEnd = .ok f ∧
      (∃ f', Run.runE swapfileStep f ((List.range 16).map fun i => .write (srcs i)) =
        .ok (f', (List.range 16).map SwapFileOut.page)) ∧
      Run.runE swapfileStep f ((List.range 16).map (fun i => .write (srcs i)) ++ [.read 15 dst]) =
        .error "swapfile_read_page: filetruncate" := by
  have h15 := swapCapacity_swapBmapSize hk
  have hbits := swapCapacity_lt_bits hk
  obtain ⟨f, hf, h0⟩ := stores_swapinitFile hk
  -- the first fifteen pages fill the file
  obtain ⟨f₁₅, c, hrun₁₅, hs₁₅⟩ := stores_writes h0 hbits.le srcs 15 h15.ge
  -- the sixteenth is given slot 15 and cut short
  obtain ⟨f₁₆, hstep, hW, hB, hshort⟩ :=
    hs₁₅.write_full hbits (by rw [h15]) (srcs 15)
  rw [h15] at hstep hshort
  have hrun₁₆ := runE_pageWrites_succ hrun₁₅ hstep
  refine ⟨f, hf, ⟨f₁₆, hrun₁₆⟩, Run.runE_append_error hrun₁₆ ?_⟩
  -- reading slot 15 back has to extend the file past its bound
  have hread := swapfileReadPage_fails hW dst (i := 15) (by rw [hB]; exact hshort)
    (by have := swapBmapSize_bounds hk; rw [hB, show pgsize = 4096 from rfl, maxfile_mul_bsize]
        omega)
  apply Run.runE_cons_error
  simp only [swapfileStep, hread]
  rfl

/-- The sixteenth page lost, for a kernel image ending at 2 MiB and pages of zeros. -/
theorem swapfile_sixteenth_page_lost_at_2MiB :
    (0x200000 : Nat) ≤ 0x400000 ∧
    ∃ f, swapinitFile 0x200000 = .ok f ∧
      (∃ f', Run.runE swapfileStep f ((List.range 16).map fun _ => .write fun _ => 0) =
        .ok (f', (List.range 16).map SwapFileOut.page)) ∧
      Run.runE swapfileStep f
          ((List.range 16).map (fun _ => .write fun _ => 0) ++ [.read 15 fun _ => 0]) =
        .error "swapfile_read_page: filetruncate" :=
  ⟨by decide, swapfile_sixteenth_page_lost 0x200000 (by decide) (fun _ _ => 0) (fun _ => 0)⟩

/-! ## A seventeenth page -/

/-- **A write after the page cut short lands in the bitmap.**  The bit `j` after those in
use is allocated, but its slot starts past the end of the file: the `fileseek` of
`swapfile_write_page` fails, unchecked, and the page is written where the bitmap update
left the offset, at the byte after the bit's. -/
theorem write_into_bitmap {f : SwapFile} (hf : f.Wf) {j : Nat} (hB : f.bmapSize ≤ f.size)
    (hj : j < f.bmapSize * 8) (hchunk : j < pgsize * 8)
    (hbits : ∀ k < f.bmapSize * 8, swapfileBitmapIsUsed (f.data (k / 8)) k = decide (k < j))
    (hpast : f.size < f.bmapSize + j * pgsize) (hroom : j / 8 + 1 + pgsize ≤ maxfile * bsize)
    (src : Nat → UInt8) :
    ∃ f', swapfileStep f (.write src) = .ok (f', .page j) ∧ f'.bmapSize = f.bmapSize ∧
      ∀ b < pgsize, f'.data (j / 8 + 1 + b) = src b := by
  obtain ⟨r, hget⟩ := swapfileGetFreePage_spec hf hB hj hchunk
    (fun k hk => by rw [hbits k (by omega)]; simpa using hk) (by rw [hbits j hj]; simp)
  set g := (f.setBit true j).withReadbuf r with hg
  have hgW : g.Wf := by
    refine ⟨?_, hf.size_le⟩
    simp only [hg, withReadbuf_off, setBit_off, withReadbuf_size, setBit_size]
    omega
  -- the slot of bit `j` is past the end of the file, so the offset stays after the bit
  have hseek : g.fileseek (g.bmapSize + j * pgsize) = (g, -1) :=
    fileseek_of_lt (by simpa [hg] using hpast)
  have hwrite := filewrite_of_fits hgW src (n := pgsize) (by simpa [hg] using hroom)
  refine ⟨g.put src pgsize, ?_, by simp [hg], fun b hb => ?_⟩
  · simp only [swapfileStep, hget, Run.ok_bind, swapfileWritePage, hseek, hwrite]
    rfl
  · simp only [put_data, hg, withReadbuf_off, setBit_off]
    rw [overlay_of_mem _ (by omega) (by omega), Nat.add_sub_cancel_left]

/-- **The swap file takes seventeen pages, the last one into its bitmap.**  For every kernel
image that ends below 4 MiB, from the file `swapinit_file` creates, the writes of
seventeen pages succeed with slots `0 … 16`: fifteen fill the file, the sixteenth is cut
short, and the seventeenth is written from byte 3 on, over the bitmap. -/
theorem swapfile_writes_seventeen {kernEnd : Nat} (hk : kernEnd ≤ 0x400000) (srcs : Nat → Nat → UInt8) :
    ∃ f, swapinitFile kernEnd = .ok f ∧
      (∀ k ≤ 17, ∃ F, Run.runE swapfileStep f (pageWrites srcs k) =
        .ok (F, (List.range k).map SwapFileOut.page)) ∧
      ∃ F, Run.runE swapfileStep f (pageWrites srcs 17) = .ok (F, (List.range 17).map SwapFileOut.page) ∧
        F.bmapSize = swapBmapSize kernEnd ∧ ∀ b < pgsize, F.data (3 + b) = srcs 16 b := by
  have h15 := swapCapacity_swapBmapSize hk
  have hbits := swapCapacity_lt_bits hk
  have hB := swapBmapSize_bounds hk
  obtain ⟨f, hf, h0⟩ := stores_swapinitFile hk
  have hfew : ∀ k ≤ 15, ∃ F, Run.runE swapfileStep f (pageWrites srcs k) =
      .ok (F, (List.range k).map SwapFileOut.page) := fun k hk' => by
    obtain ⟨F, c, hrun, -⟩ := stores_writes h0 hbits.le srcs k (by omega)
    exact ⟨F, hrun⟩
  -- the first fifteen pages fill the file, and the sixteenth is cut short
  obtain ⟨f₁₅, c, hrun₁₅, hs₁₅⟩ := stores_writes h0 hbits.le srcs 15 h15.ge
  obtain ⟨f₁₆, hstep₁₆, hW, hB₁₆, hlow, hshort, hbits₁₆⟩ :=
    hs₁₅.write_full_spec hbits (by rw [h15]) (srcs 15)
  rw [h15] at hstep₁₆ hlow hshort hbits₁₆
  have hrun₁₆ := runE_pageWrites_succ hrun₁₅ hstep₁₆
  -- the seventeenth: bit 16 is free, and its slot is past the end of the file
  have hpg : pgsize = 4096 := rfl
  obtain ⟨f₁₇, hstep₁₇, hB₁₇, hdata⟩ := write_into_bitmap hW (j := 16)
    (by rw [hB₁₆]; omega) (by rw [hB₁₆]; omega) (by rw [hpg]; omega)
    (fun k hk' => by rw [hbits₁₆ k (by rw [← hB₁₆]; exact hk')]; simp only [Nat.lt_succ_iff])
    (by rw [hB₁₆]; omega) (by rw [maxfile_mul_bsize, hpg]; omega) (srcs 16)
  have hrun₁₇ := runE_pageWrites_succ hrun₁₆ hstep₁₇
  refine ⟨f, hf, fun k hk' => ?_, f₁₇, hrun₁₇, by rw [hB₁₇, hB₁₆], hdata⟩
  rcases Nat.lt_or_ge k 16 with hlt | hge
  · exact hfew k (by omega)
  · rcases Nat.lt_or_ge k 17 with hlt' | hge'
    · obtain rfl : k = 16 := by omega
      exact ⟨f₁₆, hrun₁₆⟩
    · obtain rfl : k = 17 := by omega
      exact ⟨f₁₇, hrun₁₇⟩

end Xv6
