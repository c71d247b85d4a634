import Xv6.Model.File
import Xv6.Analysis.SwapFile

/-!
# Seeking in inode files

`fileseek` sets the offset of a file from a signed `off_t`.  On a directory or a regular
file, whose size `writei` keeps at most `MAXFILE * BSIZE`:

* `SEEK_SET` and `SEEK_CUR` succeed exactly when the target offset, as an integer, lies
  in `[0, size]` (`fileseek_set`, `fileseek_cur`), and a failed seek of any kind
  changes nothing (`fileseek_fails`).
* `SEEK_END` compares the offset itself, converted to `uint`, with the size.  It accepts
  every offset in `[0, size]` and sets the file offset to `size + offset`, past the end
  for every positive offset, and it refuses the negative offsets that land inside the
  file (`fileseek_end`, `fileseek_end_escapes_file`).
-/

set_option autoImplicit false

namespace Xv6

open Window

/-! ## `int` to `uint` -/

theorem toUint_of_nonneg {x : Int} (h₀ : 0 ≤ x) (h : x < uintMod) : toUint x = x.toNat := by
  unfold toUint
  rw [Int.emod_eq_of_lt h₀ h]

theorem toUint_of_neg {x : Int} (h₀ : -(uintMod : Int) ≤ x) (h : x < 0) :
    (toUint x : Int) = x + uintMod := by
  unfold toUint
  have hm : (x + uintMod) % (uintMod : Int) = x + uintMod :=
    Int.emod_eq_of_lt (by omega) (by omega)
  rw [Int.emod_eq_add_self_emod, hm, Int.toNat_of_nonneg (by omega)]

/-! ## `readi` on the bytes of an inode -/

/-- INTERNAL: a directory or a regular file, whose bytes `readi` and `writei` reach. -/
def InodeType.IsData : InodeType → Prop
  | .dev _ => False
  | _ => True

section Devices

variable (devsw : Nat → Option Devsw)

namespace Inode

theorem readi_of_data {ip : Inode} (h : ip.type.IsData) (dst : Nat → UInt8) (off n : Nat) :
    ip.readi devsw dst off n =
      if off > ip.size ∨ uintMod ≤ off + n then (-1, dst)
      else (((min n (ip.size - off) : Nat) : Int),
        overlay dst 0 (min n (ip.size - off)) fun a => ip.data (off + a)) := by
  have hmin : (if off + n > ip.size then ip.size - off else n) = min n (ip.size - off) := by
    split_ifs <;> omega
  cases ht : ip.type <;> simp only [InodeType.IsData, ht] at h <;> simp only [readi, ht, hmin]

end Inode

namespace File

/-- The offset of a file lies inside its inode, a directory or a regular file that
`writei` keeps at most `MAXFILE * BSIZE` bytes long. -/
structure Wf (f : File) : Prop where
  data : f.ip.type.IsData
  off_le : f.off ≤ f.ip.size
  size_le : f.ip.size ≤ maxfile * bsize

theorem advance_of_lt (f : File) {m : Nat} (h : f.off + m < uintMod) :
    f.advance m = { f with off := f.off + m } := by
  unfold advance
  split_ifs with hm
  · rw [Int.toNat_natCast, Nat.mod_eq_of_lt h]
  · have : m = 0 := by omega
    subst this
    rfl

end File

end Devices

/-! ## `fileseek` -/

namespace File

/-- A failed seek, of any `whence`, leaves the file as it was. -/
theorem fileseek_fails (f : File) (offset whence : Int) (h : (f.fileseek offset whence).2 = -1) :
    (f.fileseek offset whence).1 = f := by
  simp only [fileseek] at h ⊢
  split_ifs at h ⊢ <;> rfl

/-- INTERNAL: a negative `off_t` converted to `uint` lies above every file size. -/
theorem size_lt_toUint_of_neg {o : Int} (size : Nat) (hsize : size ≤ maxfile * bsize)
    (ho : -(2 : Int) ^ 31 ≤ o) (ho₀ : o < 0) : size < toUint o ∧ (toUint o : Int) = o + uintMod := by
  have hsz := maxfile_mul_bsize
  have hu : (toUint o : Int) = o + uintMod := toUint_of_neg (by rw [uintMod_eq]; omega) ho₀
  refine ⟨?_, hu⟩
  rw [uintMod_eq] at hu
  omega

theorem fileseek_set (f : File) (hsize : f.ip.size ≤ maxfile * bsize) {o : Int}
    (ho : -(2 : Int) ^ 31 ≤ o) (ho' : o < 2 ^ 31) :
    f.fileseek o seekSet =
      if 0 ≤ o ∧ o ≤ f.ip.size then ({ f with off := o.toNat }, 0) else (f, -1) := by
  simp only [fileseek, seekSet, ↓reduceIte]
  rcases le_or_gt 0 o with ho₀ | ho₀
  · rw [toUint_of_nonneg ho₀ (by rw [uintMod_eq]; omega)]
    split_ifs <;> first | rfl | omega
  · have hlt := (size_lt_toUint_of_neg f.ip.size hsize ho ho₀).1
    rw [if_pos hlt, if_neg (by omega)]

theorem fileseek_cur (f : File) (hsize : f.ip.size ≤ maxfile * bsize) (hoff : f.off ≤ f.ip.size)
    {o : Int} (ho : -(2 : Int) ^ 31 ≤ o) (ho' : o < 2 ^ 31) :
    f.fileseek o seekCur =
      if 0 ≤ f.off + o ∧ f.off + o ≤ f.ip.size then ({ f with off := (f.off + o).toNat }, 0)
      else (f, -1) := by
  have hsz := maxfile_mul_bsize
  simp only [fileseek, seekSet, seekCur, Int.reduceEq, ↓reduceIte]
  -- the `uint` sum is the integer sum, or that plus `2^32` for a target below zero
  rcases le_or_gt 0 o with ho₀ | ho₀
  · have hmod : (f.off + toUint o) % uintMod = f.off + o.toNat := by
      rw [toUint_of_nonneg ho₀ (by rw [uintMod_eq]; omega)]
      exact Nat.mod_eq_of_lt (by rw [uintMod_eq]; omega)
    rw [hmod]
    split_ifs <;> first | omega | rfl | (congr 2; omega)
  · have hu := (size_lt_toUint_of_neg f.ip.size hsize ho ho₀).2
    by_cases hin : 0 ≤ f.off + o
    · have hmod : (f.off + toUint o) % uintMod = (f.off + o).toNat := by
        have hsplit : f.off + toUint o = (f.off + o).toNat + uintMod := by omega
        rw [hsplit, Nat.add_mod_right, Nat.mod_eq_of_lt (by rw [uintMod_eq]; omega)]
      rw [hmod]
      split_ifs <;> first | omega | rfl
    · have hmod : (f.off + toUint o) % uintMod = f.off + toUint o := Nat.mod_eq_of_lt (by omega)
      have hbig : f.ip.size < f.off + toUint o := by rw [uintMod_eq] at hu; omega
      rw [hmod, if_pos hbig, if_neg (by omega)]

theorem fileseek_end (f : File) (hsize : f.ip.size ≤ maxfile * bsize) {o : Int}
    (ho : -(2 : Int) ^ 31 ≤ o) (ho' : o < 2 ^ 31) :
    f.fileseek o seekEnd =
      if 0 ≤ o ∧ o ≤ f.ip.size then ({ f with off := f.ip.size + o.toNat }, 0) else (f, -1) := by
  have hsz := maxfile_mul_bsize
  simp only [fileseek, seekSet, seekCur, seekEnd, Int.reduceEq, ↓reduceIte]
  rcases le_or_gt 0 o with ho₀ | ho₀
  · rw [toUint_of_nonneg ho₀ (by rw [uintMod_eq]; omega),
      Nat.mod_eq_of_lt (show f.ip.size + o.toNat < uintMod by rw [uintMod_eq]; omega)]
    split_ifs <;> first | rfl | omega
  · have hlt := (size_lt_toUint_of_neg f.ip.size hsize ho ho₀).1
    rw [if_pos hlt, if_neg (by omega)]

end File

/-- **`SEEK_END` leaves the file.**  On every file of at most `MAXFILE * BSIZE` bytes,
`fileseek(f, o, SEEK_END)` with `0 < o <= size` succeeds and sets the offset to
`size + o`, past the end, and with `-size <= o < 0`, whose target lies inside the
file, it fails. -/
theorem fileseek_end_escapes_file (f : File) (hsize : f.ip.size ≤ maxfile * bsize) :
    (∀ o : Int, 0 < o → o ≤ f.ip.size →
      f.fileseek o seekEnd = ({ f with off := f.ip.size + o.toNat }, 0) ∧
        f.ip.size < f.ip.size + o.toNat) ∧
    (∀ o : Int, -(f.ip.size : Int) ≤ o → o < 0 → f.fileseek o seekEnd = (f, -1)) := by
  have hsz := maxfile_mul_bsize
  constructor
  · intro o ho ho'
    rw [File.fileseek_end f hsize (by omega) (by omega), if_pos ⟨by omega, ho'⟩]
    exact ⟨rfl, by omega⟩
  · intro o ho ho'
    rw [File.fileseek_end f hsize (by omega) (by omega), if_neg (by omega)]

/-- A ten-byte file at offset 0: `SEEK_END` by 5 moves the offset to 15, and by -5 it
fails. -/
theorem fileseek_end_escapes_ten_byte_file :
    (File.fileseek ⟨true, true, ⟨.file, 10, fun _ => 0⟩, 0⟩ 5 seekEnd).1.off = 15 ∧
      (File.fileseek ⟨true, true, ⟨.file, 10, fun _ => 0⟩, 0⟩ (-5) seekEnd).2 = -1 := by
  have h := fileseek_end_escapes_file ⟨true, true, ⟨.file, 10, fun _ => 0⟩, 0⟩ (by decide)
  rw [(h.1 5 (by decide) (by decide)).1, h.2 (-5) (by decide) (by decide)]
  exact ⟨rfl, rfl⟩

end Xv6
