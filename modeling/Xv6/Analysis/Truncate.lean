import Xv6.Analysis.SwapFile

/-!
# `filetruncate` writes from the offset

`filetruncate(f, length)` (file.c:198-224) is meant to extend a file to `length` bytes of
which the new ones are zero.  Its loop hands `length` zero bytes, in `zero_array`
chunks, to `filewrite`, which writes them at the file's offset `f->off`: so the file
becomes `off + length` bytes long, and the zeros cover `[off, off + length)`.  Only a
file whose offset is 0 ends at `length`; one whose offset is within its content loses
the bytes from the offset on.

The loop itself was taken apart in `SwapFile.filetruncateLoop_fits`; here it is
assembled into what `filetruncate` returns.
-/

set_option autoImplicit false

namespace Xv6

namespace SwapFile

/-- **`filetruncate` past the size.**  For a file within its bounds whose offset plus
`length` stays within `MAXFILE * BSIZE`, a `length` beyond the size is written as
`length` zero bytes from the offset: `0` is returned, the size becomes `off + length`,
the bytes of `[off, off + length)` are zero and the others are as they were. -/
theorem filetruncate_extends_from_offset {f : SwapFile} (hf : f.Wf) {length : Nat}
    (hlt : f.size < length) (hfit : f.off + length ≤ maxfile * bsize) :
    ∃ f', f.filetruncate length = (f', 0) ∧ f'.size = f.off + length ∧
      (∀ a, f.off ≤ a → a < f.off + length → f'.data a = 0) ∧
      (∀ a, a < f.off ∨ f.off + length ≤ a → f'.data a = f.data a) := by
  have hloop := filetruncateLoop_fits length f length hf (Int.natCast_nonneg length)
    (by rw [maxWrite_eq]; push_cast; omega) (by exact_mod_cast hfit)
  rw [Int.toNat_natCast] at hloop
  refine ⟨f.put (fun _ => 0) length, ?_, ?_, fun a h₁ h₂ => ?_, fun a ha => ?_⟩
  · unfold filetruncate
    rw [if_neg (by omega), if_neg (by omega)]
    exact hloop
  · rw [put_size]
    omega
  · rw [put_data, Window.overlay_of_mem _ h₁ h₂]
  · rw [put_data, Window.overlay_of_not_mem _ ha]

/-- A file of one byte, `7`, read to its end: its offset is 1. -/
def readFile : SwapFile := ⟨1, fun _ => 7, 1, fun _ => 0, 0⟩

/-- That file truncated to two bytes is three bytes long. -/
theorem filetruncate_after_read_overshoots :
    readFile.Wf ∧ readFile.size < 2 ∧ readFile.off + 2 ≤ maxfile * bsize ∧
      ∃ f', readFile.filetruncate 2 = (f', 0) ∧ f'.size = 3 ∧
        (∀ a, readFile.off ≤ a → a < readFile.off + 2 → f'.data a = 0) ∧
        (∀ a, a < readFile.off ∨ readFile.off + 2 ≤ a → f'.data a = readFile.data a) :=
  ⟨⟨by decide, by decide⟩, by decide, by decide,
    filetruncate_extends_from_offset ⟨by decide, by decide⟩ (by decide) (by decide)⟩

end SwapFile

end Xv6
