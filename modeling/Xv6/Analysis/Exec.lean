import Xv6.Model.Exec
import Xv6.Analysis.Shrink
import Xv6.Analysis.Kvm

/-!
# `exec` of a segment in page 0

`exec` starts the image at `sz = PGSIZE` and grows it with `allocuvm(pgdir, sz,
ph.vaddr + ph.memsz)` for each loadable segment.  `allocuvm` returns the old size, and
maps nothing, when the segment ends below it.  A first segment at `vaddr = 0` of at most
one page therefore reaches `loaduvm` with no page table for address 0 in the fresh page
directory, and `loaduvm` panics with `loaduvm: address should exist`
(`exec_page_zero_segment_panics`).

The equations on the way: reading a header of a regular file (`Inode.readi_of_fits`,
`Elfhdr.ofBytes_overlay`, `Proghdr.ofBytes_overlay`), `setupkvm` with 65 free frames
(`setupkvm_ok`, which leaves the user half of the page directory empty), `allocuvm` to a
size it already has (`allocuvm_of_le`), and `loaduvm` where the page table is missing
(`loaduvm_absent`).
-/

set_option autoImplicit false

namespace Xv6

open Window

/-! ## Headers -/

/-- INTERNAL: a `ushort` read from buffers that agree on its two bytes. -/
theorem le16_congr {b b' : Nat → UInt8} {o : Nat} (h : ∀ a, o ≤ a → a < o + 2 → b a = b' a) :
    le16 b o = le16 b' o := by
  simp [le16, h o le_rfl (by omega), h (o + 1) (by omega) (by omega)]

/-- INTERNAL: a `uint` read from buffers that agree on its four bytes. -/
theorem le32_congr {b b' : Nat → UInt8} {o : Nat} (h : ∀ a, o ≤ a → a < o + 4 → b a = b' a) :
    le32 b o = le32 b' o := by
  unfold le32
  rw [le16_congr fun a h₁ h₂ => h a h₁ (by omega), le16_congr fun a h₁ h₂ => h a (by omega) (by omega)]

/-- INTERNAL: a buffer `readi` filled from 0 agrees with its source below the count. -/
theorem overlay_zero_of_lt (f g : Nat → UInt8) {n a : Nat} (h : a < n) : overlay f 0 n g a = g a := by
  rw [overlay_of_mem g (Nat.zero_le a) (by omega), Nat.sub_zero]

/-- The ELF header read into a buffer is the header of the bytes read. -/
theorem Elfhdr.ofBytes_overlay (f g : Nat → UInt8) {n : Nat} (hn : 52 ≤ n) :
    Elfhdr.ofBytes (overlay f 0 n g) = Elfhdr.ofBytes g := by
  have h : ∀ a, a < 52 → overlay f 0 n g a = g a := fun a ha => overlay_zero_of_lt f g (by omega)
  have h32 : ∀ o, o + 4 ≤ 52 → le32 (overlay f 0 n g) o = le32 g o :=
    fun o ho => le32_congr fun a _ h₂ => h a (by omega)
  have h16 : le16 (overlay f 0 n g) 44 = le16 g 44 := le16_congr fun a _ h₂ => h a (by omega)
  simp only [Elfhdr.ofBytes, h32 0 (by norm_num), h32 24 (by norm_num), h32 28 (by norm_num), h16]

/-- The program header read into a buffer is the header of the bytes read. -/
theorem Proghdr.ofBytes_overlay (f g : Nat → UInt8) {n : Nat} (hn : 32 ≤ n) :
    Proghdr.ofBytes (overlay f 0 n g) = Proghdr.ofBytes g := by
  have h : ∀ a, a < 32 → overlay f 0 n g a = g a := fun a ha => overlay_zero_of_lt f g (by omega)
  have h32 : ∀ o, o + 4 ≤ 32 → le32 (overlay f 0 n g) o = le32 g o :=
    fun o ho => le32_congr fun a _ h₂ => h a (by omega)
  simp only [Proghdr.ofBytes, h32 0 (by norm_num), h32 4 (by norm_num), h32 8 (by norm_num),
    h32 16 (by norm_num), h32 20 (by norm_num)]

section Exec

variable (kernEnd kernData : Nat) (devsw : Nat → Option Devsw)

/-- `readi` of bytes that lie inside a regular file or a directory reads all of them. -/
theorem Inode.readi_of_fits {ip : Inode} (h : ip.type.IsData) (dst : Nat → UInt8) {off n : Nat}
    (hfit : off + n ≤ ip.size) (hsz : ip.size < uintMod) :
    ip.readi devsw dst off n = (((n : Nat) : Int), overlay dst 0 n fun a => ip.data (off + a)) := by
  rw [readi_of_data devsw h, if_neg (by omega), Nat.min_eq_left (by omega)]

/-! ## Building the new image -/

/-- `allocuvm` to a size the image already has maps nothing and returns the old size. -/
theorem allocuvm_of_le (s : Vm) (pgdir : Nat) {oldsz newsz : Nat} (h : newsz ≤ oldsz)
    (hal : oldsz % pgsize = 0) (hk : oldsz < kernbase) :
    allocuvm kernEnd s pgdir oldsz newsz = .ok (s, oldsz) := by
  have hup : pgroundup oldsz = oldsz :=
    pgroundup_of_aligned hal (by rw [uintMod_eq]; unfold kernbase pgsize at *; omega)
  unfold allocuvm
  rw [if_neg (by omega)]
  rcases Nat.lt_or_ge newsz oldsz with hlt | hge
  · rw [if_pos hlt]
    rfl
  · -- `newsz = oldsz`: the loop starts at `PGROUNDUP(oldsz) = newsz` and stops at once
    have heq : newsz = oldsz := le_antisymm h hge
    rw [if_neg (by omega), hup, allocuvmLoop, if_neg (by omega), heq]
    rfl

/-- An address whose page table is missing has no entry. -/
theorem walkpgdir_absent {m : Mem} {pgdir va : Nat}
    (h : hasFlag (m.word (pdeOf pgdir va)) pteP = false) :
    walkpgdir m pgdir va false = .ok (m, none) := by
  unfold walkpgdir
  simp only [pdeOf] at h
  simp [h, pure, Except.pure]

/-- `loaduvm` of a segment whose first page has no page table panics. -/
theorem loaduvm_absent (m : Mem) {pgdir addr : Nat} (ip : Inode) (offset : Nat) {sz : Nat}
    (hal : addr % pgsize = 0) (hsz : 0 < sz) (hk : addr < uintMod)
    (h : hasFlag (m.word (pdeOf pgdir addr)) pteP = false) :
    loaduvm devsw m pgdir addr ip offset sz = .error "loaduvm: address should exist" := by
  unfold loaduvm
  rw [if_neg (by omega), loaduvmLoop, if_pos hsz, Nat.add_zero, Nat.mod_eq_of_lt hk,
    walkpgdir_absent h]
  rfl

/-- **A segment in page 0 panics `exec`.**  A regular file whose ELF header has the right
magic and at least one program header, the first a loadable segment at `vaddr = 0` with
`0 < filesz ≤ memsz ≤ PGSIZE`, and 65 frames at the head of the free list for `setupkvm`:
`allocuvm(pgdir, PGSIZE, memsz)` maps nothing, the fresh page directory has no page table
for address 0, and `loaduvm` panics. -/
theorem exec_page_zero_segment_panics (s : Vm) (cur : Fin nproc) (ip : Inode)
    (argv : List (List UInt8)) (elf : Elfhdr) (ph : Proghdr) (pd : Nat) (ks rest : List Nat)
    (hty : ip.type = .file) (hsize : ip.size < 2 ^ 32) (hhdr : 52 ≤ ip.size)
    (helf : Elfhdr.ofBytes ip.data = elf) (hmagic : elf.magic = elfMagic) (hphnum : 0 < elf.phnum)
    (hoff : elf.phoff + 32 ≤ ip.size) (hph : Proghdr.ofBytes (fun a => ip.data (elf.phoff + a)) = ph)
    (htype : ph.type = elfProgLoad) (hvaddr : ph.vaddr = 0) (hfile : 0 < ph.filesz)
    (hmem : ph.filesz ≤ ph.memsz) (hpg : ph.memsz ≤ pgsize)
    (hfl : s.mem.freelist = pd :: ks ++ rest) (hks : ks.length = 64) (hfree : FreeFrames s.mem (pd :: ks))
    (hlo : extmem < kernData) (hhi : kernData < phystop) (hal : kernData % pgsize = 0) :
    exec kernEnd kernData devsw s cur ip argv = .error "loaduvm: address should exist" := by
  have hdata : ip.type.IsData := by rw [hty]; trivial
  have hmod : ip.size < uintMod := by rw [uintMod_eq]; exact hsize
  obtain ⟨k, hk⟩ : ∃ k, elf.phnum = k + 1 := ⟨elf.phnum - 1, by omega⟩
  obtain ⟨m, hsetup, hpost⟩ := setupkvm_ok kernEnd kernData s hfl hks hfree hlo hhi hal
  -- the fresh page directory has no page table for address 0
  have hpde : hasFlag (m.word (pdeOf pd 0)) pteP = false := by
    have hz : m.word (pdeOf pd 0) = 0 := by
      simpa [pdeOf, pdx] using hpost.user 0 (by decide)
    rw [hz, hasFlag_zero]
  have hload : loaduvm devsw m pd 0 ip ph.off ph.filesz = .error "loaduvm: address should exist" :=
    loaduvm_absent devsw _ ip ph.off (by decide) hfile (by rw [uintMod_eq]; decide) hpde
  -- the segment ends inside the first page, below `sz = PGSIZE`
  have halloc : allocuvm kernEnd { s with mem := m } pd pgsize (ph.memsz % uintMod) =
      .ok ({ s with mem := m }, pgsize) := by
    rw [Nat.mod_eq_of_lt (by rw [uintMod_eq]; unfold pgsize at hpg; omega)]
    exact allocuvm_of_le kernEnd _ pd hpg (by decide) (by decide)
  unfold exec
  rw [Inode.readi_of_fits devsw hdata _ (by omega) hmod]
  simp only [Elfhdr.ofBytes_overlay _ _ (le_refl 52), Nat.zero_add, helf, hmagic, ne_eq,
    not_true_eq_false, if_false]
  rw [hsetup]
  simp only [Run.ok_bind, hk, execLoadLoop, Nat.succ_pos, if_true]
  rw [Inode.readi_of_fits devsw hdata _ hoff hmod]
  simp only [Proghdr.ofBytes_overlay _ _ (le_refl 32), hph, htype, hvaddr, ne_eq, not_true_eq_false,
    if_false, Nat.not_lt.mpr hmem, Nat.zero_add, Nat.cast_ofNat, Nat.not_lt_zero, halloc,
    Run.ok_bind, show pgsize ≠ 0 by decide, Nat.zero_mod, hload, Run.error_bind]

end Exec

/-- An ELF file of 84 bytes: its header, with one program header at offset 52, a
loadable segment of 16 bytes at address 0. -/
def pageZeroElf : Inode where
  type := .file
  size := 84
  data := fun a =>
    if a = 0 then 0x7F else if a = 1 then 0x45 else if a = 2 then 0x4C else if a = 3 then 0x46
    else if a = 28 then 52 else if a = 44 then 1
    else if a = 52 then 1 else if a = 68 then 16 else if a = 72 then 16 else 0

/-- 64 free frames from `0x20000` on, for the page tables of a kernel half. -/
def kernTables : List Nat := (List.range 64).map fun k => 0x20000 + k * pgsize

/-- The process of `faultDemo` with the frame `0x12000` and then `kernTables` free. -/
def execDemo : Vm :=
  { faultDemo 0x2000 0 0 with mem := { (faultDemo 0x2000 0 0).mem with freelist := 0x12000 :: kernTables } }

/-- `exec` of that file panics, with `V2P(data)` at `0x108000`. -/
theorem exec_of_page_zero_elf_panics :
    exec 0 0x108000 (fun _ => none) execDemo ⟨0, by decide⟩ pageZeroElf [] =
      .error "loaduvm: address should exist" :=
  exec_page_zero_segment_panics 0 0x108000 (fun _ => none) execDemo ⟨0, by decide⟩ pageZeroElf []
    ⟨elfMagic, 0, 52, 1⟩ ⟨elfProgLoad, 0, 0, 16, 16⟩ 0x12000 kernTables [] rfl (by decide) (by decide) rfl rfl
    (by decide) (by decide) rfl rfl rfl (by decide) (by decide) (by decide) rfl (by decide)
    ⟨by decide, by decide, by decide, by decide⟩ (by decide) (by decide) (by decide)

end Xv6
