import Xv6.Analysis.FreeBlocks
import Xv6.Lib.SlotTable

/-!
# A directory maps names to i-numbers: `dirlookup` looks a name up, `dirlink` inserts one

A directory of `size` bytes is a table of `size / sizeof(struct dirent)` slots (fs.h:62-65),
the entry of slot `k` being the bytes `readi` reads into a `struct dirent` from offset
`k * sizeof(de)` (`dirent`).  An entry is in use when its `inum` is not `0` and names
`name` when `namecmp` finds its name equal to `name` (`entryInUse`, `entryNames`), and the
map the directory stands for is the first-match lookup of `SlotTable` on its entries
(`lookup`): the i-number and offset of the first entry in use that names a name.

`dirlookup` computes that map (`dirlookup_finds_first_entry`), and `dirlink` inserts into
it: a name present is left as it is, and a name absent gets the first free slot, or a new
one at the end, holding the i-number truncated to a `ushort`; every name that `namecmp`
finds equal to it then maps to the new entry and every other name keeps its entry
(`dirlink_inserts_name`).  The argument is `SlotTable.lookup_insert`, with two facts
about names: `namecmp` finds names equal as an equivalence does (`strncmp_eq_zero_symm`,
`strncmp_eq_zero_trans`), and the name `strncpy` stores is equal to the name copied
(`namecmp_strncpy_self`).

Both read the directory through `readi`, which allocates the missing block of a hole; what
the directory holds stays as it was (`Keeps`).  Each fails only when `balloc` runs out of
blocks, and only on a disk with fewer free blocks than its reads and its write may take:
four for each entry read (`dirlookup_total`, `dirlink_total`).
-/

set_option autoImplicit false

namespace Xv6

open Window

namespace FsImage

/-! ## Names -/

/-- INTERNAL: `strncmp` finds `p` and `q` equal over `n` bytes from `i` when `q` agrees
with `p` up to the first `NUL` of `p`. -/
theorem strncmp_eq_zero_of_agree (p q : Nat → UInt8) :
    ∀ n i, (∀ j, i ≤ j → j < i + n → (∀ k, i ≤ k → k < j → p k ≠ 0) → q j = p j) →
      strncmp p q n i = 0 := by
  intro n
  induction n with
  | zero =>
    intro i _
    rfl
  | succ n ih =>
    intro i h
    have hi : q i = p i := h i le_rfl (by omega) fun k h₁ h₂ => absurd h₂ (by omega)
    unfold strncmp
    by_cases hp : p i ≠ 0
    · rw [if_pos ⟨hp, hi.symm⟩]
      refine ih (i + 1) fun j h₁ h₂ hbefore => h j (by omega) (by omega) fun k hk₁ hk₂ => ?_
      by_cases hk : k = i
      · rw [hk]
        exact hp
      · exact hbefore k (by omega) hk₂
    · rw [if_neg fun h' => hp h'.1, hi, sub_self]

/-- INTERNAL: a `strncmp` of zero reads the same both ways. -/
theorem strncmp_eq_zero_symm (p q : Nat → UInt8) :
    ∀ n i, strncmp p q n i = 0 → strncmp q p n i = 0 := by
  intro n
  induction n with
  | zero =>
    intro i _
    rfl
  | succ n ih =>
    intro i h
    unfold strncmp at h ⊢
    by_cases hpq : p i ≠ 0 ∧ p i = q i
    · rw [if_pos hpq] at h
      rw [if_pos ⟨hpq.2 ▸ hpq.1, hpq.2.symm⟩]
      exact ih (i + 1) h
    · -- the bytes that stop the comparison are equal, so both are `NUL`
      rw [if_neg hpq] at h
      have heq : p i = q i := UInt8.toNat_inj.mp (by omega)
      have hp0 : p i = 0 := by
        by_contra hp
        exact hpq ⟨hp, heq⟩
      rw [if_neg fun h' => h'.1 (heq ▸ hp0), heq, sub_self]

/-- INTERNAL: names `strncmp` finds equal to a third are equal. -/
theorem strncmp_eq_zero_trans (p q r : Nat → UInt8) :
    ∀ n i, strncmp p q n i = 0 → strncmp q r n i = 0 → strncmp p r n i = 0 := by
  intro n
  induction n with
  | zero =>
    intro i _ _
    rfl
  | succ n ih =>
    intro i hpq hqr
    unfold strncmp at hpq hqr ⊢
    by_cases hp : p i ≠ 0 ∧ p i = q i
    · rw [if_pos hp] at hpq
      have hq : q i ≠ 0 := hp.2 ▸ hp.1
      by_cases hq' : q i ≠ 0 ∧ q i = r i
      · rw [if_pos hq'] at hqr
        rw [if_pos ⟨hp.1, hp.2.trans hq'.2⟩]
        exact ih (i + 1) hpq hqr
      · rw [if_neg hq'] at hqr
        exact absurd ⟨hq, UInt8.toNat_inj.mp (by omega)⟩ hq'
    · -- `p` stops at a `NUL` that `q`, then `r`, has too
      rw [if_neg hp] at hpq
      have hpq' : p i = q i := UInt8.toNat_inj.mp (by omega)
      have hp0 : p i = 0 := by
        by_contra h0
        exact hp ⟨h0, hpq'⟩
      have hq' : ¬(q i ≠ 0 ∧ q i = r i) := fun h' => h'.1 (hpq' ▸ hp0)
      rw [if_neg hq'] at hqr
      have hqr' : q i = r i := UInt8.toNat_inj.mp (by omega)
      rw [if_neg fun h' => h'.1 hp0, hpq', hqr', sub_self]

/-- Names `namecmp` finds equal are the same to every name. -/
theorem namecmp_eq_zero_iff_of {a b : Nat → UInt8} (hab : namecmp a b = 0) (x : Nat → UInt8) :
    namecmp x a = 0 ↔ namecmp x b = 0 :=
  ⟨fun hxa => strncmp_eq_zero_trans x a b dirsiz 0 hxa hab,
    fun hxb => strncmp_eq_zero_trans x b a dirsiz 0 hxb (strncmp_eq_zero_symm a b dirsiz 0 hab)⟩

/-- INTERNAL: the padding of `strncpy` leaves the bytes before it. -/
theorem strncpyPad_of_lt : ∀ (n i : Nat) (s : Nat → UInt8) {j : Nat}, j < i → strncpyPad n i s j = s j := by
  intro n
  induction n with
  | zero =>
    intro i s j _
    rfl
  | succ n ih =>
    intro i s j hj
    rw [strncpyPad, ih (i + 1) _ (by omega), if_neg (by omega)]

/-- INTERNAL: the copy of `strncpy` leaves the bytes before it. -/
theorem strncpyLoop_of_lt (t : Nat → UInt8) :
    ∀ (n i : Nat) (s : Nat → UInt8) {j : Nat}, j < i → strncpyLoop t n i s j = s j := by
  intro n
  induction n with
  | zero =>
    intro i s j _
    rfl
  | succ n ih =>
    intro i s j hj
    rw [strncpyLoop]
    split_ifs
    · rw [ih (i + 1) _ (by omega), if_neg (by omega)]
    · rw [strncpyPad_of_lt n (i + 1) _ (by omega), if_neg (by omega)]

/-- `strncpy` copies the bytes of `t` up to its first `NUL`. -/
theorem strncpyLoop_copy (t : Nat → UInt8) :
    ∀ (n i : Nat) (s : Nat → UInt8) {j : Nat}, i ≤ j → j < i + n → (∀ k, i ≤ k → k < j → t k ≠ 0) →
      strncpyLoop t n i s j = t j := by
  intro n
  induction n with
  | zero =>
    intro i s j _ hj _
    omega
  | succ n ih =>
    intro i s j hij hj hbefore
    rw [strncpyLoop]
    by_cases hji : j = i
    · -- the byte copied in this step stays, copied or padded after it
      subst hji
      split_ifs
      · rw [strncpyLoop_of_lt t n (j + 1) _ (by omega), if_pos rfl]
      · rw [strncpyPad_of_lt n (j + 1) _ (by omega), if_pos rfl]
    · have hti : t i ≠ 0 := hbefore i le_rfl (by omega)
      rw [if_pos hti]
      exact ih (i + 1) _ (by omega) (by omega) fun k h₁ h₂ => hbefore k (by omega) h₂

/-- The name `strncpy(s, name, DIRSIZ)` stores is equal to `name`. -/
theorem namecmp_strncpy_self (s name : Nat → UInt8) : namecmp name (strncpy s name dirsiz) = 0 :=
  strncmp_eq_zero_of_agree name _ dirsiz 0 fun _ _ hj hbefore =>
    strncpyLoop_copy name dirsiz 0 s (Nat.zero_le _) hj hbefore

/-- The entry `dirlink` writes holds the i-number as a `ushort`. -/
theorem le16_dirlinkEntry (de name : Nat → UInt8) (inum : Nat) :
    le16 (dirlinkEntry de name inum) 0 = inum % 2 ^ 16 := by
  unfold le16 dirlinkEntry
  rw [if_pos rfl, if_neg (by omega), if_pos rfl, Nat.toUInt8_eq, Nat.toUInt8_eq, UInt8.toNat_ofNat',
    UInt8.toNat_ofNat']
  omega

/-- The entry `dirlink` writes holds a name equal to the name linked. -/
theorem namecmp_dirlinkEntry (de name : Nat → UInt8) (inum : Nat) :
    namecmp name (fun i => dirlinkEntry de name inum (2 + i)) = 0 := by
  have hname : namecmp name (fun i => dirlinkEntry de name inum (2 + i)) =
      namecmp name (strncpy (fun j => de (2 + j)) name dirsiz) := by
    refine namecmp_congr name fun i _ => ?_
    unfold dirlinkEntry
    rw [if_neg (by omega), if_neg (by omega), Nat.add_sub_cancel_left]
  rw [hname]
  exact namecmp_strncpy_self _ name

/-! ## The table of entries -/

/-- The entry in slot `k` of the directory `dp`: the `sizeof(struct dirent)` bytes from
`k * sizeof(de)`, as `readi` reads them into a zeroed `struct dirent`. -/
def dirent (D : FsImage) (dp : Dinode) (k : Nat) : Nat → UInt8 :=
  overlay (fun _ => 0) 0 direntSize fun i => D.fileByte dp (direntSize * k + i)

/-- An entry is in use when its `inum` is not `0` (fs.c:534, 565). -/
def entryInUse (e : Nat → UInt8) : Bool := le16 e 0 != 0

/-- An entry names `name` when `namecmp` finds its name equal to `name` (fs.c:536). -/
def entryNames (name e : Nat → UInt8) : Bool := namecmp name (fun i => e (2 + i)) == 0

/-- The map the directory `dp` stands for: the i-number and offset of the first entry in
use that names `name`. -/
def lookup (D : FsImage) (dp : Dinode) (name : Nat → UInt8) : Option (Nat × Nat) :=
  (SlotTable.lookup entryInUse entryNames (D.dirent dp) (dp.size / direntSize) name).map
    fun k => (le16 (D.dirent dp k) 0, direntSize * k)

/-- The slot `dirlink` writes a new entry into: the first free slot, else the slot after
the last. -/
def freeSlot (D : FsImage) (dp : Dinode) : Nat :=
  SlotTable.freeSlot entryInUse (D.dirent dp) (dp.size / direntSize)

/-- A directory as `dirlookup` and `dirlink` read it, a table of entries: a well-formed
inode of type `T_DIR` whose size is a whole number of entries. -/
structure DirWf (D : FsImage) (dp : Dinode) : Prop where
  wf : InodeWf D dp
  dir : dp.type = .dir
  whole : dp.size % direntSize = 0

/-- INTERNAL: entries that agree on their bytes name the same names. -/
theorem entryNames_congr {e e' : Nat → UInt8} (h : ∀ i, i < direntSize → e' i = e i) (name : Nat → UInt8) :
    entryNames name e' = entryNames name e := by
  unfold entryNames
  rw [namecmp_congr name fun i hi => h (2 + i) (by unfold direntSize dirsiz at *; omega)]

/-- INTERNAL: the bytes of a slot of a directory lie inside it. -/
theorem slot_lt_size {dp : Dinode} {k i : Nat} (hk : k < dp.size / direntSize) (hi : i < direntSize) :
    direntSize * k + i < dp.size := by
  unfold direntSize at *
  omega

/-- A directory whose content and size are kept keeps its entries. -/
theorem Keeps.dirent_eq {D D' : FsImage} {dp dp' : Dinode} (hk : Keeps D dp D' dp') {k : Nat}
    (hkn : k < dp.size / direntSize) : D'.dirent dp' k = D.dirent dp k := by
  have hsize : dp.size ≤ maxfile * bsize := hk.size ▸ hk.wf.size_le
  unfold dirent
  exact overlay_congr _ _ _ fun i hi => hk.content _ (by have := slot_lt_size hkn hi; omega)

/-- A directory whose content and size are kept stands for the same map. -/
theorem Keeps.lookup_eq {D D' : FsImage} {dp dp' : Dinode} (hk : Keeps D dp D' dp') (name : Nat → UInt8) :
    D'.lookup dp' name = D.lookup dp name := by
  unfold lookup
  rw [hk.size, SlotTable.lookup_congr (fun k hkn => hk.dirent_eq hkn) name]
  rcases hl : SlotTable.lookup entryInUse entryNames (D.dirent dp) (dp.size / direntSize) name with _ | k
  · rfl
  · rw [Option.map_some, Option.map_some, hk.dirent_eq (SlotTable.lookup_eq_some_iff.mp hl).1]

/-- A directory whose content and size are kept has the same free slot. -/
theorem Keeps.freeSlot_eq {D D' : FsImage} {dp dp' : Dinode} (hk : Keeps D dp D' dp') :
    D'.freeSlot dp' = D.freeSlot dp := by
  unfold freeSlot SlotTable.freeSlot
  rw [hk.size, SlotTable.first_congr fun k hkn => by rw [hk.dirent_eq hkn]]

/-- INTERNAL: a scan past slot `k` of a directory kept by the read of the slot saw every
slot up to `k` as it is. -/
theorem Keeps.dirent_prefix {D D' : FsImage} {dp dp' : Dinode} (hk : Keeps D dp D' dp')
    {P : (Nat → UInt8) → Prop} {k : Nat} (hkn : k < dp.size / direntSize)
    (hbefore : ∀ j, j < k → P (D.dirent dp j)) (hat : P (D.dirent dp k)) :
    ∀ j, j < k + 1 → P (D'.dirent dp' j) := by
  intro j hj
  rw [hk.dirent_eq (by omega)]
  rcases Nat.lt_succ_iff_lt_or_eq.mp hj with hj | hj
  · exact hbefore j hj
  · rw [hj]
    exact hat

theorem DirWf.keeps {D D' : FsImage} {dp dp' : Dinode} (h : DirWf D dp) (hk : Keeps D dp D' dp') :
    DirWf D' dp' :=
  ⟨hk.wf, hk.type.trans h.dir, hk.size ▸ h.whole⟩

/-! ## Reading the entries -/

section Scan

variable (devsw : Nat → Option Devsw)

/-- `readi` of the entry in slot `k` of a directory reads its bytes into the buffer and
keeps the directory. -/
theorem readi_entry {D : FsImage} {dp : Dinode} (h : DirWf D dp) (dst : Nat → UInt8) {k : Nat}
    (hk : k < dp.size / direntSize) :
    Run.Post (· = "balloc: out of blocks")
      (fun r : FsImage × Dinode × Int × (Nat → UInt8) => Keeps D dp r.1 r.2.1 ∧
        r.2.2.1 = (direntSize : Int) ∧ r.2.2.2 = overlay dst 0 direntSize fun i => D.fileByte dp (direntSize * k + i))
      (D.readi devsw dp dst (direntSize * k) direntSize) := by
  have hsize := h.wf.size_le
  have hwrap := maxfile_mul_bsize_lt_uintMod
  have hmin : min direntSize (dp.size - direntSize * k) = direntSize := by
    unfold direntSize at *
    omega
  refine (readi_post devsw dst (by rw [h.dir]; decide) h.wf (by unfold direntSize at *; omega)
    (by unfold direntSize at *; omega)).mono ?_
  rintro ⟨D₁, dp₁, r, de⟩ ⟨hk₁, hr, hde⟩
  dsimp only at hr hde ⊢
  rw [hmin] at hr hde
  exact ⟨hk₁, hr, hde⟩

/-- INTERNAL: the read of an entry with four free blocks returns, taking at most those. -/
theorem readi_entry_total {D : FsImage} {dp : Dinode} (h : DirWf D dp) (dst : Nat → UInt8) {k : Nat}
    (hk : k < dp.size / direntSize) (hfree : 4 ≤ D.freeBlocks) :
    Run.Post (fun _ => False)
      (fun r : FsImage × Dinode × Int × (Nat → UInt8) => (Keeps D dp r.1 r.2.1 ∧
        r.2.2.1 = (direntSize : Int) ∧ r.2.2.2 = overlay dst 0 direntSize fun i => D.fileByte dp (direntSize * k + i)) ∧
        Spent D r.1 4)
      (D.readi devsw dp dst (direntSize * k) direntSize) :=
  (readi_entry devsw h dst hk).both (readi_total devsw D dp dst _ _ h.wf.size_le hfree)

/-- INTERNAL: the read of slot `k`, then the scan of the slots after it. -/
theorem Spent.slot {D₁ D₂ D₃ : FsImage} {s k : Nat} (hk : k < s) (h₁ : Spent D₁ D₂ 4)
    (h₂ : Spent D₂ D₃ (4 * (s - (k + 1)))) : Spent D₁ D₃ (4 * (s - k)) :=
  (h₁.trans h₂).mono (by omega)

theorem dirlookupLoop_post (name : Nat → UInt8) (fuel : Nat) :
    ∀ (D : FsImage) (dp : Dinode) (k : Nat), DirWf D dp → k ≤ dp.size / direntSize →
      dp.size / direntSize - k < fuel →
      (∀ j, j < k → (entryInUse (D.dirent dp j) && entryNames name (D.dirent dp j)) = false) →
      Run.Post (· = "balloc: out of blocks")
        (fun r : FsImage × Dinode × Option (Nat × Nat) => Keeps D dp r.1 r.2.1 ∧ r.2.2 = D.lookup dp name)
        (dirlookupLoop devsw name fuel D dp (direntSize * k)) := by
  -- induction on the fuel, the slots before `k` all missing `name`
  induction fuel with
  | zero =>
    intro D dp k _ _ hf _
    omega
  | succ fuel ih =>
    intro D dp k h hk hf hbefore
    rw [dirlookupLoop]
    by_cases hkn : k < dp.size / direntSize
    · rw [if_pos (by have := slot_lt_size hkn (show 0 < direntSize by decide); omega)]
      refine Run.Post.bind (readi_entry devsw h (fun _ => 0) hkn) ?_
      rintro ⟨D₁, dp₁, r, de⟩ ⟨hk₁, hr, hde⟩
      dsimp only at hk₁ hr hde ⊢
      -- the buffer read is the entry of slot `k`
      have hde' : de = D.dirent dp k := hde
      subst hr hde'
      rw [if_neg (not_not_intro rfl)]
      -- a slot that misses `name`: the scan goes on from the next, over the same entries
      have hnext : (entryInUse (D.dirent dp k) && entryNames name (D.dirent dp k)) = false →
          Run.Post (· = "balloc: out of blocks")
            (fun r : FsImage × Dinode × Option (Nat × Nat) => Keeps D dp r.1 r.2.1 ∧ r.2.2 = D.lookup dp name)
            (dirlookupLoop devsw name fuel D₁ dp₁ (direntSize * k + direntSize)) := by
        intro hmiss
        rw [show direntSize * k + direntSize = direntSize * (k + 1) by rw [Nat.mul_succ]]
        refine (ih D₁ dp₁ (k + 1) (h.keeps hk₁) (by rw [hk₁.size]; omega) (by rw [hk₁.size]; omega)
          (hk₁.dirent_prefix (P := fun e => (entryInUse e && entryNames name e) = false) hkn hbefore
            hmiss)).mono ?_
        rintro ⟨D₂, dp₂, res⟩ ⟨hk₂, hres⟩
        exact ⟨hk₁.trans hk₂, hres.trans (hk₁.lookup_eq name)⟩
      by_cases hz : le16 (D.dirent dp k) 0 = 0
      · -- an empty slot
        rw [if_pos hz]
        refine hnext ?_
        unfold entryInUse
        rw [hz]
        rfl
      · rw [if_neg hz]
        by_cases hn : (namecmp name fun i => D.dirent dp k (2 + i)) = 0
        · -- the first slot in use that names `name`
          rw [if_pos hn]
          have htest : (entryInUse (D.dirent dp k) && entryNames name (D.dirent dp k)) = true := by
            unfold entryInUse entryNames
            simp [hz, hn]
          refine ⟨hk₁, ?_⟩
          unfold lookup
          rw [SlotTable.lookup_eq_some_iff.mpr ⟨hkn, htest, hbefore⟩, Option.map_some]
        · rw [if_neg hn]
          refine hnext ?_
          unfold entryNames
          simp [hn]
    · -- past the last slot: no entry names `name`
      rw [if_neg (by have := h.whole; unfold direntSize at *; omega)]
      refine ⟨Keeps.refl h.wf, ?_⟩
      unfold lookup
      rw [SlotTable.lookup_eq_none_iff.mpr fun j hj => hbefore j (by omega), Option.map_none]

/-- INTERNAL: `dirlookup` returns the first entry in use that names the name, or fails
with `balloc`'s panic. -/
theorem dirlookup_post {D : FsImage} {dp : Dinode} (h : DirWf D dp) (name : Nat → UInt8) :
    Run.Post (· = "balloc: out of blocks")
      (fun r : FsImage × Dinode × Option (Nat × Nat) => Keeps D dp r.1 r.2.1 ∧ r.2.2 = D.lookup dp name)
      (D.dirlookup devsw dp name) := by
  unfold dirlookup
  rw [if_neg (not_not_intro h.dir)]
  have hloop := dirlookupLoop_post devsw name (dp.size / direntSize + 1) D dp 0 h (Nat.zero_le _)
    (Nat.lt_succ_of_le (Nat.sub_le _ _)) fun j hj => absurd hj (Nat.not_lt_zero j)
  rwa [Nat.mul_zero] at hloop

/-- INTERNAL: the scan of `dirlookup` with four free blocks for each slot left returns,
taking at most those. -/
theorem dirlookupLoop_total (name : Nat → UInt8) (fuel : Nat) :
    ∀ (D : FsImage) (dp : Dinode) (k : Nat), DirWf D dp → k ≤ dp.size / direntSize →
      dp.size / direntSize - k < fuel → 4 * (dp.size / direntSize - k) ≤ D.freeBlocks →
      Run.Post (fun _ => False)
        (fun r : FsImage × Dinode × Option (Nat × Nat) => Spent D r.1 (4 * (dp.size / direntSize - k)))
        (dirlookupLoop devsw name fuel D dp (direntSize * k)) := by
  -- induction on the fuel; the read of each slot takes at most four blocks
  induction fuel with
  | zero =>
    intro D dp k _ _ hf _
    omega
  | succ fuel ih =>
    intro D dp k h hk hf hfree
    rw [dirlookupLoop]
    by_cases hkn : k < dp.size / direntSize
    · rw [if_pos (by have := slot_lt_size hkn (show 0 < direntSize by decide); omega)]
      refine Run.Post.bind (readi_entry_total devsw h (fun _ => 0) hkn (by omega)) ?_
      rintro ⟨D₁, dp₁, r, de⟩ ⟨⟨hk₁, hr, -⟩, hsp⟩
      dsimp only at hk₁ hr hsp ⊢
      subst hr
      rw [if_neg (not_not_intro rfl)]
      -- the scan goes on from the next slot, over a directory of the same size
      have hnext : Run.Post (fun _ => False)
          (fun r : FsImage × Dinode × Option (Nat × Nat) => Spent D r.1 (4 * (dp.size / direntSize - k)))
          (dirlookupLoop devsw name fuel D₁ dp₁ (direntSize * k + direntSize)) := by
        rw [show direntSize * k + direntSize = direntSize * (k + 1) by rw [Nat.mul_succ]]
        refine (ih D₁ dp₁ (k + 1) (h.keeps hk₁) (by rw [hk₁.size]; omega) (by rw [hk₁.size]; omega)
          (by rw [hk₁.size]; have := hsp.free; omega)).mono fun r hr => ?_
        rw [hk₁.size] at hr
        exact hsp.slot hkn hr
      split
      · exact hnext
      · split
        · exact hsp.mono (by omega)
        · exact hnext
    · rw [if_neg (by have := h.whole; unfold direntSize at *; omega)]
      exact (Spent.refl D).mono (Nat.zero_le _)

/-- **`dirlookup` with four free blocks for each entry returns**, taking at most those. -/
theorem dirlookup_total {D : FsImage} {dp : Dinode} (h : DirWf D dp) (name : Nat → UInt8)
    (hfree : 4 * (dp.size / direntSize) ≤ D.freeBlocks) :
    Run.Post (fun _ => False)
      (fun r : FsImage × Dinode × Option (Nat × Nat) => Spent D r.1 (4 * (dp.size / direntSize)))
      (D.dirlookup devsw dp name) := by
  unfold dirlookup
  rw [if_neg (not_not_intro h.dir)]
  have hloop := dirlookupLoop_total devsw name (dp.size / direntSize + 1) D dp 0 h (Nat.zero_le _)
    (Nat.lt_succ_of_le (Nat.sub_le _ _)) (by rwa [Nat.sub_zero])
  rwa [Nat.mul_zero, Nat.sub_zero] at hloop

/-- **`dirlookup` finds the first entry in use that names the name.**  In a well-formed
directory, `dirlookup` returns the i-number and offset of the first entry in use whose name
`namecmp` finds equal to `name`, or nothing when no entry names it, and keeps what the
directory holds.  It fails only when `balloc` runs out of blocks for a hole it reads, on a
disk with fewer than four free blocks for each entry. -/
theorem dirlookup_finds_first_entry {D : FsImage} {dp : Dinode} (h : DirWf D dp) (name : Nat → UInt8) :
    Run.Post (D.OutOfBlocks (4 * (dp.size / direntSize)))
      (fun r : FsImage × Dinode × Option (Nat × Nat) => Keeps D dp r.1 r.2.1 ∧ r.2.2 = D.lookup dp name)
      (D.dirlookup devsw dp name) :=
  post_outOfBlocks (dirlookup_post devsw h name) (dirlookup_total devsw h name)

/-- A disk whose block `1` holds one directory entry, `.` for inode `1`. -/
def dotDisk : FsImage :=
  ⟨⟨64, 1⟩, fun _ => Dinode.zero, fun b => b < 2, fun b i => if b = 1 ∧ i = 0 then 1 else if b = 1 ∧ i = 2 then 46 else 0⟩

/-- The directory of that one entry. -/
def dotDir : Dinode := { Dinode.zero with type := .dir, size := direntSize, addrs := fun k => if k = 0 then 1 else 0 }

theorem dotDir_wf : DirWf dotDisk dotDir :=
  ⟨InodeWf.of_direct rfl (by decide) (by decide) rfl (by decide) (by decide), rfl, rfl⟩

/-- The name `.` looked up in the directory of one entry. -/
theorem dirlookup_dot_dir :
    DirWf dotDisk dotDir ∧ 4 * (dotDir.size / direntSize) ≤ dotDisk.freeBlocks ∧
      Run.Post (dotDisk.OutOfBlocks (4 * (dotDir.size / direntSize)))
        (fun r : FsImage × Dinode × Option (Nat × Nat) => Keeps dotDisk dotDir r.1 r.2.1 ∧
          r.2.2 = dotDisk.lookup dotDir fun i => if i = 0 then 46 else 0)
        (dotDisk.dirlookup (fun _ => none) dotDir fun i => if i = 0 then 46 else 0) :=
  ⟨dotDir_wf, by decide, dirlookup_finds_first_entry (fun _ => none) dotDir_wf _⟩

/-- The scan of `dirlink` for an empty entry stops at the slot an insert takes, and keeps
what the directory holds. -/
theorem dirlinkLoop_post (fuel : Nat) :
    ∀ (D : FsImage) (dp : Dinode) (de : Nat → UInt8) (k : Nat), DirWf D dp → k ≤ dp.size / direntSize →
      dp.size / direntSize - k < fuel → (∀ j, j < k → entryInUse (D.dirent dp j) = true) →
      Run.Post (· = "balloc: out of blocks")
        (fun r : FsImage × Dinode × (Nat → UInt8) × Nat => Keeps D dp r.1 r.2.1 ∧ r.2.2.2 = direntSize * D.freeSlot dp)
        (dirlinkLoop devsw fuel D dp de (direntSize * k)) := by
  -- induction on the fuel, the slots before `k` all in use
  induction fuel with
  | zero =>
    intro D dp de k _ _ hf _
    omega
  | succ fuel ih =>
    intro D dp de k h hk hf hbefore
    rw [dirlinkLoop]
    by_cases hkn : k < dp.size / direntSize
    · rw [if_pos (by have := slot_lt_size hkn (show 0 < direntSize by decide); omega)]
      refine Run.Post.bind (readi_entry devsw h de hkn) ?_
      rintro ⟨D₁, dp₁, r, de₁⟩ ⟨hk₁, hr, hde⟩
      dsimp only at hk₁ hr hde ⊢
      subst hr hde
      rw [if_neg (not_not_intro rfl)]
      -- the `inum` read into the buffer is the one of slot `k`
      have hle : le16 (overlay de 0 direntSize fun i => D.fileByte dp (direntSize * k + i)) 0 =
          le16 (D.dirent dp k) 0 :=
        le16_congr fun a _ ha => by
          unfold dirent
          rw [overlay_zero_of_lt _ _ (by unfold direntSize; omega),
            overlay_zero_of_lt _ _ (by unfold direntSize; omega)]
      rw [hle]
      by_cases hz : le16 (D.dirent dp k) 0 = 0
      · -- the first empty slot
        rw [if_pos hz]
        refine ⟨hk₁, ?_⟩
        dsimp only
        unfold freeSlot
        rw [SlotTable.freeSlot_eq_of hk hbefore fun _ => by unfold entryInUse; rw [hz]; rfl]
      · rw [if_neg hz, show direntSize * k + direntSize = direntSize * (k + 1) by rw [Nat.mul_succ]]
        have hused : entryInUse (D.dirent dp k) = true := by
          unfold entryInUse
          simpa using hz
        refine (ih D₁ dp₁ _ (k + 1) (h.keeps hk₁) (by rw [hk₁.size]; omega) (by rw [hk₁.size]; omega)
          (hk₁.dirent_prefix (P := fun e => entryInUse e = true) hkn hbefore hused)).mono ?_
        rintro ⟨D₂, dp₂, de₂, off⟩ ⟨hk₂, hoff⟩
        exact ⟨hk₁.trans hk₂, hoff.trans (by rw [hk₁.freeSlot_eq])⟩
    · -- every slot is in use: the entry goes after the last
      rw [if_neg (by have := h.whole; unfold direntSize at *; omega)]
      refine ⟨Keeps.refl h.wf, ?_⟩
      dsimp only
      unfold freeSlot
      rw [SlotTable.freeSlot_eq_of hk hbefore fun hlt => absurd hlt hkn]

/-- INTERNAL: the scan of `dirlink` with four free blocks for each slot left returns,
taking at most those. -/
theorem dirlinkLoop_total (fuel : Nat) :
    ∀ (D : FsImage) (dp : Dinode) (de : Nat → UInt8) (k : Nat), DirWf D dp → k ≤ dp.size / direntSize →
      dp.size / direntSize - k < fuel → 4 * (dp.size / direntSize - k) ≤ D.freeBlocks →
      Run.Post (fun _ => False)
        (fun r : FsImage × Dinode × (Nat → UInt8) × Nat => Spent D r.1 (4 * (dp.size / direntSize - k)))
        (dirlinkLoop devsw fuel D dp de (direntSize * k)) := by
  -- induction on the fuel; the read of each slot takes at most four blocks
  induction fuel with
  | zero =>
    intro D dp de k _ _ hf _
    omega
  | succ fuel ih =>
    intro D dp de k h hk hf hfree
    rw [dirlinkLoop]
    by_cases hkn : k < dp.size / direntSize
    · rw [if_pos (by have := slot_lt_size hkn (show 0 < direntSize by decide); omega)]
      refine Run.Post.bind (readi_entry_total devsw h de hkn (by omega)) ?_
      rintro ⟨D₁, dp₁, r, de₁⟩ ⟨⟨hk₁, hr, -⟩, hsp⟩
      dsimp only at hk₁ hr hsp ⊢
      subst hr
      rw [if_neg (not_not_intro rfl)]
      split
      · exact hsp.mono (by omega)
      · -- the scan goes on from the next slot, over a directory of the same size
        rw [show direntSize * k + direntSize = direntSize * (k + 1) by rw [Nat.mul_succ]]
        refine (ih D₁ dp₁ de₁ (k + 1) (h.keeps hk₁) (by rw [hk₁.size]; omega) (by rw [hk₁.size]; omega)
          (by rw [hk₁.size]; have := hsp.free; omega)).mono fun r hr => ?_
        rw [hk₁.size] at hr
        exact hsp.slot hkn hr
    · rw [if_neg (by have := h.whole; unfold direntSize at *; omega)]
      exact (Spent.refl D).mono (Nat.zero_le _)

/-- INTERNAL: the scan of `dirlink` from its first slot stops at the slot an insert takes,
or fails with `balloc`'s panic. -/
theorem dirlinkScan_post {D : FsImage} {dp : Dinode} (h : DirWf D dp) :
    Run.Post (· = "balloc: out of blocks")
      (fun r : FsImage × Dinode × (Nat → UInt8) × Nat =>
        Keeps D dp r.1 r.2.1 ∧ r.2.2.2 = direntSize * D.freeSlot dp)
      (dirlinkLoop devsw (dp.size / direntSize + 1) D dp (fun _ => 0) 0) := by
  have hscan := dirlinkLoop_post devsw (dp.size / direntSize + 1) D dp (fun _ => 0) 0 h (Nat.zero_le _)
    (Nat.lt_succ_of_le (Nat.sub_le _ _)) fun j hj => absurd hj (Nat.not_lt_zero j)
  rwa [Nat.mul_zero] at hscan

/-- INTERNAL: the scan of `dirlink` from its first slot, with four free blocks for each
slot, returns. -/
theorem dirlinkScan_total {D : FsImage} {dp : Dinode} (h : DirWf D dp)
    (hfree : 4 * (dp.size / direntSize) ≤ D.freeBlocks) :
    Run.Post (fun _ => False)
      (fun r : FsImage × Dinode × (Nat → UInt8) × Nat => Spent D r.1 (4 * (dp.size / direntSize)))
      (dirlinkLoop devsw (dp.size / direntSize + 1) D dp (fun _ => 0) 0) := by
  have hscan := dirlinkLoop_total devsw (dp.size / direntSize + 1) D dp (fun _ => 0) 0 h (Nat.zero_le _)
    (Nat.lt_succ_of_le (Nat.sub_le _ _)) (by rwa [Nat.sub_zero])
  rwa [Nat.mul_zero, Nat.sub_zero] at hscan

end Scan

/-! ## Inserting an entry -/

/-- The entries of a directory after `sizeof(de)` bytes of `src` are written at slot `f`:
slot `f` holds them and every other slot what it held. -/
theorem dirent_of_write {D D' : FsImage} {dp dp' : Dinode} {f : Nat} {src : Nat → UInt8}
    (hcont : ∀ o, o < maxfile * bsize → D'.fileByte dp' o =
      if direntSize * f ≤ o ∧ o < direntSize * f + direntSize then src (o - direntSize * f) else D.fileByte dp o)
    (hroom : direntSize * f + direntSize ≤ maxfile * bsize) (hsize : dp.size ≤ maxfile * bsize)
    {k : Nat} (hk : k < max (dp.size / direntSize) (f + 1)) :
    D'.dirent dp' k = Function.update (D.dirent dp) f (overlay (fun _ => 0) 0 direntSize src) k := by
  unfold dirent
  by_cases hkf : k = f
  · rw [hkf, Function.update_self]
    refine overlay_congr _ _ _ fun i hi => ?_
    rw [hcont _ (by omega), if_pos (by omega), Nat.add_sub_cancel_left]
  · rw [Function.update_of_ne hkf]
    refine overlay_congr _ _ _ fun i hi => ?_
    have hkn : k < dp.size / direntSize ∨ k < f := by omega
    have hlt : direntSize * k + i < maxfile * bsize := by
      rcases hkn with hkn | hkn
      · have := slot_lt_size hkn hi
        omega
      · unfold direntSize at *
        omega
    rw [hcont _ hlt, if_neg (by unfold direntSize at *; omega)]

/-- INTERNAL: the entry `dirlink` writes, as its slot reads it, is in use and names the
names equal to the name linked. -/
theorem dirlinkEntry_slot (de name : Nat → UInt8) {inum : Nat} (hinum : inum % 2 ^ 16 ≠ 0) :
    le16 (overlay (fun _ => 0) 0 direntSize (dirlinkEntry de name inum)) 0 = inum % 2 ^ 16 ∧
      entryInUse (overlay (fun _ => 0) 0 direntSize (dirlinkEntry de name inum)) = true ∧
      ∀ x, entryNames x (overlay (fun _ => 0) 0 direntSize (dirlinkEntry de name inum)) = true ↔
        namecmp x name = 0 := by
  have hslot : ∀ i, i < direntSize →
      overlay (fun _ => 0) 0 direntSize (dirlinkEntry de name inum) i = dirlinkEntry de name inum i :=
    fun i hi => overlay_zero_of_lt _ _ hi
  have hle : le16 (overlay (fun _ => 0) 0 direntSize (dirlinkEntry de name inum)) 0 = inum % 2 ^ 16 := by
    rw [le16_congr fun a _ ha => hslot a (by unfold direntSize; omega), le16_dirlinkEntry]
  refine ⟨hle, ?_, fun x => ?_⟩
  · unfold entryInUse
    rw [hle]
    simpa using hinum
  · rw [entryNames_congr (e := dirlinkEntry de name inum) hslot x]
    unfold entryNames
    rw [beq_iff_eq]
    exact (namecmp_eq_zero_iff_of (namecmp_dirlinkEntry de name inum) x).symm

/-- INTERNAL: a name equal to a name no entry in use names is named by none either, in
any prefix of the table. -/
theorem lookup_none_of_namecmp {t : Nat → Nat → UInt8} {n m : Nat} {name x : Nat → UInt8}
    (habsent : SlotTable.lookup entryInUse entryNames t n name = none) (hx : namecmp x name = 0) (hm : m ≤ n) :
    SlotTable.lookup entryInUse entryNames t m x = none := by
  refine SlotTable.lookup_eq_none_of_imp (fun e he => ?_) habsent hm
  unfold entryNames at he ⊢
  rw [beq_iff_eq] at he ⊢
  exact strncmp_eq_zero_trans name x _ dirsiz 0 (strncmp_eq_zero_symm x name dirsiz 0 hx) he

/-- Writing an entry into the slot an insert takes: the directory stays well formed, grows
by at most one entry, and holds the entries of the table with the entry inserted. -/
theorem writei_entry_table (devsw : Nat → Option Devsw) {D : FsImage} (dnum : Nat) {dp : Dinode}
    (h : DirWf D dp) (src : Nat → UInt8) (hroom : direntSize * D.freeSlot dp + direntSize ≤ maxfile * bsize) :
    Run.Post (· = "balloc: out of blocks")
      (fun r : FsImage × Dinode × Int => r.2.2 = direntSize ∧ DirWf r.1 r.2.1 ∧
        r.2.1.size ≤ dp.size + direntSize ∧
        r.2.1.size / direntSize = (SlotTable.insert entryInUse (D.dirent dp) (dp.size / direntSize)
          (overlay (fun _ => 0) 0 direntSize src)).2 ∧
        ∀ k, k < r.2.1.size / direntSize → r.1.dirent r.2.1 k = (SlotTable.insert entryInUse (D.dirent dp)
          (dp.size / direntSize) (overlay (fun _ => 0) 0 direntSize src)).1 k)
      (D.writei devsw dnum dp src (direntSize * D.freeSlot dp) direntSize) := by
  have hf : D.freeSlot dp ≤ dp.size / direntSize := SlotTable.freeSlot_le _ _
  have hsize := h.wf.size_le
  have hwhole := h.whole
  refine (writei_post devsw dnum _ (by rw [h.dir]; decide) h.wf (by unfold direntSize at *; omega) hroom).mono ?_
  rintro ⟨D₃, dp₃, r⟩ ⟨hr, hwf₃, hsize₃, htype₃, hcont₃⟩
  dsimp only at hr hwf₃ hsize₃ htype₃ hcont₃ ⊢
  have hn₃ : dp₃.size / direntSize = max (dp.size / direntSize) (D.freeSlot dp + 1) := by
    rw [hsize₃]
    unfold direntSize at *
    omega
  refine ⟨hr, ⟨hwf₃, htype₃.trans h.dir, by rw [hsize₃]; unfold direntSize at *; omega⟩,
    by rw [hsize₃]; unfold direntSize at *; omega, hn₃, fun k hk => ?_⟩
  rw [hn₃] at hk
  exact dirent_of_write hcont₃ hroom hsize hk

/-- **What `dirlink` leaves of a directory.**  In a well-formed directory with room for the
slot `dirlink` writes: when an entry in use names `name`, `dirlink` returns `-1` and keeps
what the directory holds; otherwise it returns `0` and the directory holds the table with
the entry `dirlink` builds inserted.  The directory stays well formed and grows by at most
one entry, and `dirlink` fails only when no block is free. -/
theorem dirlink_table (devsw : Nat → Option Devsw) {D : FsImage} (dnum : Nat) {dp : Dinode}
    (name : Nat → UInt8) (inum : Nat) (h : DirWf D dp)
    (hroom : direntSize * D.freeSlot dp + direntSize ≤ maxfile * bsize) :
    Run.Post (· = "balloc: out of blocks")
      (fun r : FsImage × Dinode × Int => DirWf r.1 r.2.1 ∧ r.2.1.size ≤ dp.size + direntSize ∧
        ((D.lookup dp name).isSome → r.2.2 = -1 ∧ Keeps D dp r.1 r.2.1) ∧
        (D.lookup dp name = none → r.2.2 = 0 ∧ ∃ de : Nat → UInt8,
          r.2.1.size / direntSize = (SlotTable.insert entryInUse (D.dirent dp) (dp.size / direntSize)
            (overlay (fun _ => 0) 0 direntSize (dirlinkEntry de name inum))).2 ∧
          ∀ k, k < r.2.1.size / direntSize → r.1.dirent r.2.1 k = (SlotTable.insert entryInUse (D.dirent dp)
            (dp.size / direntSize) (overlay (fun _ => 0) 0 direntSize (dirlinkEntry de name inum))).1 k))
      (D.dirlink devsw dnum dp name inum) := by
  unfold dirlink
  refine Run.Post.bind (dirlookup_post devsw h name) ?_
  rintro ⟨D₁, dp₁, found⟩ ⟨hk₁, hfound⟩
  dsimp only at hk₁ hfound ⊢
  subst hfound
  rcases hl : D.lookup dp name with _ | ⟨ino, off⟩
  · -- the name is absent: scan for the slot, then write the entry there
    dsimp only
    refine Run.Post.bind (dirlinkScan_post devsw (h.keeps hk₁)) ?_
    rintro ⟨D₂, dp₂, de, off⟩ ⟨hk₂, hoff⟩
    dsimp only at hk₂ hoff ⊢
    subst hoff
    have hk₁₂ := hk₁.trans hk₂
    rw [← hk₂.freeSlot_eq]
    refine Run.Post.bind (writei_entry_table devsw dnum (h.keeps hk₁₂) (dirlinkEntry de name inum)
      (by rw [hk₁₂.freeSlot_eq]; exact hroom)) ?_
    rintro ⟨D₃, dp₃, r⟩ ⟨hr, hdir₃, hsize₃, hn₃, hents⟩
    dsimp only at hr hdir₃ hsize₃ hn₃ hents ⊢
    rw [if_neg (not_not_intro hr)]
    -- the table the entry went into is the directory's own
    rw [hk₁₂.size] at hsize₃ hn₃ hents
    obtain ⟨hsnd, hfst⟩ := @SlotTable.insert_congr _ entryInUse _ _ _
      (fun k hk => hk₁₂.dirent_eq hk) (overlay (fun _ => 0) 0 direntSize (dirlinkEntry de name inum))
    refine ⟨hdir₃, hsize₃, fun hsome => absurd hsome (by simp), fun _ => ⟨rfl, de, hn₃.trans hsnd,
      fun k hk => (hents k hk).trans (hfst k (by rw [← hsnd, ← hn₃]; exact hk))⟩⟩
  · -- the name is present: nothing is written
    exact ⟨h.keeps hk₁, by rw [hk₁.size]; omega, fun _ => ⟨rfl, hk₁⟩, fun hnone => absurd hnone (by simp)⟩

/-- INTERNAL: the write of an entry takes at most four blocks, as the read of one. -/
theorem entry_budget : 2 * (direntSize / bsize + 2) = 4 := rfl

/-- **`dirlink` with enough free blocks returns**: four for each entry `dirlookup` reads,
four for each its scan for a free slot reads, and four for the write of the entry. -/
theorem dirlink_total (devsw : Nat → Option Devsw) {D : FsImage} (dnum : Nat) {dp : Dinode}
    (name : Nat → UInt8) (inum : Nat) (h : DirWf D dp)
    (hroom : direntSize * D.freeSlot dp + direntSize ≤ maxfile * bsize)
    (hfree : 8 * (dp.size / direntSize) + 4 ≤ D.freeBlocks) :
    Run.Post (fun _ => False) (fun r : FsImage × Dinode × Int => Spent D r.1 (8 * (dp.size / direntSize) + 4))
      (D.dirlink devsw dnum dp name inum) := by
  unfold dirlink
  refine Run.Post.bind ((dirlookup_post devsw h name).both (dirlookup_total devsw h name (by omega))) ?_
  rintro ⟨D₁, dp₁, found⟩ ⟨⟨hk₁, -⟩, hsp₁⟩
  dsimp only at hk₁ hsp₁ ⊢
  have hfree₁ := hsp₁.free
  cases found with
  | some _ => exact hsp₁.mono (by omega)
  | none =>
    -- the name is absent: the scan for the slot, then the write of the entry
    dsimp only
    have h₁ := h.keeps hk₁
    refine Run.Post.bind ((dirlinkScan_post devsw h₁).both
      (dirlinkScan_total devsw h₁ (by rw [hk₁.size]; omega))) ?_
    rintro ⟨D₂, dp₂, de, off⟩ ⟨⟨hk₂, hoff⟩, hsp₂⟩
    dsimp only at hk₂ hoff hsp₂ ⊢
    subst hoff
    rw [hk₁.size] at hsp₂
    have hfree₂ := hsp₂.free
    have hk₁₂ := hk₁.trans hk₂
    rw [← hk₂.freeSlot_eq]
    have hwrite := (writei_entry_table devsw dnum (h.keeps hk₁₂) (dirlinkEntry de name inum)
      (by rw [hk₁₂.freeSlot_eq]; exact hroom)).both
      (writei_total devsw D₂ dnum dp₂ (dirlinkEntry de name inum) _ direntSize (by rw [entry_budget]; omega))
    refine Run.Post.bind hwrite ?_
    rintro ⟨D₃, dp₃, r⟩ ⟨⟨hr, -⟩, hsp₃⟩
    dsimp only at hr hsp₃ ⊢
    rw [if_neg (not_not_intro hr)]
    rw [entry_budget] at hsp₃
    exact ((hsp₁.trans hsp₂).trans hsp₃).mono (by omega)

/-- INTERNAL: the map of a directory whose entries are those of `dp` with the entry
`dirlink` writes for a name `dp` does not map inserted: every name equal to it maps to the
new entry, and every other name as before. -/
theorem lookup_of_inserted {D D' : FsImage} {dp dp' : Dinode} {name : Nat → UInt8} {inum : Nat}
    (de : Nat → UInt8) (hinum : inum % 2 ^ 16 ≠ 0) (hnone : D.lookup dp name = none)
    (hn : dp'.size / direntSize = (SlotTable.insert entryInUse (D.dirent dp) (dp.size / direntSize)
      (overlay (fun _ => 0) 0 direntSize (dirlinkEntry de name inum))).2)
    (hents : ∀ k, k < dp'.size / direntSize → D'.dirent dp' k = (SlotTable.insert entryInUse (D.dirent dp)
      (dp.size / direntSize) (overlay (fun _ => 0) 0 direntSize (dirlinkEntry de name inum))).1 k)
    (x : Nat → UInt8) :
    D'.lookup dp' x =
      if namecmp x name = 0 then some (inum % 2 ^ 16, direntSize * D.freeSlot dp) else D.lookup dp x := by
  have hf : D.freeSlot dp ≤ dp.size / direntSize := SlotTable.freeSlot_le _ _
  obtain ⟨hle, hused, hnames⟩ := dirlinkEntry_slot de name hinum
  unfold lookup
  rw [SlotTable.lookup_congr hents x, hn, SlotTable.lookup_insert hused x]
  unfold freeSlot at hf ⊢
  by_cases hx : namecmp x name = 0
  · -- no slot before the one taken names `x`, for none names `name`
    rw [if_pos ((hnames x).mpr hx), if_pos hx,
      lookup_none_of_namecmp (Option.map_eq_none_iff.mp hnone) hx hf, Option.getD_none, Option.map_some,
      hents _ (by rw [hn, SlotTable.insert_snd]; omega), SlotTable.insert_fst_self, hle]
  · -- the entry found, if any, is one in use before or after the slot taken
    rw [if_neg fun h' => hx ((hnames x).mp h'), if_neg hx]
    rcases hl : SlotTable.lookup entryInUse entryNames (D.dirent dp) (dp.size / direntSize) x with _ | k
    · rfl
    · obtain ⟨hk, htest, -⟩ := SlotTable.lookup_eq_some_iff.mp hl
      have hkf : k ≠ SlotTable.freeSlot entryInUse (D.dirent dp) (dp.size / direntSize) := by
        intro hkf
        have hfree := SlotTable.inUse_freeSlot (show SlotTable.freeSlot entryInUse (D.dirent dp)
          (dp.size / direntSize) < dp.size / direntSize by omega)
        rw [← hkf] at hfree
        rw [hfree, Bool.false_and] at htest
        exact Bool.false_ne_true htest
      rw [Option.map_some, Option.map_some, hents k (by rw [hn, SlotTable.insert_snd]; omega),
        SlotTable.insert_fst_of_ne _ hkf]

/-- **`dirlink` inserts a name absent from the directory.**  In a well-formed directory
with room for the slot `dirlink` writes, and an i-number that is not `0` as a `ushort`:
when an entry in use already names `name`, `dirlink` returns `-1` and the directory maps
every name as before; otherwise it returns `0`, the first free slot, or a new one after
the last, holds `name` and the i-number as a `ushort`, every name `namecmp` finds equal to
`name` maps to that entry, and every other name keeps its entry.  The directory stays well
formed.  `dirlink` fails only when `balloc` runs out of blocks, on a disk with fewer free
blocks than eight for each entry and four more. -/
theorem dirlink_inserts_name (devsw : Nat → Option Devsw) {D : FsImage} (dnum : Nat) {dp : Dinode}
    (name : Nat → UInt8) {inum : Nat} (h : DirWf D dp)
    (hroom : direntSize * D.freeSlot dp + direntSize ≤ maxfile * bsize) (hinum : inum % 2 ^ 16 ≠ 0) :
    Run.Post (D.OutOfBlocks (8 * (dp.size / direntSize) + 4))
      (fun r : FsImage × Dinode × Int => DirWf r.1 r.2.1 ∧
        ((D.lookup dp name).isSome → r.2.2 = -1 ∧ ∀ x, r.1.lookup r.2.1 x = D.lookup dp x) ∧
        (D.lookup dp name = none → r.2.2 = 0 ∧ ∀ x, r.1.lookup r.2.1 x =
          if namecmp x name = 0 then some (inum % 2 ^ 16, direntSize * D.freeSlot dp) else D.lookup dp x))
      (D.dirlink devsw dnum dp name inum) := by
  refine post_outOfBlocks ((dirlink_table devsw dnum name inum h hroom).mono ?_)
    (dirlink_total devsw dnum name inum h hroom)
  rintro ⟨D₃, dp₃, r⟩ ⟨hdir₃, -, hpresent, habsent⟩
  refine ⟨hdir₃, fun hsome => ?_, fun hnone => ?_⟩
  · obtain ⟨hr, hk⟩ := hpresent hsome
    exact ⟨hr, hk.lookup_eq⟩
  · obtain ⟨hr, de, hn₃, hents⟩ := habsent hnone
    exact ⟨hr, lookup_of_inserted de hinum hnone hn₃ hents⟩

/-- The name `a` linked to inode `2` in the directory of one entry. -/
theorem dirlink_dot_dir :
    DirWf dotDisk dotDir ∧ direntSize * dotDisk.freeSlot dotDir + direntSize ≤ maxfile * bsize ∧
      2 % 2 ^ 16 ≠ 0 ∧ 8 * (dotDir.size / direntSize) + 4 ≤ dotDisk.freeBlocks ∧
      Run.Post (dotDisk.OutOfBlocks (8 * (dotDir.size / direntSize) + 4))
        (fun r : FsImage × Dinode × Int => DirWf r.1 r.2.1 ∧
          ((dotDisk.lookup dotDir fun i => if i = 0 then 97 else 0).isSome →
            r.2.2 = -1 ∧ ∀ x, r.1.lookup r.2.1 x = dotDisk.lookup dotDir x) ∧
          ((dotDisk.lookup dotDir fun i => if i = 0 then 97 else 0) = none → r.2.2 = 0 ∧
            ∀ x, r.1.lookup r.2.1 x =
              if (namecmp x fun i => if i = 0 then 97 else 0) = 0 then
                some (2 % 2 ^ 16, direntSize * dotDisk.freeSlot dotDir)
              else dotDisk.lookup dotDir x))
        (dotDisk.dirlink (fun _ => none) 1 dotDir (fun i => if i = 0 then 97 else 0) 2) :=
  ⟨dotDir_wf, by decide, by decide, by decide,
    dirlink_inserts_name (fun _ => none) 1 _ dotDir_wf (by decide) (by decide)⟩

/-- No name is named by two entries in use of the directory: the invariant under which a
name stands for one file. -/
def NamesDistinct (D : FsImage) (dp : Dinode) : Prop :=
  SlotTable.Distinct entryInUse entryNames (D.dirent dp) (dp.size / direntSize)

/-- **`dirlink` keeps names distinct.**  In a well-formed directory in which no name is
named twice, with room for the slot `dirlink` writes and an i-number that is not `0` as a
`ushort`, `dirlink` leaves a well-formed directory in which no name is named twice: it
writes an entry only for a name that no entry in use names.  It fails only when `balloc`
runs out of blocks, on a disk with fewer free blocks than eight for each entry and four
more. -/
theorem dirlink_keeps_names_distinct (devsw : Nat → Option Devsw) {D : FsImage} (dnum : Nat) {dp : Dinode}
    (name : Nat → UInt8) {inum : Nat} (h : DirWf D dp) (hd : D.NamesDistinct dp)
    (hroom : direntSize * D.freeSlot dp + direntSize ≤ maxfile * bsize) (hinum : inum % 2 ^ 16 ≠ 0) :
    Run.Post (D.OutOfBlocks (8 * (dp.size / direntSize) + 4))
      (fun r : FsImage × Dinode × Int => DirWf r.1 r.2.1 ∧ r.1.NamesDistinct r.2.1)
      (D.dirlink devsw dnum dp name inum) := by
  refine post_outOfBlocks ((dirlink_table devsw dnum name inum h hroom).mono ?_)
    (dirlink_total devsw dnum name inum h hroom)
  rintro ⟨D₃, dp₃, r⟩ ⟨hdir₃, -, hpresent, habsent⟩
  refine ⟨hdir₃, ?_⟩
  dsimp only at hpresent habsent ⊢
  unfold NamesDistinct
  rcases hl : D.lookup dp name with _ | found
  · -- the new entry names only names equal to `name`, which no entry named
    obtain ⟨-, de, hn₃, hents⟩ := habsent hl
    obtain ⟨-, -, hnames⟩ := dirlinkEntry_slot de name hinum
    have hfresh := hd.insert_fresh fun x hx =>
      lookup_none_of_namecmp (Option.map_eq_none_iff.mp hl) ((hnames x).mp hx) le_rfl
    rw [hn₃]
    exact hfresh.congr fun k hk => hents k (by rw [hn₃]; exact hk)
  · -- nothing is written
    obtain ⟨-, hk⟩ := hpresent (by rw [hl]; rfl)
    rw [hk.size]
    exact hd.congr fun k hkn => hk.dirent_eq hkn

/-- INTERNAL: a directory of at most one entry names no name twice. -/
theorem NamesDistinct.of_size_le {D : FsImage} {dp : Dinode} (h : dp.size ≤ direntSize) : D.NamesDistinct dp := by
  intro j k x hj hk _ _
  have hn : dp.size / direntSize ≤ 1 := Nat.div_le_of_le_mul (by omega)
  omega

/-- Linking `a` to inode `2` in the directory of one entry keeps its names distinct. -/
theorem dirlink_dot_dir_distinct :
    DirWf dotDisk dotDir ∧ dotDisk.NamesDistinct dotDir ∧
      direntSize * dotDisk.freeSlot dotDir + direntSize ≤ maxfile * bsize ∧ 2 % 2 ^ 16 ≠ 0 ∧
      8 * (dotDir.size / direntSize) + 4 ≤ dotDisk.freeBlocks ∧
      Run.Post (dotDisk.OutOfBlocks (8 * (dotDir.size / direntSize) + 4))
        (fun r : FsImage × Dinode × Int => DirWf r.1 r.2.1 ∧ r.1.NamesDistinct r.2.1)
        (dotDisk.dirlink (fun _ => none) 1 dotDir (fun i => if i = 0 then 97 else 0) 2) :=
  have hd : dotDisk.NamesDistinct dotDir := NamesDistinct.of_size_le le_rfl
  ⟨dotDir_wf, hd, by decide, by decide, by decide,
    dirlink_keeps_names_distinct (fun _ => none) 1 _ dotDir_wf hd (by decide) (by decide)⟩

end FsImage

end Xv6
