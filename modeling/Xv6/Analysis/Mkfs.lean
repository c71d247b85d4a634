import Xv6.Analysis.Fs

/-!
# The image `mkfs` writes

`mkfs` hands out i-numbers and blocks in order, from `freeinode` and `freeblock`.  Two
invariants describe the image as it goes:

* between two files (`Mkfs.MkInv`): the root directory holds an entry for each
  i-number handed out, in its one block, the first after the metadata; every other inode's addresses, and the
  entries of its indirect block, are below `freeblock`; and the blocks from `freeblock`
  on are still zero;
* while a file is appended to (`Mkfs.FileInv`), with `fbS` the `freeblock` when it
  started: the file's blocks are from `fbS` on, every other inode's below `fbS`, and no
  data block of the file is its indirect block.

A write of `iappend` goes to a block of the file, never to the root's block or to
another inode's indirect block, and each new address is a block not yet used
(`iappendBlock_inv`, `FileInv.write`).
-/

set_option autoImplicit false

namespace Xv6

open Window

/-! ## Indirect entries -/

/-- INTERNAL: the `uint` of the bytes of a 32-bit word is the word. -/
theorem le32_bytes32 {a : Nat} (h : a < 2 ^ 32) : le32 (bytes32 a) 0 = a := by
  simp only [le32, le16, bytes32]
  simp
  omega

/-- INTERNAL: a `uint` read where four bytes were just written. -/
theorem le32_overlay_self (f src : Nat → UInt8) (o : Nat) : le32 (overlay f o 4 src) o = le32 src 0 := by
  rw [@le32_congr (overlay f o 4 src) (fun a => src (a - o)) o fun a h₁ h₂ => overlay_of_mem src h₁ h₂]
  simp [le32, le16, Nat.add_assoc]

/-- INTERNAL: a zeroed block has zero entries. -/
theorem le32_zero (o : Nat) : le32 (fun _ => 0) o = 0 := by
  simp [le32, le16]

/-- The entries of an indirect block after one of them is set. -/
theorem FsImage.entry_setEntry (D : FsImage) (ind : Nat) {j a : Nat} (ha : a < 2 ^ 32) (j' : Nat) :
    (D.setEntry ind j a).entry ind j' = if j' = j then a else D.entry ind j' := by
  unfold FsImage.setEntry FsImage.entry
  rw [FsImage.writeData_data, if_pos rfl]
  by_cases h : j' = j
  · subst h
    rw [if_pos rfl, le32_overlay_self, le32_bytes32 ha]
  · rw [if_neg h]
    apply le32_congr
    intro b h₁ h₂
    exact overlay_of_not_mem _ (by omega)

/-- INTERNAL: a block that no allocated inode references. -/
theorem FsImage.refs_eq_zero (D : FsImage) {b : Nat}
    (h : ∀ i, i < D.sb.ninodes → (D.dinode i).type ≠ .free → (D.dinode i).refsTo D b = 0) : D.refs b = 0 := by
  unfold FsImage.refs
  apply List.sum_eq_zero
  intro x hx
  obtain ⟨i, hi, rfl⟩ := List.mem_map.1 hx
  by_cases hf : (D.dinode i).type = .free
  · rw [if_pos hf]
  · rw [if_neg hf]
    exact h i (List.mem_range.1 hi) hf

namespace Mkfs

/-! ## The invariants -/

/-- The root directory while it fits its first block, the first after the metadata, of
`sz` bytes. -/
def rootDinode (sz : Nat) : Dinode := ⟨.dir, 0, 0, 1, sz, fun k => if k = 0 then nmeta else 0⟩

@[simp] theorem rootDinode_size (sz : Nat) : (rootDinode sz).size = sz := rfl

@[simp] theorem rootDinode_addrs (sz k : Nat) : (rootDinode sz).addrs k = if k = 0 then nmeta else 0 := rfl

@[simp] theorem rootDinode_type (sz : Nat) : (rootDinode sz).type = .dir := rfl

/-- The addresses of `ip`, and the entries of its indirect block, are each zero or in
`[lo, hi)`. -/
def RefsIn (D : FsImage) (ip : Dinode) (lo hi : Nat) : Prop :=
  (∀ k, k < ndirect + 1 → ip.addrs k = 0 ∨ (lo ≤ ip.addrs k ∧ ip.addrs k < hi)) ∧
    (ip.addrs ndirect ≠ 0 → ∀ j, j < nindirect → D.entry (ip.addrs ndirect) j = 0 ∨
      (lo ≤ D.entry (ip.addrs ndirect) j ∧ D.entry (ip.addrs ndirect) j < hi))

/-- No data block of `ip` is its indirect block. -/
def Sep (D : FsImage) (ip : Dinode) : Prop :=
  ip.addrs ndirect ≠ 0 → (∀ k, k < ndirect → ip.addrs k ≠ ip.addrs ndirect) ∧
    ∀ j, j < nindirect → D.entry (ip.addrs ndirect) j ≠ ip.addrs ndirect

/-- A root entry that `mkfs` writes: `.`, `..` or the name of a file argument. -/
def RootEntry (files : List (List UInt8 × List UInt8)) (e : Nat → UInt8) : Prop :=
  ∃ inum name, (name = [46] ∨ name = [46, 46] ∨ ∃ f ∈ files, name = fileName f.1) ∧
    ∀ o, o < direntSize → e o = (direntBytes inum name).getD o 0

variable (files : List (List UInt8 × List UInt8))

/-- The image between two files.  The root directory holds an entry for each i-number
handed out, `.` and `..` counting for the root. -/
structure MkInv (st : State) : Prop where
  root : st.disk.dinode rootino = rootDinode (direntSize * st.freeinode)
  entries : ∀ j, j < st.freeinode → RootEntry files fun o => st.disk.data nmeta (direntSize * j + o)
  fresh : ∀ b, st.freeblock ≤ b → ∀ o, st.disk.data b o = 0
  others : ∀ inum, inum ≠ rootino → RefsIn st.disk (st.disk.dinode inum) (nmeta + 1) st.freeblock
  pastMeta : nmeta < st.freeblock
  inode : 2 ≤ st.freeinode
  fits : st.freeinode ≤ bsize / direntSize
  sb : st.disk.sb = ⟨fssize, ninodes⟩

/-- The image while the file `inum` is appended to, its inode `din` in hand, the blocks
from `fbS` on being the file's. -/
structure FileInv (st : State) (inum : Nat) (din : Dinode) (fbS : Nat) : Prop where
  root : st.disk.dinode rootino = rootDinode (direntSize * st.freeinode)
  entries : ∀ j, j < st.freeinode → RootEntry files fun o => st.disk.data nmeta (direntSize * j + o)
  fresh : ∀ b, st.freeblock ≤ b → ∀ o, st.disk.data b o = 0
  others : ∀ i, i ≠ rootino → i ≠ inum → RefsIn st.disk (st.disk.dinode i) (nmeta + 1) fbS
  cur : RefsIn st.disk din fbS st.freeblock
  sep : Sep st.disk din
  pastMeta : nmeta < fbS
  startLe : fbS ≤ st.freeblock
  notRoot : inum ≠ rootino
  inode : 2 ≤ st.freeinode
  fits : st.freeinode ≤ bsize / direntSize
  sb : st.disk.sb = ⟨fssize, ninodes⟩

/-! ## Addresses in a range -/

/-- INTERNAL: a range of addresses widens. -/
theorem RefsIn.mono {D : FsImage} {ip : Dinode} {lo hi lo' hi' : Nat} (h : RefsIn D ip lo hi)
    (hlo : lo' ≤ lo) (hhi : hi ≤ hi') : RefsIn D ip lo' hi' := by
  refine ⟨fun k hk => ?_, fun hind j hj => ?_⟩
  · rcases h.1 k hk with h0 | ⟨h₁, h₂⟩
    · exact Or.inl h0
    · exact Or.inr ⟨by omega, by omega⟩
  · rcases h.2 hind j hj with h0 | ⟨h₁, h₂⟩
    · exact Or.inl h0
    · exact Or.inr ⟨by omega, by omega⟩

/-- INTERNAL: addresses in a range are read from the inode and its indirect block only. -/
theorem RefsIn.congr {D D' : FsImage} {ip : Dinode} {lo hi : Nat} (h : RefsIn D ip lo hi)
    (he : ∀ j, D'.entry (ip.addrs ndirect) j = D.entry (ip.addrs ndirect) j) : RefsIn D' ip lo hi :=
  ⟨h.1, fun hind j hj => by rw [he j]; exact h.2 hind j hj⟩

/-- INTERNAL: as is the separation of the data blocks from the indirect block. -/
theorem Sep.congr {D D' : FsImage} {ip : Dinode} (h : Sep D ip)
    (he : ∀ j, D'.entry (ip.addrs ndirect) j = D.entry (ip.addrs ndirect) j) : Sep D' ip :=
  fun hind => ⟨(h hind).1, fun j hj => by rw [he j]; exact (h hind).2 j hj⟩

/-- INTERNAL: an indirect block with addresses below `hi` is no block from `hi` on. -/
theorem RefsIn.ind_ne {D : FsImage} {ip : Dinode} {lo hi c : Nat} (h : RefsIn D ip lo hi)
    (hc : hi ≤ c) (hc0 : c ≠ 0) : ip.addrs ndirect ≠ c := by
  rcases h.1 ndirect (by unfold ndirect; omega) with h0 | ⟨_, h₂⟩
  · rw [h0]
    exact hc0.symm
  · omega

/-- INTERNAL: a nonzero address in a range is in it. -/
theorem RefsIn.addr_mem {D : FsImage} {ip : Dinode} {lo hi k : Nat} (h : RefsIn D ip lo hi)
    (hk : k < ndirect + 1) (h0 : ip.addrs k ≠ 0) : lo ≤ ip.addrs k ∧ ip.addrs k < hi :=
  (h.1 k hk).resolve_left h0

/-- INTERNAL: an inode with addresses below `hi` references no block from `hi` on. -/
theorem RefsIn.refsTo_eq_zero {D : FsImage} {ip : Dinode} {lo hi b : Nat} (h : RefsIn D ip lo hi)
    (hb : hi ≤ b) (hb0 : b ≠ 0) : ip.refsTo D b = 0 := by
  have hdirect : ((List.range (ndirect + 1)).countP fun k => ip.addrs k = b) = 0 := by
    rw [List.countP_eq_zero]
    intro k hk
    rcases h.1 k (List.mem_range.1 hk) with h0 | ⟨_, h₂⟩
    · simp [h0, hb0.symm]
    · simp only [decide_eq_true_eq]
      omega
  unfold Dinode.refsTo
  rw [hdirect, Nat.zero_add]
  split_ifs with hind
  · rfl
  · rw [List.countP_eq_zero]
    intro j hj
    rcases h.2 hind j (List.mem_range.1 hj) with h0 | ⟨_, h₂⟩
    · simp [h0, hb0.symm]
    · simp only [decide_eq_true_eq]
      omega

/-- INTERNAL: an indirect block with addresses from `lo` on is no block below `lo`, but the
block 0 of no address. -/
theorem RefsIn.ind_ne_lt {D : FsImage} {ip : Dinode} {lo hi c : Nat} (h : RefsIn D ip lo hi)
    (hc : c < lo) (hc0 : c ≠ 0) : ip.addrs ndirect ≠ c := by
  rcases h.1 ndirect (by unfold ndirect; omega) with h0 | ⟨h₁, _⟩
  · rw [h0]
    exact hc0.symm
  · omega

/-- INTERNAL: an inode without addresses. -/
theorem RefsIn.of_zero {D : FsImage} {ip : Dinode} (h : ∀ k, ip.addrs k = 0) (lo hi : Nat) : RefsIn D ip lo hi :=
  ⟨fun k _ => Or.inl (h k), fun hind => absurd (h ndirect) hind⟩

/-! ## The changes `iappend` makes -/

section Steps

variable {files} {st : State} {inum : Nat} {din : Dinode} {fbS : Nat}

/-- INTERNAL: a root entry is read from its 16 bytes only. -/
theorem RootEntry.congr {e e' : Nat → UInt8} (h : RootEntry files e) (he : ∀ o, o < direntSize → e' o = e o) :
    RootEntry files e' := by
  obtain ⟨inum, name, hname, hbytes⟩ := h
  exact ⟨inum, name, hname, fun o ho => (he o ho).trans (hbytes o ho)⟩

/-- A write of `iappend` to a block of the file, not its indirect block. -/
theorem FileInv.write (h : FileInv files st inum din fbS) {x : Nat} (hx₁ : fbS ≤ x)
    (hx₂ : x < st.freeblock) (hxi : din.addrs ndirect ≠ x) (off n : Nat) (src : Nat → UInt8) :
    FileInv files { st with disk := st.disk.writeData x off n src } inum din fbS := by
  have hx0 : x ≠ 0 := by have := h.pastMeta; omega
  have hxm : nmeta ≠ x := by have := h.pastMeta; omega
  have hdata : ∀ c, c ≠ x → (st.disk.writeData x off n src).data c = st.disk.data c :=
    fun c hc => st.disk.writeData_data_of_ne off n src hc
  have hentry : ∀ ind, ind ≠ x → ∀ j, (st.disk.writeData x off n src).entry ind j = st.disk.entry ind j :=
    fun ind hind j => st.disk.entry_writeData_of_ne off n src hind j
  refine ⟨h.root, fun j hj => ?_, fun b hb o => ?_, fun i hi hi' => ?_, ?_, ?_, h.pastMeta, h.startLe,
    h.notRoot, h.inode, h.fits, h.sb⟩
  · show RootEntry files fun o => (st.disk.writeData x off n src).data nmeta (direntSize * j + o)
    rw [hdata nmeta hxm]
    exact h.entries j hj
  · have hb' : st.freeblock ≤ b := hb
    show (st.disk.writeData x off n src).data b o = 0
    rw [hdata b (by omega)]
    exact h.fresh b hb o
  · exact (h.others i hi hi').congr (hentry _ ((h.others i hi hi').ind_ne hx₁ hx0))
  · exact h.cur.congr (hentry _ hxi)
  · exact h.sep.congr (hentry _ hxi)

/-- A new direct block of the file, the next `freeblock`. -/
theorem FileInv.allocDirect (h : FileInv files st inum din fbS) {k : Nat} (hk : k < ndirect) :
    FileInv files { st with freeblock := st.freeblock + 1 } inum (din.setAddr k st.freeblock) fbS := by
  have hkn : ndirect ≠ k := by omega
  have hind : (din.setAddr k st.freeblock).addrs ndirect = din.addrs ndirect := by
    rw [Dinode.setAddr_addrs, if_neg hkn]
  refine ⟨h.root, h.entries, fun b hb => h.fresh b (by simp at hb; omega), h.others, ⟨fun j hj => ?_,
    fun hi j hj => ?_⟩, fun hi => ⟨fun j hj => ?_, fun j hj => ?_⟩, h.pastMeta, by simp; have := h.startLe; omega,
    h.notRoot, h.inode, h.fits, h.sb⟩
  · by_cases hjk : j = k
    · subst hjk
      right
      simp only [Dinode.setAddr_addrs, if_true]
      exact ⟨h.startLe, by simp⟩
    · rw [Dinode.setAddr_addrs, if_neg hjk]
      exact (h.cur.mono le_rfl (by simp)).1 j hj
  · rw [hind] at hi ⊢
    exact (h.cur.mono le_rfl (by simp)).2 hi j hj
  · rw [hind] at hi ⊢
    by_cases hjk : j = k
    · subst hjk
      rw [Dinode.setAddr_addrs, if_pos rfl]
      have := (h.cur.addr_mem (k := ndirect) (by unfold ndirect; omega) hi).2
      omega
    · rw [Dinode.setAddr_addrs, if_neg hjk]
      exact (h.sep hi).1 j hj
  · rw [hind] at hi ⊢
    exact (h.sep hi).2 j hj

/-- A new indirect block of the file, the next `freeblock`, whose entries are the zeros
of a block not yet used. -/
theorem FileInv.allocInd (h : FileInv files st inum din fbS) :
    FileInv files { st with freeblock := st.freeblock + 1 } inum (din.setAddr ndirect st.freeblock) fbS := by
  have hfb0 : st.freeblock ≠ 0 := by have := h.pastMeta; have := h.startLe; omega
  have hzero : ∀ j, st.disk.entry st.freeblock j = 0 := fun j => by
    unfold FsImage.entry
    rw [show st.disk.data st.freeblock = fun _ => 0 from funext (h.fresh _ le_rfl), le32_zero]
  have hind : (din.setAddr ndirect st.freeblock).addrs ndirect = st.freeblock := by simp
  refine ⟨h.root, h.entries, fun b hb => h.fresh b (by simp at hb; omega), h.others, ⟨fun j hj => ?_,
    fun _ j _ => ?_⟩, fun _ => ⟨fun j hj => ?_, fun j _ => ?_⟩, h.pastMeta, by simp; have := h.startLe; omega,
    h.notRoot, h.inode, h.fits, h.sb⟩
  · by_cases hjk : j = ndirect
    · subst hjk
      right
      simp only [Dinode.setAddr_addrs, if_true]
      exact ⟨h.startLe, by simp⟩
    · rw [Dinode.setAddr_addrs, if_neg hjk]
      exact (h.cur.mono le_rfl (by simp)).1 j hj
  · left
    show st.disk.entry ((din.setAddr ndirect st.freeblock).addrs ndirect) j = 0
    rw [hind, hzero]
  · rw [hind, Dinode.setAddr_addrs, if_neg (by omega)]
    rcases h.cur.1 j (by omega) with h0 | ⟨_, h₂⟩
    · rw [h0]
      exact hfb0.symm
    · omega
  · show st.disk.entry ((din.setAddr ndirect st.freeblock).addrs ndirect) j ≠ _
    rw [hind, hzero]
    exact hfb0.symm

/-- A new entry of the file's indirect block, the next `freeblock`. -/
theorem FileInv.allocEntry (h : FileInv files st inum din fbS) (hi : din.addrs ndirect ≠ 0)
    {j : Nat} (hfb : st.freeblock < 2 ^ 32) :
    FileInv files
      { st with
        disk := st.disk.setEntry (din.addrs ndirect) j st.freeblock
        freeblock := st.freeblock + 1 } inum din fbS := by
  obtain ⟨hind₁, hind₂⟩ := h.cur.addr_mem (k := ndirect) (by unfold ndirect; omega) hi
  have hm : nmeta ≠ din.addrs ndirect := by have := h.pastMeta; omega
  have hdata : ∀ c, c ≠ din.addrs ndirect →
      (st.disk.setEntry (din.addrs ndirect) j st.freeblock).data c = st.disk.data c :=
    fun c hc => st.disk.writeData_data_of_ne _ _ _ hc
  have hentry : ∀ ind, ind ≠ din.addrs ndirect → ∀ j',
      (st.disk.setEntry (din.addrs ndirect) j st.freeblock).entry ind j' = st.disk.entry ind j' :=
    fun ind hne j' => st.disk.entry_writeData_of_ne _ _ _ hne j'
  refine ⟨h.root, fun j' hj' => ?_, fun b hb o => ?_, fun i hi₁ hi₂ => ?_, ⟨fun k hk => ?_,
    fun _ j' hj' => ?_⟩, fun _ => ⟨(h.sep hi).1, fun j' hj' => ?_⟩, h.pastMeta,
    by simp; have := h.startLe; omega, h.notRoot, h.inode, h.fits, h.sb⟩
  · show RootEntry files fun o => (st.disk.setEntry (din.addrs ndirect) j st.freeblock).data nmeta
      (direntSize * j' + o)
    rw [hdata nmeta hm]
    exact h.entries j' hj'
  · show (st.disk.setEntry (din.addrs ndirect) j st.freeblock).data b o = 0
    simp only at hb
    rw [hdata b (by omega)]
    exact h.fresh b (by omega) o
  · have hne := (h.others i hi₁ hi₂).ind_ne hind₁ hi
    exact (h.others i hi₁ hi₂).congr (hentry _ hne)
  · exact (h.cur.mono le_rfl (by simp)).1 k hk
  · show (st.disk.setEntry (din.addrs ndirect) j st.freeblock).entry (din.addrs ndirect) j' = 0 ∨ _
    rw [FsImage.entry_setEntry _ _ hfb]
    by_cases hjj : j' = j
    · rw [if_pos hjj]
      exact Or.inr ⟨h.startLe, by simp⟩
    · rw [if_neg hjj]
      exact (h.cur.mono le_rfl (by simp)).2 hi j' hj'
  · show (st.disk.setEntry (din.addrs ndirect) j st.freeblock).entry (din.addrs ndirect) j' ≠ _
    rw [FsImage.entry_setEntry _ _ hfb]
    by_cases hjj : j' = j
    · rw [if_pos hjj]
      omega
    · rw [if_neg hjj]
      exact (h.sep hi).2 j' hj'

/-- INTERNAL: the entry `j` of the file's indirect block, taken from `freeblock` when
missing. -/
theorem FileInv.entryBlock (h : FileInv files st inum din fbS) (hi : din.addrs ndirect ≠ 0)
    {j : Nat} (hj : j < nindirect) {st' : State} {din' : Dinode} {x : Nat}
    (hb : (if st.disk.entry (din.addrs ndirect) j = 0 then
        ({ st with
            disk := st.disk.setEntry (din.addrs ndirect) j st.freeblock
            freeblock := st.freeblock + 1 }, din, st.freeblock)
      else (st, din, st.disk.entry (din.addrs ndirect) j)) = (st', din', x))
    (hfb : st'.freeblock ≤ 2 ^ 32) :
    FileInv files st' inum din' fbS ∧ fbS ≤ x ∧ x < st'.freeblock ∧ din'.addrs ndirect ≠ x := by
  obtain ⟨_, hind₂⟩ := h.cur.addr_mem (k := ndirect) (by unfold ndirect; omega) hi
  split_ifs at hb with he
  · simp only [Prod.mk.injEq] at hb
    obtain ⟨rfl, rfl, rfl⟩ := hb
    exact ⟨h.allocEntry hi (by simp at hfb; omega), h.startLe, by simp, by omega⟩
  · simp only [Prod.mk.injEq] at hb
    obtain ⟨rfl, rfl, rfl⟩ := hb
    obtain ⟨h₁, h₂⟩ := (h.cur.2 hi j hj).resolve_left he
    exact ⟨h, h₁, h₂, fun heq => (h.sep hi).2 j hj heq.symm⟩

/-- The block `iappend` writes next: a block of the file, not its indirect block, with
every address it takes new. -/
theorem iappendBlock_inv (h : FileInv files st inum din fbS) {fbn : Nat} (hfbn : fbn < maxfile)
    {st' : State} {din' : Dinode} {x : Nat} (hb : iappendBlock st din fbn = (st', din', x))
    (hfb : st'.freeblock ≤ 2 ^ 32) :
    FileInv files st' inum din' fbS ∧ fbS ≤ x ∧ x < st'.freeblock ∧ din'.addrs ndirect ≠ x := by
  have hfb0 : st.freeblock ≠ 0 := by have := h.pastMeta; have := h.startLe; omega
  unfold iappendBlock at hb
  split_ifs at hb with hd ha hi
  · -- a new direct block
    simp only [Prod.mk.injEq] at hb
    obtain ⟨rfl, rfl, rfl⟩ := hb
    refine ⟨h.allocDirect hd, h.startLe, by simp, ?_⟩
    rw [Dinode.setAddr_addrs, if_neg (by omega)]
    exact h.cur.ind_ne le_rfl hfb0
  · -- a direct block the file has
    simp only [Prod.mk.injEq] at hb
    obtain ⟨rfl, rfl, rfl⟩ := hb
    obtain ⟨h₁, h₂⟩ := h.cur.addr_mem (by omega) ha
    refine ⟨h, h₁, h₂, fun heq => ?_⟩
    have hind0 : din.addrs ndirect ≠ 0 := by rw [heq]; exact ha
    exact (h.sep hind0).1 fbn hd heq.symm
  · -- a new indirect block, then its entry
    dsimp only at hb
    exact h.allocInd.entryBlock (by simpa using hfb0) (by unfold maxfile at hfbn; omega) hb hfb
  · -- the indirect block the file has, then its entry
    dsimp only at hb
    exact h.entryBlock hi (by unfold maxfile at hfbn; omega) hb hfb

end Steps

/-- INTERNAL: `iappendBlock` takes blocks and no i-number. -/
theorem iappendBlock_freeblock_le {st st' : State} {din din' : Dinode} {fbn x : Nat}
    (hb : iappendBlock st din fbn = (st', din', x)) :
    st.freeblock ≤ st'.freeblock ∧ st'.freeinode = st.freeinode := by
  unfold iappendBlock at hb
  split_ifs at hb <;> (try dsimp only at hb) <;> (try split_ifs at hb) <;>
    (simp only [Prod.mk.injEq] at hb; obtain ⟨rfl, rfl, rfl⟩ := hb; simp only [and_true]; omega)

/-! ## One file -/

section File

variable {files} {inum fbS : Nat}

/-- The loop of `iappend` on the file takes blocks and no i-number, and keeps the
invariant with the file's inode in hand, up to a bound on the blocks it takes. -/
theorem iappendLoop_inv (p : List UInt8) :
    ∀ fuel st din off pos st' din' off', iappendLoop p fuel st din off pos = .ok (st', din', off') →
      st.freeblock ≤ st'.freeblock ∧ st'.freeinode = st.freeinode ∧
        (FileInv files st inum din fbS → st'.freeblock ≤ 2 ^ 32 → FileInv files st' inum din' fbS) := by
  intro fuel
  induction fuel with
  | zero =>
      intro st din off pos st' din' off' h
      simp only [iappendLoop, pure, Except.pure, Except.ok.injEq, Prod.mk.injEq] at h
      obtain ⟨rfl, rfl, rfl⟩ := h
      exact ⟨le_rfl, rfl, fun h _ => h⟩
  | succ fuel ih =>
      intro st din off pos st' din' off' h
      rw [iappendLoop] at h
      by_cases hpos : pos < p.length
      · rw [if_pos hpos] at h
        by_cases hmax : maxfile ≤ off / bsize
        · rw [if_pos hmax] at h
          cases h
        rw [if_neg hmax] at h
        dsimp only at h
        generalize hb : iappendBlock st din (off / bsize) = r at h
        obtain ⟨st₁, din₁, x⟩ := r
        dsimp only at h
        obtain ⟨hfb₁, hfi₁⟩ := iappendBlock_freeblock_le hb
        obtain ⟨hfb₂, hfi₂, hinv₂⟩ := ih _ _ _ _ _ _ _ h
        simp only at hfb₂ hfi₂
        refine ⟨by omega, by omega, fun hinv hbound => ?_⟩
        -- the block taken is below the last `freeblock`, so within the bound
        obtain ⟨hinv₁, hx₁, hx₂, hxi⟩ := iappendBlock_inv hinv (by omega) hb (by omega)
        exact hinv₂ (hinv₁.write hx₁ hx₂ hxi _ _ _) hbound
      · rw [if_neg hpos] at h
        simp only [pure, Except.pure, Except.ok.injEq, Prod.mk.injEq] at h
        obtain ⟨rfl, rfl, rfl⟩ := h
        exact ⟨le_rfl, rfl, fun h _ => h⟩

/-- What a step of `mkfs` does to the file `inum`, its blocks from `fbS` on: it takes
blocks and no i-number, and keeps the invariant while it stays within a bound on the
blocks. -/
def FileStep (files : List (List UInt8 × List UInt8)) (inum fbS : Nat) (s s' : State) : Prop :=
  s.freeblock ≤ s'.freeblock ∧ s'.freeinode = s.freeinode ∧
    (FileInv files s inum (s.disk.dinode inum) fbS → s'.freeblock ≤ 2 ^ 32 →
      FileInv files s' inum (s'.disk.dinode inum) fbS)

theorem FileStep.refl (s : State) : FileStep files inum fbS s s :=
  ⟨le_rfl, rfl, fun h _ => h⟩

theorem FileStep.trans {s t u : State} (h₁ : FileStep files inum fbS s t) (h₂ : FileStep files inum fbS t u) :
    FileStep files inum fbS s u :=
  ⟨le_trans h₁.1 h₂.1, h₂.2.1.trans h₁.2.1, fun h hb => h₂.2.2 (h₁.2.2 h (le_trans h₂.1 hb)) hb⟩

/-- `iappend` of bytes of the file: the loop, then the inode written back. -/
theorem iappend_step {p : List UInt8} {st st' : State} (h : iappend st inum p = .ok st') :
    FileStep files inum fbS st st' := by
  unfold iappend at h
  dsimp only at h
  cases hl : iappendLoop p (p.length + 1) st (st.disk.dinode inum) (st.disk.dinode inum).size 0 with
  | error e =>
      rw [hl] at h
      cases h
  | ok r =>
      obtain ⟨st₁, din₁, off⟩ := r
      rw [hl] at h
      simp only [Run.ok_bind, pure, Except.pure, Except.ok.injEq] at h
      subst h
      obtain ⟨hfb, hfi, hinv⟩ := @iappendLoop_inv files inum fbS p _ _ _ _ _ _ _ _ hl
      refine ⟨hfb, hfi, fun h₀ hbound => ?_⟩
      have h₁ := hinv h₀ hbound
      -- the inode written back is the one in hand, with its new size
      have hroot : rootino ≠ inum := h₁.notRoot.symm
      refine ⟨?_, h₁.entries, h₁.fresh, fun i hi hi' => ?_, ?_, ?_, h₁.pastMeta, h₁.startLe, h₁.notRoot,
        h₁.inode, h₁.fits, h₁.sb⟩
      · simp only [FsImage.setDinode_dinode, if_neg hroot]
        exact h₁.root
      · simp only [FsImage.setDinode_dinode, if_neg hi']
        exact h₁.others i hi hi'
      · simp only [FsImage.setDinode_dinode, if_true]
        exact h₁.cur
      · simp only [FsImage.setDinode_dinode, if_true]
        exact h₁.sep

/-- The chunks of the file, one `iappend` each. -/
theorem foldlM_iappend_step (chunks : List (List UInt8)) {st st' : State}
    (h : chunks.foldlM (fun st c => iappend st inum c) st = .ok st') : FileStep files inum fbS st st' :=
  Run.foldlM_rel _ (FileStep files inum fbS) FileStep.refl (fun _ _ _ h₁ h₂ => h₁.trans h₂) chunks
    (fun _ _ _ _ hc => iappend_step hc) st st' h

end File

/-! ## The root directory -/

/-- INTERNAL: a `struct dirent` is 16 bytes. -/
theorem direntBytes_length (inum : Nat) (name : List UInt8) : (direntBytes inum name).length = direntSize := by
  simp [direntBytes, dirsiz, direntSize]

/-- INTERNAL: the name in a `struct dirent` is the name, padded with zeros. -/
theorem direntBytes_getD_name (inum : Nat) (name : List UInt8) {i : Nat} (hi : i < dirsiz) :
    (direntBytes inum name).getD (2 + i) 0 = name.getD i 0 := by
  rw [Nat.add_comm]
  simp [direntBytes, List.getD_eq_getElem?_getD, hi]

/-- INTERNAL: the loop of `iappend` with every byte written. -/
theorem iappendLoop_done (p : List UInt8) (fuel : Nat) (st : State) (din : Dinode) (off : Nat) {pos : Nat}
    (h : ¬pos < p.length) : iappendLoop p fuel st din off pos = .ok (st, din, off) := by
  cases fuel with
  | zero => rfl
  | succ fuel =>
      rw [iappendLoop, if_neg h]
      rfl

/-- The root's entry after its `n`-th, in its one block (mkfs.c:124-127, 153-156). -/
theorem iappend_root {st : State} {bytes : List UInt8} (hb : bytes.length = direntSize) {n : Nat}
    (hroot : st.disk.dinode rootino = rootDinode (direntSize * n)) (hn : n < bsize / direntSize) :
    iappend st rootino bytes = .ok
      { st with
        disk := (st.disk.writeData nmeta (direntSize * n) direntSize fun i => bytes.getD i 0).setDinode
          rootino (rootDinode (direntSize * (n + 1))) } := by
  have h0 : direntSize * n / bsize = 0 := by
    unfold direntSize bsize at *
    omega
  have hblk : iappendBlock st (rootDinode (direntSize * n)) 0 = (st, rootDinode (direntSize * n), nmeta) := by
    have hm : nmeta ≠ 0 := by decide
    simp [iappendBlock, ndirect, hm]
  unfold iappend
  dsimp only
  rw [hroot, rootDinode_size, iappendLoop, if_pos (by rw [hb]; decide), if_neg (by rw [h0]; decide)]
  dsimp only
  rw [h0, hblk]
  dsimp only
  have hn1 : min (bytes.length - 0) ((0 + 1) * bsize - direntSize * n) = direntSize := by
    rw [hb]
    unfold direntSize bsize at *
    omega
  rw [hn1, iappendLoop_done _ _ _ _ _ (by rw [hb]; omega)]
  simp only [Nat.zero_mul, Nat.sub_zero, Nat.zero_add, Run.ok_bind]
  rfl

/-- The root's first entry, `.`: its first block is the first after the metadata. -/
theorem iappend_root_first {st : State} {bytes : List UInt8} (hb : bytes.length = direntSize)
    (hroot : st.disk.dinode rootino = { Dinode.zero with type := .dir, nlink := 1 })
    (hfb : st.freeblock = nmeta) :
    iappend st rootino bytes = .ok
      { st with
        disk := (st.disk.writeData nmeta 0 direntSize fun i => bytes.getD i 0).setDinode
          rootino (rootDinode direntSize)
        freeblock := nmeta + 1 } := by
  have hblk : iappendBlock st { Dinode.zero with type := .dir, nlink := 1 } (Dinode.zero.size / bsize) =
      ({ st with freeblock := nmeta + 1 }, ({ Dinode.zero with type := .dir, nlink := 1 } : Dinode).setAddr 0 nmeta,
        nmeta) := by
    simp [iappendBlock, ndirect, Dinode.zero, hfb]
  unfold iappend
  dsimp only
  have hz : Dinode.zero.size = 0 := rfl
  rw [hroot, iappendLoop, if_pos (by rw [hb]; decide), if_neg (by decide)]
  dsimp only
  rw [hblk]
  dsimp only
  rw [hz, Nat.zero_div]
  have hn1 : min (bytes.length - 0) ((0 + 1) * bsize - 0) = direntSize := by
    rw [hb]
    decide
  rw [hn1, iappendLoop_done _ _ _ _ _ (by rw [hb]; omega)]
  simp only [Nat.zero_mul, Nat.sub_zero, Nat.zero_add, Run.ok_bind]
  rfl

/-! ## The files, one after another -/

section Image

variable {files}

/-- INTERNAL: the root's entries with one more written after the `n`-th. -/
theorem entries_rootAppend {D : FsImage} {n : Nat} {e : List UInt8}
    (hold : ∀ j, j < n → RootEntry files fun o => D.data nmeta (direntSize * j + o))
    (hnew : RootEntry files fun o => e.getD o 0) :
    ∀ j, j < n + 1 → RootEntry files fun o =>
      (D.writeData nmeta (direntSize * n) direntSize fun i => e.getD i 0).data nmeta (direntSize * j + o) := by
  intro j hj
  rw [FsImage.writeData_data, if_pos rfl]
  by_cases hjn : j = n
  · -- the new entry
    subst hjn
    refine hnew.congr fun o ho => ?_
    rw [overlay_of_mem _ (Nat.le_add_right _ _) (by omega), Nat.add_sub_cancel_left]
  · -- an entry before it, where nothing is written
    refine (hold j (by omega)).congr fun o ho => ?_
    exact overlay_of_not_mem _ (Or.inl (by unfold direntSize at *; omega))

/-- A file's start (mkfs.c:143-157): its inode, the next i-number, without addresses,
and its entry in the root. -/
theorem MkInv.startFile {st : State} (h : MkInv files st) {f : List UInt8 × List UInt8} (hf : f ∈ files)
    (hfi : st.freeinode < bsize / direntSize) {st₀ : State} {inum : Nat}
    (hia : ialloc st .file = (st₀, inum)) :
    ∃ st₁, iappend st₀ rootino (direntBytes inum (fileName f.1)) = .ok st₁ ∧
      st₁.freeinode = st.freeinode + 1 ∧ FileInv files st₁ inum (st₁.disk.dinode inum) st.freeblock := by
  simp only [ialloc, Prod.mk.injEq] at hia
  obtain ⟨rfl, rfl⟩ := hia
  have hne : st.freeinode ≠ rootino := by
    have := h.inode
    unfold rootino
    omega
  have hroot : (st.disk.setDinode st.freeinode { Dinode.zero with type := .file, nlink := 1 }).dinode rootino =
      rootDinode (direntSize * st.freeinode) := by
    rw [FsImage.setDinode_dinode, if_neg hne.symm, h.root]
  refine ⟨_, iappend_root (direntBytes_length _ _) hroot hfi, rfl, ?_⟩
  have hcur : ∀ j, j ≠ rootino → j ≠ st.freeinode → nmeta ≠ (st.disk.dinode j).addrs ndirect := fun j hj hj' =>
    ((h.others j hj).ind_ne_lt (Nat.lt_succ_self _) (by decide)).symm
  refine ⟨by simp, entries_rootAppend h.entries ⟨st.freeinode, fileName f.1, Or.inr (Or.inr ⟨f, hf, rfl⟩),
      fun _ _ => rfl⟩, fun b hb o => ?_, fun i hi hi' => ?_, ?_, ?_, h.pastMeta, le_rfl, hne, ?_, ?_, h.sb⟩
  · -- the blocks from `freeblock` on are untouched
    have hb' : st.freeblock ≤ b := hb
    simp only [FsImage.setDinode_data]
    rw [FsImage.writeData_data_of_ne _ _ _ _ (by have := h.pastMeta; omega)]
    exact h.fresh b hb' o
  · -- the other inodes, whose indirect blocks are not the root's
    simp only [FsImage.setDinode_dinode, FsImage.writeData_dinode, if_neg hi, if_neg hi']
    exact (h.others i hi).congr fun j => FsImage.entry_writeData_of_ne _ _ _ _ (hcur i hi hi').symm j
  · simp only [FsImage.setDinode_dinode, FsImage.writeData_dinode, if_neg hne, if_true]
    exact RefsIn.of_zero (fun _ => rfl) _ _
  · simp only [FsImage.setDinode_dinode, FsImage.writeData_dinode, if_neg hne, if_true]
    exact fun hind => absurd rfl hind
  · have := h.inode
    simp only
    omega
  · simp only
    omega

/-- INTERNAL: the file's blocks, from `fbS` on, join the others once it is written. -/
theorem FileInv.toMkInv {st : State} {inum fbS : Nat} (h : FileInv files st inum (st.disk.dinode inum) fbS) :
    MkInv files st := by
  refine ⟨h.root, h.entries, h.fresh, fun i hi => ?_, by have := h.startLe; have := h.pastMeta; omega,
    h.inode, h.fits, h.sb⟩
  by_cases hii : i = inum
  · subst hii
    exact h.cur.mono (by have := h.pastMeta; omega) le_rfl
  · exact (h.others i hi hii).mono le_rfl h.startLe

/-- What a step of `mkfs` between two files does: it hands out blocks and i-numbers,
and keeps the invariant while within a bound on both. -/
def MkStep (files : List (List UInt8 × List UInt8)) (s s' : State) : Prop :=
  s.freeblock ≤ s'.freeblock ∧ s.freeinode ≤ s'.freeinode ∧
    (MkInv files s → s'.freeblock ≤ 2 ^ 32 → s'.freeinode ≤ bsize / direntSize → MkInv files s')

theorem MkStep.refl (s : State) : MkStep files s s :=
  ⟨le_rfl, le_rfl, fun h _ _ => h⟩

theorem MkStep.trans {s t u : State} (h₁ : MkStep files s t) (h₂ : MkStep files t u) : MkStep files s u :=
  ⟨le_trans h₁.1 h₂.1, le_trans h₁.2.1 h₂.2.1,
    fun h hb hi => h₂.2.2 (h₁.2.2 h (le_trans h₂.1 hb) (le_trans h₂.2.1 hi)) hb hi⟩

/-- One file argument (mkfs.c:137-161): the next i-number, and blocks for its content. -/
theorem addFile_step {f : List UInt8 × List UInt8} (hf : f ∈ files) {st st' : State}
    (h : addFile st f = .ok st') : MkStep files st st' ∧ st'.freeinode = st.freeinode + 1 := by
  unfold addFile at h
  by_cases hs : 47 ∈ f.1
  · rw [if_pos hs] at h
    cases h
  rw [if_neg hs] at h
  generalize hia : ialloc st .file = p at h
  obtain ⟨st₀, inum⟩ := p
  dsimp only at h
  obtain ⟨hfb₀, hfi₀⟩ : st₀.freeblock = st.freeblock ∧ st₀.freeinode = st.freeinode + 1 := by
    simp only [ialloc, Prod.mk.injEq] at hia
    obtain ⟨rfl, rfl⟩ := hia
    exact ⟨rfl, rfl⟩
  cases hr : iappend st₀ rootino (direntBytes inum (fileName f.1)) with
  | error e =>
      rw [hr] at h
      cases h
  | ok st₁ =>
      rw [hr, Run.ok_bind] at h
      -- the counters move the same way from any state
      obtain ⟨hfb₁, hfi₁, -⟩ := @iappend_step files rootino 0 _ _ _ hr
      obtain ⟨hfb₂, hfi₂, hfile⟩ := @foldlM_iappend_step files inum st.freeblock _ _ _ h
      refine ⟨⟨by omega, by omega, fun hinv hfb hfi => ?_⟩, by omega⟩
      obtain ⟨st₁', hr', _, hstart⟩ := hinv.startFile hf (by omega) hia
      rw [hr] at hr'
      cases hr'
      exact (hfile hstart hfb).toMkInv

/-- The file arguments, one after another. -/
theorem foldlM_addFile {st st' : State} (h : files.foldlM addFile st = .ok st') :
    MkStep files st st' ∧ st'.freeinode = st.freeinode + files.length :=
  ⟨Run.foldlM_rel addFile (MkStep files) MkStep.refl (fun _ _ _ h₁ h₂ => h₁.trans h₂) files
      (fun _ hf _ _ h => (addFile_step hf h).1) st st' h,
    Run.foldlM_count addFile State.freeinode files (fun _ hf _ _ h => (addFile_step hf h).2) st st' h⟩

/-- The root directory with `.` and `..` (mkfs.c:122-135): inode 1, and the first block
after the metadata. -/
theorem mkfs_root {st₀ : State} {root : Nat} (hia : ialloc start .dir = (st₀, root)) :
    root = rootino ∧ ∃ st₁ st₂, iappend st₀ root (direntBytes root [46]) = .ok st₁ ∧
      iappend st₁ root (direntBytes root [46, 46]) = .ok st₂ ∧ st₂.freeinode = 2 ∧ MkInv files st₂ := by
  simp only [ialloc, Prod.mk.injEq] at hia
  obtain ⟨rfl, rfl⟩ := hia
  refine ⟨rfl, _, _, iappend_root_first (direntBytes_length _ _) ?_ rfl,
    iappend_root (n := 1) (direntBytes_length _ _) (by simp) (by decide), rfl, ?_⟩
  · rw [FsImage.setDinode_dinode, if_pos (show rootino = start.freeinode from rfl)]
  have hdot : ∀ j, j < 1 → RootEntry files fun o =>
      (start.disk.writeData nmeta (direntSize * 0) direntSize fun i => (direntBytes 1 [46]).getD i 0).data nmeta
        (direntSize * j + o) :=
    entries_rootAppend (fun _ h => absurd h (Nat.not_lt_zero _)) ⟨1, [46], Or.inl rfl, fun _ _ => rfl⟩
  refine ⟨by rw [FsImage.setDinode_dinode, if_pos rfl]; rfl,
    entries_rootAppend hdot ⟨1, [46, 46], Or.inr (Or.inl rfl), fun _ _ => rfl⟩,
    fun b hb o => ?_, fun i hi => ?_, Nat.lt_succ_self _, le_rfl, by decide, rfl⟩
  · -- no block from `freeblock` on is written
    have hb' : nmeta + 1 ≤ b := hb
    simp only [FsImage.setDinode_data]
    rw [FsImage.writeData_data_of_ne _ _ _ _ (by omega)]
    simp only [FsImage.setDinode_data]
    rw [FsImage.writeData_data_of_ne _ _ _ _ (by omega)]
    rfl
  · -- every other inode is free
    have hi1 : i ≠ 1 := hi
    refine RefsIn.of_zero (fun k => ?_) _ _
    simp [start, Dinode.zero, hi1, rootino]

/-- **The image `mkfs` writes**, of at most 30 files (one block of root entries): the
invariant holds of its last state, whose root size is rounded up to the next block, and
whose blocks below `freeblock` are marked (mkfs.c:163-166). -/
theorem mkfs_image {D : FsImage} (hmk : mkfs files = .ok D) (hfits : 2 + files.length ≤ bsize / direntSize) :
    ∃ st, MkInv files st ∧ st.freeinode = 2 + files.length ∧ st.freeblock < bsize * 8 ∧
      D = { st.disk.setDinode rootino (rootDinode ((direntSize * st.freeinode / bsize + 1) * bsize)) with
        used := fun b => decide (b < st.freeblock) } := by
  unfold mkfs at hmk
  generalize hia : ialloc start .dir = p at hmk
  obtain ⟨st₀, root⟩ := p
  obtain ⟨rfl, st₁, st₂, h₁, h₂, hfi₂, hinv₂⟩ := @mkfs_root files _ _ hia
  dsimp only at hmk
  rw [if_neg (by decide), h₁, Run.ok_bind, h₂, Run.ok_bind] at hmk
  cases hf : files.foldlM addFile st₂ with
  | error e =>
      rw [hf] at hmk
      cases hmk
  | ok st₃ =>
      rw [hf, Run.ok_bind] at hmk
      obtain ⟨⟨-, -, hstep⟩, hcount⟩ := foldlM_addFile hf
      by_cases hb : bsize * 8 ≤ st₃.freeblock
      · rw [if_pos hb] at hmk
        cases hmk
      rw [if_neg hb] at hmk
      have hfi : st₃.freeinode = 2 + files.length := by rw [hcount, hfi₂]
      have hinv₃ := hstep hinv₂ (by unfold bsize at hb; omega) (by omega)
      refine ⟨st₃, hinv₃, hfi, by omega, ?_⟩
      rw [hinv₃.root] at hmk
      cases hmk
      rfl

end Image

/-! ## The first lookup in a full root -/

section Lookup

variable {files}

/-- INTERNAL: a root entry of `mkfs` misses every name other than `.`, `..` and the
file names. -/
theorem RootEntry.misses {e : Nat → UInt8} (h : RootEntry files e) {name : Nat → UInt8}
    (hdot : FsImage.namecmp name (FsImage.cstr [46]) ≠ 0) (hdotdot : FsImage.namecmp name (FsImage.cstr [46, 46]) ≠ 0)
    (hfiles : ∀ f ∈ files, FsImage.namecmp name (FsImage.cstr (fileName f.1)) ≠ 0) : FsImage.EntryMisses name e := by
  obtain ⟨inum, name', hname', hbytes⟩ := h
  have hcmp : FsImage.namecmp name (fun i => e (2 + i)) = FsImage.namecmp name (FsImage.cstr name') :=
    FsImage.namecmp_congr name fun i hi => by
      rw [hbytes (2 + i) (by unfold direntSize dirsiz at *; omega), direntBytes_getD_name _ _ hi]
      rfl
  right
  rw [hcmp]
  rcases hname' with rfl | rfl | ⟨f, hf, rfl⟩
  · exact hdot
  · exact hdotdot
  · exact hfiles f hf

/-- A lookup in a root of two blocks whose first, the block after the metadata, holds
no entry named `name`, and whose second has no address: `bmap` allocates the second
block, `B`, the first free one, whose zeros hold no entry, and the lookup misses. -/
theorem dirlookup_two_blocks (devsw : Nat → Option Devsw) (D : FsImage) (name : Nat → UInt8) {B : Nat}
    (hmeta : ∀ j, j < bsize / direntSize → FsImage.EntryMisses name fun i => D.data nmeta (direntSize * j + i))
    (hB : B < D.sb.size) (hB0 : B ≠ 0) (hfree : D.used B = false) (hused : ∀ c, c < B → D.used c = true) :
    D.dirlookup devsw (rootDinode (2 * bsize)) name =
      .ok ((D.setUsed B true).bzero B, (rootDinode (2 * bsize)).setAddr 1 B, none) := by
  have hwrap : (rootDinode (2 * bsize)).size < uintMod := by
    rw [rootDinode_size, uintMod_eq]
    decide
  have hzero : ∀ o, ((D.setUsed B true).bzero B).data B o = 0 := by simp
  unfold FsImage.dirlookup
  rw [if_neg (by simp)]
  -- the 65 steps: the 32 entries of the first block, the hole, its other 31 entries, the end
  rw [rootDinode_size, show 2 * bsize / direntSize + 1 = 1 + 31 + 1 + 32 from rfl]
  have h₁ := D.dirlookupLoop_block devsw name (rootDinode (2 * bsize)) (by simp) (by decide)
    (show (rootDinode (2 * bsize)).addrs 0 = nmeta by simp) (by decide) hwrap 32 0 (1 + 31 + 1) (by decide) (by decide) fun j _ hj => hmeta j hj
  have h₂ := D.dirlookupLoop_hole devsw name (rootDinode (2 * bsize)) (1 + 31) (by simp)
    (by decide) (show (rootDinode (2 * bsize)).addrs 1 = 0 by simp) (D.balloc_first_free hB hfree hused) hzero (by decide) hwrap
  have h₃ := FsImage.dirlookupLoop_block ((D.setUsed B true).bzero B) devsw name
    ((rootDinode (2 * bsize)).setAddr 1 B) (by simp) (by decide)
    (show ((rootDinode (2 * bsize)).setAddr 1 B).addrs 1 = B by simp) hB0 (by simpa using hwrap)
    31 1 1 (by decide) (by simp; decide) fun j _ _ => Or.inl (by simp [le16, hzero])
  rw [Nat.mul_one direntSize] at h₃
  rw [show (0 : Nat) = bsize * 0 + direntSize * 0 from rfl, h₁, show bsize * 0 + direntSize * (0 + 32) = bsize * 1
    from rfl, h₂, h₃, FsImage.dirlookupLoop, if_neg (by simp; decide)]
  rfl

/-- INTERNAL: `namei` of a path of one element from the root. -/
theorem namei_root_elem (devsw : Nat → Option Devsw) {D D' : FsImage} {dp' : Dinode} (cwd : Nat)
    {path elem : List UInt8} (hpath : FsImage.pathElems path = [elem]) (hstart : path.head? = some 47 ∨ cwd = rootino)
    (hroot : D.dinode rootino = rootDinode (2 * bsize))
    (hlook : D.dirlookup devsw (rootDinode (2 * bsize)) (FsImage.skipelem elem) = .ok (D', dp', none)) :
    D.namei devsw cwd path = .ok (D', none) := by
  have hdir : (if path.head? = some 47 then rootino else cwd) = rootino := by
    by_cases h47 : path.head? = some 47
    · rw [if_pos h47]
    · rw [if_neg h47]
      exact hstart.resolve_left h47
  unfold FsImage.namei
  rw [hpath, hdir, FsImage.nameiLoop, hroot, if_neg (by simp), if_neg (by simp), hlook]
  rfl

/-- INTERNAL: the root's one block is the block after the metadata. -/
theorem rootDinode_refsIn (D : FsImage) (sz : Nat) : RefsIn D (rootDinode sz) nmeta (nmeta + 1) := by
  refine ⟨fun k _ => ?_, fun hind => absurd (by simp [ndirect]) hind⟩
  by_cases hk : k = 0
  · right
    simp [hk]
  · left
    simp [hk]

end Lookup

end Mkfs

/-- **A lookup in a full root leaks a block.**  When `mkfs` writes 30 files, the 32
entries of the root fill its first block, and the root's size, rounded up to the next
block, takes in a second block without an address.  The first lookup of a name the root
does not hold, as `init`'s `open("console")`, reads that hole: `bmap` allocates the
first free block and marks it, but only the cached inode records it, `readi` writing no
inode back.  The disk has a marked block that no inode references. -/
theorem mkfs_root_hole_leaks_block (files : List (List UInt8 × List UInt8)) {D : FsImage}
    (hmk : Mkfs.mkfs files = .ok D) (hlen : files.length = 30) (devsw : Nat → Option Devsw) (cwd : Nat)
    {path elem : List UInt8} (hpath : FsImage.pathElems path = [elem]) (hstart : path.head? = some 47 ∨ cwd = rootino)
    (hdot : FsImage.namecmp (FsImage.skipelem elem) (FsImage.cstr [46]) ≠ 0)
    (hdotdot : FsImage.namecmp (FsImage.skipelem elem) (FsImage.cstr [46, 46]) ≠ 0)
    (hfiles : ∀ f ∈ files, FsImage.namecmp (FsImage.skipelem elem) (FsImage.cstr (Mkfs.fileName f.1)) ≠ 0) :
    ∃ D' B, D.namei devsw cwd path = .ok (D', none) ∧ Mkfs.nmeta ≤ B ∧ B < D'.sb.size ∧
      D'.used B = true ∧ D'.refs B = 0 ∧ ¬ D'.BitmapLaw := by
  obtain ⟨st, hinv, hfi, hfb, rfl⟩ := Mkfs.mkfs_image hmk (by rw [hlen]; decide)
  have hsize : (direntSize * st.freeinode / bsize + 1) * bsize = 2 * bsize := by
    rw [hfi, hlen]
    rfl
  rw [hsize]
  have hmeta₁ := hinv.pastMeta
  have hB : st.freeblock < fssize := by
    unfold fssize
    unfold bsize at hfb
    omega
  have hmeta : ∀ j, j < bsize / direntSize → FsImage.EntryMisses (FsImage.skipelem elem) fun i =>
      st.disk.data Mkfs.nmeta (direntSize * j + i) := fun j hj =>
    (hinv.entries j (by rw [hfi, hlen]; exact hj)).misses hdot hdotdot hfiles
  have hlook := Mkfs.dirlookup_two_blocks devsw (B := st.freeblock)
    { st.disk.setDinode rootino (Mkfs.rootDinode (2 * bsize)) with used := fun b => decide (b < st.freeblock) }
    (FsImage.skipelem elem) hmeta (by simp [hinv.sb, hB]) (by omega) (by simp) fun c hc => by simp [hc]
  -- the block taken is referenced by no inode: the others' blocks are below it
  have hrefs : ((({ st.disk.setDinode rootino (Mkfs.rootDinode (2 * bsize)) with
      used := fun b => decide (b < st.freeblock) } : FsImage).setUsed st.freeblock true).bzero st.freeblock).refs
        st.freeblock = 0 := by
    apply FsImage.refs_eq_zero
    intro i _ _
    by_cases hi : i = rootino
    · simp only [FsImage.bzero_dinode, FsImage.setUsed_dinode, FsImage.setDinode_dinode, if_pos hi]
      exact ((Mkfs.rootDinode_refsIn _ _).mono le_rfl (by omega)).refsTo_eq_zero le_rfl (by omega)
    · simp only [FsImage.bzero_dinode, FsImage.setUsed_dinode, FsImage.setDinode_dinode, if_neg hi]
      have hind := (hinv.others i hi).ind_ne le_rfl (by omega)
      refine ((hinv.others i hi).congr fun j => ?_).refsTo_eq_zero le_rfl (by omega)
      unfold FsImage.entry
      simp [hind]
  refine ⟨_, st.freeblock, Mkfs.namei_root_elem devsw cwd hpath hstart (by simp) hlook, by omega,
    by simp [hinv.sb, hB], by simp, hrefs, fun hlaw => ?_⟩
  have h1 := (hlaw.1 st.freeblock (by omega) (by simp [hinv.sb, hB])).1 (by simp)
  rw [hrefs] at h1
  cases h1

/-- INTERNAL: `mkfs` writes an image of the thirty files. -/
theorem mkfs_demoFiles : Mkfs.mkfs demoFiles = .ok demoImage := by
  have hok : (Mkfs.mkfs demoFiles).isOk = true := by decide +kernel
  unfold demoImage
  cases h : Mkfs.mkfs demoFiles with
  | error e =>
      rw [h] at hok
      cases hok
  | ok D => rfl

/-- Its first boot: `init`'s `open("console")` from the root leaks a block. -/
theorem console_open_leaks_block :
    ∃ D' B, demoImage.namei (fun _ => none) rootino [99, 111, 110, 115, 111, 108, 101] = .ok (D', none) ∧
      Mkfs.nmeta ≤ B ∧ B < D'.sb.size ∧ D'.used B = true ∧ D'.refs B = 0 ∧ ¬ D'.BitmapLaw :=
  @mkfs_root_hole_leaks_block demoFiles demoImage mkfs_demoFiles (by decide) (fun _ => none) rootino
    [99, 111, 110, 115, 111, 108, 101] [99, 111, 110, 115, 111, 108, 101] (by decide) (Or.inr rfl) (by decide)
    (by decide) (by decide)

end Xv6
