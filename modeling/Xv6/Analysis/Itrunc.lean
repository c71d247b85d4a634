import Xv6.Analysis.InodeWrite

/-!
# `itrunc` frees exactly the blocks of the inode

`itrunc(ip)` (fs.c:409-433) frees the direct blocks of the inode, then every block its
indirect block lists and the indirect block itself, and writes back the inode with no
blocks and size `0`.  `bfree` panics on a block whose bit is clear, so a block listed
twice, or not marked, stops the kernel.

On a well-formed inode (`InodeWf`) none of that happens: its blocks are marked and no two
of its block numbers, nor the indirect block, share a block, so each `bfree` finds its bit
set.  `itrunc` then returns, clears the bits of the inode's own blocks (`OwnsBlock`) and no
others, writes no data, and leaves the inode `Dinode.truncated`
(`itrunc_frees_own_blocks`).  Each loop is one induction on the fuel with the blocks freed
so far as a set (`Frees`).
-/

set_option autoImplicit false

namespace Xv6

/-- The inode `itrunc` leaves: size `0` and no direct or indirect block. -/
def Dinode.truncated (ip : Dinode) : Dinode :=
  { ip with size := 0, addrs := fun k => if k ≤ ndirect then 0 else ip.addrs k }

/-- INTERNAL: an inode is the inode with its own addresses. -/
theorem Dinode.with_addrs_eq (ip : Dinode) {f : Nat → Nat} (h : ∀ j, f j = ip.addrs j) :
    ({ ip with addrs := f } : Dinode) = ip := by
  have hf : f = ip.addrs := funext h
  subst hf
  rfl

namespace FsImage

/-- The blocks of an inode: its data blocks below `MAXFILE` and its indirect block, `0`
standing for none. -/
def OwnsBlock (D : FsImage) (ip : Dinode) (b : Nat) : Prop :=
  b ≠ 0 ∧ ((∃ bn, bn < maxfile ∧ D.blockAddr ip bn = b) ∨ ip.addrs ndirect = b)

/-- INTERNAL: the direct blocks of an inode are its addresses below `NDIRECT`. -/
theorem blockAddr_direct (D : FsImage) (ip : Dinode) {bn : Nat} (hbn : bn < ndirect) :
    D.blockAddr ip bn = ip.addrs bn := by
  unfold blockAddr
  rw [if_pos hbn]

/-- INTERNAL: the block numbers past the direct ones are the entries of the indirect block. -/
theorem blockAddr_indirect (D : FsImage) (ip : Dinode) (hind : ip.addrs ndirect ≠ 0) (k : Nat) :
    D.blockAddr ip (ndirect + k) = le32 (D.data (ip.addrs ndirect)) (4 * k) := by
  unfold blockAddr entry
  rw [if_neg (by omega), if_neg hind, Nat.add_sub_cancel_left]

/-- The blocks of an inode without an indirect block are its nonzero direct addresses. -/
theorem ownsBlock_of_ind_zero (D : FsImage) {ip : Dinode} (hind : ip.addrs ndirect = 0) (b : Nat) :
    D.OwnsBlock ip b ↔ b ≠ 0 ∧ ∃ j, 0 ≤ j ∧ j < ndirect ∧ ip.addrs j = b := by
  constructor
  · rintro ⟨hb, ⟨bn, hbn, hbb⟩ | hbb⟩
    · by_cases hd : bn < ndirect
      · exact ⟨hb, bn, Nat.zero_le _, hd, by rw [← blockAddr_direct D ip hd]; exact hbb⟩
      · -- past the direct blocks an inode without an indirect block has none
        unfold blockAddr at hbb
        rw [if_neg hd, if_pos hind] at hbb
        exact absurd hbb.symm hb
    · exact absurd (hbb.symm.trans hind) hb
  · rintro ⟨hb, j, -, hj, hjb⟩
    exact ⟨hb, Or.inl ⟨j, by unfold maxfile; omega, by rw [blockAddr_direct D ip hj]; exact hjb⟩⟩

/-- The blocks of an inode with an indirect block: its nonzero direct addresses, the
nonzero entries of the indirect block, and the indirect block. -/
theorem ownsBlock_of_ind (D : FsImage) {ip : Dinode} (hind : ip.addrs ndirect ≠ 0) (b : Nat) :
    D.OwnsBlock ip b ↔ ((b ≠ 0 ∧ ∃ j, 0 ≤ j ∧ j < ndirect ∧ ip.addrs j = b) ∨
      (b ≠ 0 ∧ ∃ k, 0 ≤ k ∧ k < nindirect ∧ le32 (D.data (ip.addrs ndirect)) (4 * k) = b)) ∨
      b = ip.addrs ndirect := by
  constructor
  · rintro ⟨hb, ⟨bn, hbn, hbb⟩ | hbb⟩
    · by_cases hd : bn < ndirect
      · exact Or.inl (Or.inl ⟨hb, bn, Nat.zero_le _, hd, by rw [← blockAddr_direct D ip hd]; exact hbb⟩)
      · obtain ⟨k, rfl⟩ := Nat.exists_eq_add_of_le (Nat.le_of_not_lt hd)
        refine Or.inl (Or.inr ⟨hb, k, Nat.zero_le _, by unfold maxfile at hbn; omega, ?_⟩)
        rw [← blockAddr_indirect D ip hind]
        exact hbb
    · exact Or.inr hbb.symm
  · rintro ((⟨hb, j, -, hj, hjb⟩ | ⟨hb, k, -, hk, hkb⟩) | rfl)
    · exact ⟨hb, Or.inl ⟨j, by unfold maxfile; omega, by rw [blockAddr_direct D ip hj]; exact hjb⟩⟩
    · exact ⟨hb, Or.inl ⟨ndirect + k, by unfold maxfile; omega, by rw [blockAddr_indirect D ip hind]; exact hkb⟩⟩
    · exact ⟨hind, Or.inr rfl⟩

/-- INTERNAL: the inode with size `0` and no blocks is the truncated one. -/
theorem Dinode.truncated_eq (ip : Dinode) {g : Nat → Nat} (hg : ∀ k, g k = if k ≤ ndirect then 0 else ip.addrs k) :
    ({ ip with size := 0, addrs := g } : Dinode) = ip.truncated := by
  have hfun : g = fun k => if k ≤ ndirect then 0 else ip.addrs k := funext hg
  subst hfun
  rfl

/-! ## Freeing blocks -/

/-- `D'` is `D` with the bits of the blocks `S` cleared: no data, inode or superblock
changed. -/
structure Frees (D D' : FsImage) (S : Nat → Prop) : Prop where
  data : D'.data = D.data
  dinode : D'.dinode = D.dinode
  sb : D'.sb = D.sb
  used : ∀ b, D'.used b = true ↔ D.used b = true ∧ ¬S b

theorem Frees.refl (D : FsImage) {S : Nat → Prop} (hS : ∀ b, ¬S b) : Frees D D S :=
  ⟨rfl, rfl, rfl, fun b => ⟨fun hb => ⟨hb, hS b⟩, fun hb => hb.1⟩⟩

theorem Frees.trans {D₁ D₂ D₃ : FsImage} {S T : Nat → Prop} (h₁ : Frees D₁ D₂ S) (h₂ : Frees D₂ D₃ T) :
    Frees D₁ D₃ fun b => S b ∨ T b :=
  ⟨h₂.data.trans h₁.data, h₂.dinode.trans h₁.dinode, h₂.sb.trans h₁.sb, fun b => by
    rw [h₂.used, h₁.used]
    tauto⟩

theorem Frees.congr {D D' : FsImage} {S T : Nat → Prop} (h : Frees D D' S) (hST : ∀ b, S b ↔ T b) :
    Frees D D' T :=
  ⟨h.data, h.dinode, h.sb, fun b => by rw [h.used, hST]⟩

/-- `bfree` of a marked block clears its bit. -/
theorem bfree_frees (D : FsImage) {b : Nat} (hb : D.used b = true) :
    Run.Post (fun _ => False) (fun D' => Frees D D' (· = b)) (D.bfree b) := by
  unfold bfree
  rw [if_neg (by rw [hb]; decide)]
  refine ⟨rfl, rfl, rfl, fun c => ?_⟩
  rw [setUsed_used]
  by_cases hc : c = b
  · rw [if_pos hc]
    simp [hc]
  · rw [if_neg hc]
    simp [hc]

/-! ## The loops of `itrunc` -/

/-- The loop over the direct blocks from `i`: with its marked blocks distinct, it frees each
of them and clears its address. -/
theorem itruncDirect_post (fuel : Nat) :
    ∀ (D : FsImage) (ip : Dinode) (i : Nat), ndirect - i ≤ fuel →
      (∀ j, i ≤ j → j < ndirect → ip.addrs j ≠ 0 → D.used (ip.addrs j) = true) →
      (∀ j j', i ≤ j → j < ndirect → i ≤ j' → j' < ndirect → ip.addrs j ≠ 0 → ip.addrs j = ip.addrs j' →
        j = j') →
      Run.Post (fun _ => False)
        (fun r : FsImage × Dinode =>
          Frees D r.1 (fun b => b ≠ 0 ∧ ∃ j, i ≤ j ∧ j < ndirect ∧ ip.addrs j = b) ∧
          r.2 = { ip with addrs := fun j => if i ≤ j ∧ j < ndirect then 0 else ip.addrs j })
        (itruncDirect fuel D ip i) := by
  -- induction on the fuel; the addresses from `i` on are those of the inode given
  induction fuel with
  | zero =>
    intro D ip i hf _ _
    refine ⟨Frees.refl D fun b hb => ?_, (ip.with_addrs_eq fun j => if_neg (by omega)).symm⟩
    obtain ⟨-, j, hj, hj', -⟩ := hb
    omega
  | succ fuel ih =>
    intro D ip i hf hused hinj
    rw [itruncDirect]
    by_cases hi : i < ndirect
    · rw [if_pos hi]
      by_cases h0 : ip.addrs i ≠ 0
      · -- a block: free it, then the blocks after it, none of which is it
        rw [if_pos h0]
        refine Run.Post.bind (D.bfree_frees (hused i le_rfl hi h0)) ?_
        intro D₁ hD₁
        have hne : ∀ j, i + 1 ≤ j → j < ndirect → ip.addrs j ≠ 0 → ip.addrs j ≠ ip.addrs i :=
          fun j h₁ h₂ hj heq => absurd (hinj j i (by omega) h₂ le_rfl hi hj heq) (by omega)
        have hset : ∀ j, i + 1 ≤ j → (ip.setAddr i 0).addrs j = ip.addrs j := fun j hj => by
          rw [Dinode.setAddr_addrs, if_neg (by omega)]
        refine (ih D₁ _ (i + 1) (by omega) (fun j h₁ h₂ hj => ?_) (fun j j' h₁ h₂ h₁' h₂' hj heq => ?_)).mono ?_
        · rw [hset j h₁] at hj ⊢
          rw [hD₁.used]
          exact ⟨hused j (by omega) h₂ hj, hne j h₁ h₂ hj⟩
        · rw [hset j h₁, hset j' h₁'] at heq
          rw [hset j h₁] at hj
          exact hinj j j' (by omega) h₂ (by omega) h₂' hj heq
        · rintro ⟨D₂, ip₂⟩ ⟨hD₂, hip₂⟩
          refine ⟨(hD₁.trans hD₂).congr fun b => ?_, ?_⟩
          · -- the block freed first, then the blocks after it
            constructor
            · rintro (rfl | ⟨hb, j, h₁, h₂, hj⟩)
              · exact ⟨h0, i, le_rfl, hi, rfl⟩
              · rw [hset j h₁] at hj
                exact ⟨hb, j, by omega, h₂, hj⟩
            · rintro ⟨hb, j, h₁, h₂, hj⟩
              by_cases hji : j = i
              · left
                rw [← hj, hji]
              · right
                exact ⟨hb, j, by omega, h₂, by rw [hset j (by omega)]; exact hj⟩
          · rw [hip₂]
            show ({ ip with addrs := _ } : Dinode) = { ip with addrs := _ }
            congr 1
            funext j
            rw [Dinode.setAddr_addrs]
            -- address `i` is cleared here, the ones after it by the rest of the loop
            split_ifs <;> omega
      · -- no block: go on with the next address
        rw [if_neg h0]
        refine (ih D ip (i + 1) (by omega) (fun j h₁ h₂ hj => hused j (by omega) h₂ hj)
          (fun j j' h₁ h₂ h₁' h₂' => hinj j j' (by omega) h₂ (by omega) h₂')).mono ?_
        rintro ⟨D₂, ip₂⟩ ⟨hD₂, hip₂⟩
        refine ⟨hD₂.congr fun b => ?_, ?_⟩
        · constructor
          · rintro ⟨hb, j, h₁, h₂, hj⟩
            exact ⟨hb, j, by omega, h₂, hj⟩
          · rintro ⟨hb, j, h₁, h₂, hj⟩
            have hji : j ≠ i := fun hji => h0 (by rw [← hji, hj]; exact hb)
            exact ⟨hb, j, by omega, h₂, hj⟩
        · rw [hip₂]
          congr 1
          funext j
          by_cases hji : j = i
          · -- the address skipped is `0` already
            subst hji
            rw [if_neg (by omega), if_pos ⟨le_rfl, hi⟩]
            exact not_not.mp h0
          · split_ifs <;> omega
    · -- past the last direct block
      rw [if_neg hi]
      refine ⟨Frees.refl D fun b hb => ?_, (ip.with_addrs_eq fun j => if_neg (by omega)).symm⟩
      obtain ⟨-, j, hj, hj', -⟩ := hb
      omega

/-- The loop over the entries `a` of the indirect block from `j`: with its marked blocks
distinct, it frees each of them. -/
theorem itruncIndirect_post (a : Nat → UInt8) (fuel : Nat) :
    ∀ (D : FsImage) (j : Nat), nindirect - j ≤ fuel →
      (∀ k, j ≤ k → k < nindirect → le32 a (4 * k) ≠ 0 → D.used (le32 a (4 * k)) = true) →
      (∀ k k', j ≤ k → k < nindirect → j ≤ k' → k' < nindirect → le32 a (4 * k) ≠ 0 →
        le32 a (4 * k) = le32 a (4 * k') → k = k') →
      Run.Post (fun _ => False)
        (fun D' => Frees D D' fun b => b ≠ 0 ∧ ∃ k, j ≤ k ∧ k < nindirect ∧ le32 a (4 * k) = b)
        (itruncIndirect a fuel D j) := by
  -- induction on the fuel, as for the direct blocks
  induction fuel with
  | zero =>
    intro D j hf _ _
    refine Frees.refl D fun b hb => ?_
    obtain ⟨-, k, hk, hk', -⟩ := hb
    omega
  | succ fuel ih =>
    intro D j hf hused hinj
    rw [itruncIndirect]
    by_cases hj : j < nindirect
    · rw [if_pos hj]
      by_cases h0 : le32 a (4 * j) ≠ 0
      · rw [if_pos h0]
        refine Run.Post.bind (D.bfree_frees (hused j le_rfl hj h0)) ?_
        intro D₁ hD₁
        refine (ih D₁ (j + 1) (by omega) (fun k h₁ h₂ hk => ?_)
          (fun k k' h₁ h₂ h₁' h₂' => hinj k k' (by omega) h₂ (by omega) h₂')).mono ?_
        · rw [hD₁.used]
          exact ⟨hused k (by omega) h₂ hk,
            fun heq => absurd (hinj k j (by omega) h₂ le_rfl hj hk heq) (by omega)⟩
        · intro D₂ hD₂
          refine (hD₁.trans hD₂).congr fun b => ⟨?_, ?_⟩
          · rintro (rfl | ⟨hb, k, h₁, h₂, hk⟩)
            · exact ⟨h0, j, le_rfl, hj, rfl⟩
            · exact ⟨hb, k, by omega, h₂, hk⟩
          · rintro ⟨hb, k, h₁, h₂, hk⟩
            by_cases hkj : k = j
            · left
              rw [← hk, hkj]
            · right
              exact ⟨hb, k, by omega, h₂, hk⟩
      · rw [if_neg h0]
        refine (ih D (j + 1) (by omega) (fun k h₁ h₂ hk => hused k (by omega) h₂ hk)
          (fun k k' h₁ h₂ h₁' h₂' => hinj k k' (by omega) h₂ (by omega) h₂')).mono ?_
        intro D₂ hD₂
        refine hD₂.congr fun b => ⟨?_, ?_⟩
        · rintro ⟨hb, k, h₁, h₂, hk⟩
          exact ⟨hb, k, by omega, h₂, hk⟩
        · rintro ⟨hb, k, h₁, h₂, hk⟩
          have hkj : k ≠ j := fun hkj => h0 (by rw [← hkj, hk]; exact hb)
          exact ⟨hb, k, by omega, h₂, hk⟩
    · rw [if_neg hj]
      refine Frees.refl D fun b hb => ?_
      obtain ⟨-, k, hk, hk', -⟩ := hb
      omega

/-! ## `itrunc` -/

/-- INTERNAL: on a well-formed inode the direct loop frees the nonzero direct addresses. -/
theorem InodeWf.itruncDirect_frees {D : FsImage} {ip : Dinode} (h : InodeWf D ip) :
    Run.Post (fun _ => False)
      (fun r : FsImage × Dinode =>
        Frees D r.1 (fun b => b ≠ 0 ∧ ∃ j, 0 ≤ j ∧ j < ndirect ∧ ip.addrs j = b) ∧
        r.2 = { ip with addrs := fun j => if 0 ≤ j ∧ j < ndirect then 0 else ip.addrs j })
      (itruncDirect ndirect D ip 0) := by
  have hdirect : ∀ bn, bn < ndirect → D.blockAddr ip bn = ip.addrs bn := fun bn hbn => blockAddr_direct D ip hbn
  refine itruncDirect_post ndirect D ip 0 (by omega) (fun j _ hj h0 => ?_) (fun j j' _ hj _ hj' h0 heq => ?_)
  · rw [← hdirect j hj] at h0 ⊢
    exact h.data_used j (by unfold maxfile; omega) h0
  · rw [← hdirect j hj, ← hdirect j' hj'] at heq
    rw [← hdirect j hj] at h0
    exact h.inj j j' (by unfold maxfile; omega) (by unfold maxfile; omega) h0 heq

/-- INTERNAL: on a well-formed inode with an indirect block, once the direct blocks are
freed, the loop over the indirect block frees its nonzero entries. -/
theorem InodeWf.itruncIndirect_frees {D D₁ : FsImage} {ip : Dinode} (h : InodeWf D ip)
    (hind : ip.addrs ndirect ≠ 0) (hD₁ : Frees D D₁ fun b => b ≠ 0 ∧ ∃ j, 0 ≤ j ∧ j < ndirect ∧ ip.addrs j = b) :
    Run.Post (fun _ => False)
      (fun D₂ => Frees D₁ D₂ fun b => b ≠ 0 ∧ ∃ k, 0 ≤ k ∧ k < nindirect ∧ le32 (D.data (ip.addrs ndirect)) (4 * k) = b)
      (itruncIndirect (D₁.data (ip.addrs ndirect)) nindirect D₁ 0) := by
  have hdata₁ : D₁.data (ip.addrs ndirect) = D.data (ip.addrs ndirect) := by rw [hD₁.data]
  have hentry : ∀ k, le32 (D₁.data (ip.addrs ndirect)) (4 * k) = D.blockAddr ip (ndirect + k) :=
    fun k => by rw [hdata₁, blockAddr_indirect D ip hind]
  refine (itruncIndirect_post _ nindirect D₁ 0 (by omega) (fun k _ hk h0 => ?_)
    (fun k k' _ hk _ hk' h0 heq => ?_)).mono fun D₂ hD₂ => by rwa [hdata₁] at hD₂
  · -- an entry is marked, and is none of the direct blocks freed
    rw [hentry] at h0 ⊢
    rw [hD₁.used]
    refine ⟨h.data_used _ (by unfold maxfile; omega) h0, ?_⟩
    rintro ⟨-, j, -, hj, hjb⟩
    rw [← blockAddr_direct D ip hj] at hjb
    have := h.inj j (ndirect + k) (by unfold maxfile; omega) (by unfold maxfile; omega)
      (by rw [hjb]; exact h0) hjb
    omega
  · rw [hentry, hentry] at heq
    rw [hentry] at h0
    have := h.inj _ _ (by unfold maxfile; omega) (by unfold maxfile; omega) h0 heq
    omega

/-- INTERNAL: the indirect block of a well-formed inode is still marked once its data
blocks are freed, for it is none of them. -/
theorem InodeWf.ind_used_of_frees {D D₂ : FsImage} {ip : Dinode} (h : InodeWf D ip) (hind : ip.addrs ndirect ≠ 0)
    (hD₂ : Frees D D₂ fun b => (b ≠ 0 ∧ ∃ j, 0 ≤ j ∧ j < ndirect ∧ ip.addrs j = b) ∨
      (b ≠ 0 ∧ ∃ k, 0 ≤ k ∧ k < nindirect ∧ le32 (D.data (ip.addrs ndirect)) (4 * k) = b)) :
    D₂.used (ip.addrs ndirect) = true := by
  rw [hD₂.used]
  refine ⟨h.ind_used hind, ?_⟩
  rintro (⟨-, j, -, hj, hjb⟩ | ⟨-, k, -, hk, hkb⟩)
  · rw [← blockAddr_direct D ip hj] at hjb
    exact h.sep j (by unfold maxfile; omega) (by rw [hjb]; exact hind) hjb
  · rw [← blockAddr_indirect D ip hind] at hkb
    exact h.sep (ndirect + k) (by unfold maxfile; omega) (by rw [hkb]; exact hind) hkb

/-- INTERNAL: the image `itrunc` leaves, once exactly the blocks of the inode are freed and
the truncated inode is written back. -/
theorem Frees.iupdate_truncated {D D' : FsImage} {ip : Dinode} {S : Nat → Prop} (inum : Nat)
    (hf : Frees D D' S) (hS : ∀ b, D.OwnsBlock ip b ↔ S b) :
    (D'.iupdate inum ip.truncated).data = D.data ∧ (D'.iupdate inum ip.truncated).sb = D.sb ∧
      (∀ j, (D'.iupdate inum ip.truncated).dinode j = if j = inum then ip.truncated else D.dinode j) ∧
      ∀ b, (D'.iupdate inum ip.truncated).used b = true ↔ D.used b = true ∧ ¬D.OwnsBlock ip b := by
  refine ⟨by rw [iupdate, setDinode_data, hf.data], by rw [iupdate, setDinode_sb, hf.sb], fun j => ?_, fun b => ?_⟩
  · rw [iupdate, setDinode_dinode, hf.dinode]
  · rw [iupdate, setDinode_used, hf.used, hS]

/-- INTERNAL: `itrunc` on a well-formed inode, as a postcondition that no failure meets. -/
theorem itrunc_post {D : FsImage} {ip : Dinode} (inum : Nat) (h : InodeWf D ip) :
    Run.Post (fun _ => False)
      (fun r : FsImage × Dinode => r.2 = ip.truncated ∧ r.1.data = D.data ∧ r.1.sb = D.sb ∧
        (∀ j, r.1.dinode j = if j = inum then ip.truncated else D.dinode j) ∧
        ∀ b, r.1.used b = true ↔ D.used b = true ∧ ¬D.OwnsBlock ip b)
      (D.itrunc inum ip) := by
  unfold itrunc
  refine Run.Post.bind h.itruncDirect_frees ?_
  rintro ⟨D₁, ip₁⟩ ⟨hD₁, hip₁⟩
  dsimp only at hD₁ hip₁ ⊢
  subst hip₁
  have hind₁ : ({ ip with addrs := fun j => if 0 ≤ j ∧ j < ndirect then 0 else ip.addrs j } : Dinode).addrs
      ndirect = ip.addrs ndirect := by
    dsimp only
    rw [if_neg (show ¬(0 ≤ ndirect ∧ ndirect < ndirect) by omega)]
  rw [hind₁]
  by_cases hind : ip.addrs ndirect = 0
  · -- no indirect block: the direct blocks are all the inode owns
    rw [if_neg (not_not_intro hind), pure_bind]
    dsimp only
    have htr : ({ ip with size := 0, addrs := fun j => if 0 ≤ j ∧ j < ndirect then 0 else ip.addrs j } :
        Dinode) = ip.truncated := by
      refine Dinode.truncated_eq ip fun k => ?_
      by_cases hk : k = ndirect
      · rw [hk, if_neg (show ¬(0 ≤ ndirect ∧ ndirect < ndirect) by omega), if_pos le_rfl, hind]
      · split_ifs <;> omega
    rw [htr]
    exact ⟨rfl, hD₁.iupdate_truncated inum (ownsBlock_of_ind_zero D hind)⟩
  · -- an indirect block: its entries, then the block itself
    rw [if_pos hind]
    refine Run.Post.bind (h.itruncIndirect_frees hind hD₁) ?_
    intro D₂ hD₂
    have hD₁₂ := hD₁.trans hD₂
    refine Run.Post.bind (D₂.bfree_frees (h.ind_used_of_frees hind hD₁₂)) ?_
    intro D₃ hD₃
    rw [pure_bind]
    unfold Dinode.setAddr
    dsimp only
    have htr : ({ ip with size := 0, addrs := fun j =>
        if j = ndirect then 0 else if 0 ≤ j ∧ j < ndirect then 0 else ip.addrs j } : Dinode) =
        ip.truncated :=
      Dinode.truncated_eq ip fun k => by split_ifs <;> omega
    rw [htr]
    exact ⟨rfl, (hD₁₂.trans hD₃).iupdate_truncated inum (ownsBlock_of_ind D hind)⟩

/-- **`itrunc` frees exactly the blocks of the inode.**  On a well-formed inode, `itrunc`
never panics: it returns the inode with size `0` and no blocks, written back under its
i-number, clears the bitmap bit of every block the inode owns, its data blocks and its
indirect block, keeps every other bit, and writes no data. -/
theorem itrunc_frees_own_blocks {D : FsImage} {ip : Dinode} (inum : Nat) (h : InodeWf D ip) :
    ∃ D', D.itrunc inum ip = .ok (D', ip.truncated) ∧ D'.data = D.data ∧ D'.sb = D.sb ∧
      (∀ j, D'.dinode j = if j = inum then ip.truncated else D.dinode j) ∧
      ∀ b, D'.used b = true ↔ D.used b = true ∧ ¬D.OwnsBlock ip b := by
  obtain ⟨⟨D', ip'⟩, hok, hip', hrest⟩ := (itrunc_post inum h).exists_ok
  dsimp only at hip' hrest
  subst hip'
  exact ⟨D', hok, hrest⟩

/-- A disk whose blocks `1` to `3` are marked, block `2` an indirect block whose first
entry is block `3`. -/
def indirectDisk : FsImage :=
  ⟨⟨64, 1⟩, fun _ => Dinode.zero, fun b => b < 4, fun b i => if b = 2 then (if i = 0 then 3 else 0) else 7⟩

/-- A file of thirteen blocks' size: block `1` first, holes after it, and block `3`, through
the indirect block `2`, last. -/
def indirectFile : Dinode :=
  { Dinode.zero with
    type := .file
    size := 13 * bsize
    addrs := fun k => if k = 0 then 1 else if k = ndirect then 2 else 0 }

/-- INTERNAL: the blocks of that file. -/
theorem indirectFile_blockAddr (bn : Nat) :
    indirectDisk.blockAddr indirectFile bn = if bn = 0 then 1 else if bn = ndirect then 3 else 0 := by
  unfold blockAddr
  by_cases hd : bn < ndirect
  · simp [hd, indirectFile, show bn ≠ ndirect by omega]
  · -- past the direct blocks, the entries of block `2`: only the first is not zero
    rw [if_neg hd, if_neg (by decide), show indirectFile.addrs ndirect = 2 from rfl]
    unfold entry le32 le16
    by_cases h12 : bn = ndirect
    · subst h12
      decide
    · have h4 : 4 * (bn - ndirect) ≠ 0 := by
        unfold ndirect at *
        omega
      simp [indirectDisk, h12, h4]
      unfold ndirect at hd
      omega

theorem indirectFile_wf : InodeWf indirectDisk indirectFile := by
  refine ⟨by decide, by decide, by decide, by decide, by decide, fun bn bn' _ _ hb heq => ?_, by decide⟩
  simp only [indirectFile_blockAddr] at heq hb
  split_ifs at heq hb <;> omega

/-- The file with an indirect block truncated. -/
theorem itrunc_indirect_file :
    InodeWf indirectDisk indirectFile ∧
      ∃ D', indirectDisk.itrunc 2 indirectFile = .ok (D', indirectFile.truncated) ∧
        D'.data = indirectDisk.data ∧ D'.sb = indirectDisk.sb ∧
        (∀ j, D'.dinode j = if j = 2 then indirectFile.truncated else indirectDisk.dinode j) ∧
        ∀ b, D'.used b = true ↔ indirectDisk.used b = true ∧ ¬indirectDisk.OwnsBlock indirectFile b :=
  ⟨indirectFile_wf, itrunc_frees_own_blocks 2 indirectFile_wf⟩

end FsImage

end Xv6
