import Xv6.Analysis.Exec

/-!
# `copyuvm` across a lazily grown 4 MiB boundary

`copyuvm(pgdir, sz)` walks the parent's pages from `PGSIZE` below `sz` and panics with
`copyuvm: pte should exist` at the first one whose page table is missing.  `sbrk` grows
`sz` without allocating, so a process that grows past 4 MiB has no second page table
until it touches a page there.  A `fork` then copies the first 4 MiB, sharing each
present page copy-on-write, and panics at the boundary
(`copyuvm_lazy_boundary_panics`).

The copy of the first 4 MiB is an invariant over the loop (`ForkInv`): the parent's
first two page-directory entries and its entries not yet reached are as they were, and
the child's first page table is either not yet allocated, the frame `t` still at the head
of the free list, or is `t` and empty from the current page on.  One pass keeps it
(`ForkInv.step`), whatever the parent's entry holds; at the boundary the loop panics
(`copyuvmLoop_no_table`).
-/

set_option autoImplicit false

namespace Xv6

/-! ## The first 4 MiB -/

/-- INTERNAL: below 4 MiB the page-directory index is 0. -/
theorem pdx_of_lt {j : Nat} (h : j < 2 ^ 22) : pdx j = 0 := by
  unfold pdx
  rw [Nat.div_eq_of_lt h]

/-- INTERNAL: below 4 MiB the page-table index is the page number. -/
theorem ptx_of_lt {j : Nat} (h : j < 2 ^ 22) : ptx j = j / pgsize := by
  unfold ptx pgsize
  rw [Nat.mod_eq_of_lt (by omega)]
  norm_num

/-- INTERNAL: the entry of a page below 4 MiB lies in its table's frame. -/
theorem entry_frame {F : Nat} (hF : F % pgsize = 0) {j : Nat} (h : j < 2 ^ 22) :
    (F + 4 * (j / pgsize)) / pgsize = F / pgsize := by
  unfold pgsize at *
  omega

/-- INTERNAL: the entry of a page below 4 MiB lies inside its table. -/
theorem entry_in_frame (F : Nat) {j : Nat} (hj : j < 2 ^ 22) :
    F ≤ F + 4 * (j / pgsize) ∧ F + 4 * (j / pgsize) < F + pgsize := by
  unfold pgsize at *
  omega

/-- INTERNAL: distinct pages below 4 MiB have distinct entries. -/
theorem entry_ne {F i j : Nat} (h : i / pgsize ≠ j / pgsize) :
    F + 4 * (i / pgsize) ≠ F + 4 * (j / pgsize) := by
  omega

/-- The frames `copyuvm` reads and writes while it copies the first 4 MiB: the parent's
page directory `P` and first page table `T`, which its first entry points to, the
child's page directory `d` and the frame `t` the child's first page table takes; all
aligned and distinct. -/
structure ForkFrames (m0 : Mem) (P T d t : Nat) : Prop where
  alignP : P % pgsize = 0
  alignT : T % pgsize = 0
  alignd : d % pgsize = 0
  alignt : t % pgsize = 0
  PT : P ≠ T
  Pd : P ≠ d
  Pt : P ≠ t
  Td : T ≠ d
  Tt : T ≠ t
  dt : d ≠ t
  table : pteAddr (m0.word P) = T
  t_le : t ≤ phystop

/-- What `copyuvm` needs of each parent entry below 4 MiB: it is a 32-bit word, not
swapped, and a present one maps a frame below `PHYSTOP` other than `t`. -/
def ForkEntry (t w : Nat) : Prop :=
  w < uintMod ∧ hasFlag w pteS = false ∧ (hasFlag w pteP = true → pteAddr w ≤ phystop ∧ pteAddr w ≠ t)

/-- The state of `copyuvm`'s loop at page `i` below 4 MiB, against the parent's memory
`m0` before the call. -/
structure ForkInv (m0 : Mem) (P T d t : Nat) (rest : List Nat) (s : Vm) (i : Nat) : Prop where
  pde0 : s.mem.word P = m0.word P
  pde1 : s.mem.word (P + 4) = m0.word (P + 4)
  ahead : ∀ j, i ≤ j → j < 2 ^ 22 →
    s.mem.word (T + 4 * (j / pgsize)) = m0.word (T + 4 * (j / pgsize))
  child : (hasFlag (s.mem.word d) pteP = false ∧ s.mem.freelist = t :: rest ∧ s.mem.getRef t = 0) ∨
    (s.mem.word d = t ||| pteP ||| pteW ||| pteU ∧
      ∀ j, i ≤ j → j < 2 ^ 22 → s.mem.word (t + 4 * (j / pgsize)) = 0)

namespace ForkFrames

variable {m0 : Mem} {P T d t : Nat} (hfr : ForkFrames m0 P T d t)
include hfr

/-! Where the words `copyuvm` reads and writes lie: the parent's first two
page-directory entries in `P`, its entries in `T`, the child's first page-directory entry
at `d` and the child's entries in `t`. -/

theorem P_ne_entry {j : Nat} (hj : j < 2 ^ 22) : P ≠ T + 4 * (j / pgsize) := by
  have := hfr.alignP; have := hfr.alignT; have := hfr.PT
  unfold pgsize at *
  omega

theorem P4_ne_entry {j : Nat} (hj : j < 2 ^ 22) : P + 4 ≠ T + 4 * (j / pgsize) := by
  have := hfr.alignP; have := hfr.alignT; have := hfr.PT
  unfold pgsize at *
  omega

theorem d_ne_entry {j : Nat} (hj : j < 2 ^ 22) : d ≠ T + 4 * (j / pgsize) := by
  have := hfr.alignd; have := hfr.alignT; have := hfr.Td
  unfold pgsize at *
  omega

theorem child_ne_entry {i j : Nat} (hi : i < 2 ^ 22) (hj : j < 2 ^ 22) :
    t + 4 * (i / pgsize) ≠ T + 4 * (j / pgsize) := by
  have := hfr.alignt; have := hfr.alignT; have := hfr.Tt
  unfold pgsize at *
  omega

theorem child_ne_d {j : Nat} (hj : j < 2 ^ 22) : t + 4 * (j / pgsize) ≠ d := by
  have := hfr.alignt; have := hfr.alignd; have := hfr.dt
  unfold pgsize at *
  omega

theorem child_ne_P {j : Nat} (hj : j < 2 ^ 22) : t + 4 * (j / pgsize) ≠ P := by
  have := hfr.alignt; have := hfr.alignP; have := hfr.Pt
  unfold pgsize at *
  omega

theorem child_ne_P4 {j : Nat} (hj : j < 2 ^ 22) : t + 4 * (j / pgsize) ≠ P + 4 := by
  have := hfr.alignt; have := hfr.alignP; have := hfr.Pt
  unfold pgsize at *
  omega

theorem P4_ne_d : P + 4 ≠ d := by
  have := hfr.alignP; have := hfr.alignd; have := hfr.Pd
  unfold pgsize at *
  omega

theorem P_out_t : ¬(t ≤ P ∧ P < t + pgsize) := by
  have := hfr.alignt; have := hfr.alignP; have := hfr.Pt
  unfold pgsize at *
  omega

theorem P4_out_t : ¬(t ≤ P + 4 ∧ P + 4 < t + pgsize) := by
  have := hfr.alignt; have := hfr.alignP; have := hfr.Pt
  unfold pgsize at *
  omega

theorem entry_out_t {j : Nat} (hj : j < 2 ^ 22) :
    ¬(t ≤ T + 4 * (j / pgsize) ∧ T + 4 * (j / pgsize) < t + pgsize) := by
  have := hfr.alignt; have := hfr.alignT; have := hfr.Tt
  unfold pgsize at *
  omega

end ForkFrames

section Fork

variable (kernEnd kernData : Nat)

/-! ## One pass of the loop -/

/-- A page whose page table is missing: the panic. -/
theorem copyuvmLoop_no_table (pgdir sz d fuel : Nat) (s : Vm) {i : Nat} (hi : i < sz)
    (h : hasFlag (s.mem.word (pdeOf pgdir i)) pteP = false) :
    copyuvmLoop kernEnd pgdir sz d (fuel + 1) s i = .error "copyuvm: pte should exist" := by
  rw [copyuvmLoop, if_pos hi, walkpgdir_absent h]
  rfl

/-- A page that is neither present nor swapped is skipped. -/
theorem copyuvmLoop_skip (pgdir sz d fuel : Nat) (s : Vm) {i : Nat} (hi : i < sz)
    (h : hasFlag (s.mem.word (pdeOf pgdir i)) pteP = true)
    (hs : hasFlag (s.mem.word (pteOf s.mem pgdir i)) pteS = false)
    (hp : hasFlag (s.mem.word (pteOf s.mem pgdir i)) pteP = false) :
    copyuvmLoop kernEnd pgdir sz d (fuel + 1) s i =
      copyuvmLoop kernEnd pgdir sz d fuel s ((i + pgsize) % uintMod) := by
  rw [copyuvmLoop, if_pos hi, walkpgdir_present false h]
  simp only [Run.ok_bind, pure_bind, hs, hp, Bool.false_eq_true, if_false, Bool.not_false, if_true]

/-- A present page that is not swapped is shared: the parent's entry becomes
copy-on-write and read-only, the child maps the frame with the same flags, and the
frame's count rises. -/
theorem copyuvmLoop_share (pgdir sz d fuel : Nat) (s : Vm) {i : Nat} (hi : i < sz)
    (h : hasFlag (s.mem.word (pdeOf pgdir i)) pteP = true)
    (hs : hasFlag (s.mem.word (pteOf s.mem pgdir i)) pteS = false)
    (hp : hasFlag (s.mem.word (pteOf s.mem pgdir i)) pteP = true) :
    copyuvmLoop kernEnd pgdir sz d (fuel + 1) s i = (do
      let (mem, r) ← mappages (s.mem.setWord (pteOf s.mem pgdir i)
          (setFlag (clearFlag (s.mem.word (pteOf s.mem pgdir i)) pteW) pteC)) d i pgsize
        (pteAddr (setFlag (clearFlag (s.mem.word (pteOf s.mem pgdir i)) pteW) pteC))
        (pteFlags (setFlag (clearFlag (s.mem.word (pteOf s.mem pgdir i)) pteW) pteC))
      if r < 0 then pure ({ s with mem := mem }, false)
      else do
        let (mem, _) ← incRefPa mem (pteAddr (setFlag (clearFlag (s.mem.word (pteOf s.mem pgdir i))
          pteW) pteC))
        copyuvmLoop kernEnd pgdir sz d fuel { s with mem := mem } ((i + pgsize) % uintMod)) := by
  rw [copyuvmLoop, if_pos hi, walkpgdir_present false h]
  simp only [Run.ok_bind, pure_bind, hs, hp, Bool.false_eq_true, if_false, Bool.not_true]

/-! ## The invariant -/

/-- **One pass keeps the invariant**, whatever the parent's entry of page `i` holds: an
empty entry is skipped, and a present one is shared into the child's first page table,
which the pass allocates from `t` if it does not exist yet. -/
theorem ForkInv.step {m0 : Mem} {P T d t : Nat} {rest : List Nat} {s : Vm} {i : Nat}
    (sz fuel : Nat) (hfr : ForkFrames m0 P T d t) (hinv : ForkInv m0 P T d t rest s i)
    (hent : ForkEntry t (m0.word (T + 4 * (i / pgsize))))
    (hP : hasFlag (m0.word P) pteP = true) (hal : i % pgsize = 0) (hi : i < 2 ^ 22)
    (hsz : i < sz) :
    ∃ s', copyuvmLoop kernEnd P sz d (fuel + 1) s i =
        copyuvmLoop kernEnd P sz d fuel s' (i + pgsize) ∧
      ForkInv m0 P T d t rest s' (i + pgsize) := by
  obtain ⟨hw32, hS, hpa⟩ := hent
  have hpde : pdeOf P i = P := by simp [pdeOf, pdx_of_lt hi]
  have hpdeP : hasFlag (s.mem.word (pdeOf P i)) pteP = true := by rw [hpde, hinv.pde0]; exact hP
  have hpte : pteOf s.mem P i = T + 4 * (i / pgsize) := by
    rw [pteOf, hpde, hinv.pde0, hfr.table, ptx_of_lt hi]
  have hw := hinv.ahead i le_rfl hi
  have hmod : (i + pgsize) % uintMod = i + pgsize := by
    rw [uintMod_eq]
    unfold pgsize
    omega
  -- the parent's entries from `i + PGSIZE` on are other words than the one of `i`
  have hnext : ∀ j, i + pgsize ≤ j → j < 2 ^ 22 → T + 4 * (j / pgsize) ≠ T + 4 * (i / pgsize) :=
    fun j hj _ => entry_ne (by unfold pgsize at *; omega)
  cases hpres : hasFlag (m0.word (T + 4 * (i / pgsize))) pteP with
  | false =>
      -- an empty entry: nothing changes
      refine ⟨s, ?_, ⟨hinv.pde0, hinv.pde1, fun j hj hj' => hinv.ahead j (by omega) hj', ?_⟩⟩
      · rw [copyuvmLoop_skip kernEnd P sz d fuel s hsz hpdeP (by rw [hpte, hw]; exact hS)
          (by rw [hpte, hw]; exact hpres), hmod]
      · rcases hinv.child with habs | ⟨hd, hzero⟩
        · exact Or.inl habs
        · exact Or.inr ⟨hd, fun j hj hj' => hzero j (by omega) hj'⟩
  | true =>
      obtain ⟨hpa_le, hpa_t⟩ := hpa hpres
      have haddr : pteAddr (setFlag (clearFlag (m0.word (T + 4 * (i / pgsize))) pteW) pteC) =
          pteAddr (m0.word (T + 4 * (i / pgsize))) := pteAddr_cow hw32
      have hk : i < kernbase := by unfold kernbase; omega
      rw [copyuvmLoop_share kernEnd P sz d fuel s hsz hpdeP (by rw [hpte, hw]; exact hS)
        (by rw [hpte, hw]; exact hpres), hpte, hw, mappages_page _ _ _ hal hk]
      generalize hw' : setFlag (clearFlag (m0.word (T + 4 * (i / pgsize))) pteW) pteC = w' at haddr ⊢
      generalize hm1 : s.mem.setWord (T + 4 * (i / pgsize)) w' = m1
      -- the child's first page-directory entry is not the parent's entry just written
      have hd1 : m1.word (pdeOf d i) = s.mem.word d := by
        rw [← hm1, pdeOf, pdx_of_lt hi, Nat.mul_zero, Nat.add_zero, Mem.setWord_word,
          if_neg (hfr.d_ne_entry hi)]
      have hpa' : pteAddr w' ≤ phystop := by rw [haddr]; exact hpa_le
      rcases hinv.child with ⟨hd0, hfl, hrt⟩ | ⟨hdP, hzero⟩
      · -- the child's first page table is allocated from `t`
        have hkal : kalloc m1 = .ok (({ m1 with freelist := rest } : Mem).setRef t 1, some t) := by
          have hfl1 : m1.freelist = t :: rest := by rw [← hm1, Mem.setWord_freelist, hfl]
          have hrt1 : m1.getRef t = 0 := by
            rw [← hm1, Mem.getRef_eq_of_ref _ (Mem.setWord_ref _ _ _), hrt]
          exact kalloc_cons hfl1 hfr.t_le hrt1
        have hwalk := walkpgdir_alloc (by rw [hd1]; exact hd0) hkal
        rw [pdeOf, pdx_of_lt hi, Nat.mul_zero, Nat.add_zero, ptx_of_lt hi] at hwalk
        generalize hm3 : ((({ m1 with freelist := rest } : Mem).setRef t 1).memsetPage t 0).setWord d
          (t ||| pteP ||| pteW ||| pteU) = m3 at hwalk
        have hc : m3.word (t + 4 * (i / pgsize)) = 0 := by
          rw [← hm3, Mem.setWord_word, if_neg (hfr.child_ne_d hi), Mem.memsetPage_word,
            if_pos (entry_in_frame t hi)]
          rfl
        have hmap := @mappage_ok m3 i (t + 4 * (i / pgsize)) (pteAddr w') (pteFlags w')
          (by rw [hc, hasFlag_zero, Bool.false_and, Bool.false_and]) hk hpa'
        refine ⟨{ s with mem := ((m3.setWord (t + 4 * (i / pgsize)) (pteAddr w' ||| pteFlags w' ||| pteP)).setLa
          (pteAddr w') i).setRef (pteAddr w') (((m3.setWord (t + 4 * (i / pgsize))
          (pteAddr w' ||| pteFlags w' ||| pteP)).setLa (pteAddr w') i).getRef (pteAddr w') + 1) }, ?_, ?_⟩
        · rw [hwalk]
          simp only [Run.ok_bind]
          rw [hmap]
          simp only [Run.ok_bind, pure_bind]
          rw [if_neg (by decide), incRefPa_ok _ hpa']
          simp only [Run.ok_bind]
          rw [hmod]
        · subst hm1 hm3
          refine ⟨?_, ?_, fun j hj hj' => ?_, Or.inr ⟨?_, fun j hj hj' => ?_⟩⟩
          · simp only [Mem.setRef_word, Mem.setLa_word, Mem.setWord_word, Mem.memsetPage_word,
              if_neg (hfr.child_ne_P hi).symm, if_neg hfr.Pd, if_neg hfr.P_out_t,
              if_neg (hfr.P_ne_entry hi), hinv.pde0]
          · simp only [Mem.setRef_word, Mem.setLa_word, Mem.setWord_word, Mem.memsetPage_word,
              if_neg (hfr.child_ne_P4 hi).symm, if_neg hfr.P4_ne_d,
              if_neg hfr.P4_out_t, if_neg (hfr.P4_ne_entry hi), hinv.pde1]
          · simp only [Mem.setRef_word, Mem.setLa_word, Mem.setWord_word, Mem.memsetPage_word,
              if_neg (hfr.child_ne_entry hi hj').symm, if_neg (hfr.d_ne_entry hj').symm,
              if_neg (hfr.entry_out_t hj'), if_neg (hnext j hj hj'), hinv.ahead j (by omega) hj']
          · simp only [Mem.setRef_word, Mem.setLa_word, Mem.setWord_word,
              if_neg (hfr.child_ne_d hi).symm, if_true]
          · have hne : t + 4 * (j / pgsize) ≠ t + 4 * (i / pgsize) :=
              entry_ne (by unfold pgsize at *; omega)
            simp only [Mem.setRef_word, Mem.setLa_word, Mem.setWord_word, Mem.memsetPage_word,
              if_neg hne, if_neg (hfr.child_ne_d hj'), if_pos (entry_in_frame t hj')]
            rfl
      · -- the child's first page table exists and is empty from `i` on
        have hdpres : hasFlag (m1.word (pdeOf d i)) pteP = true := by
          rw [hd1, hdP]
          exact hasFlag_pde t
        have hc : pteOf m1 d i = t + 4 * (i / pgsize) := by
          rw [pteOf, hd1, hdP, pteAddr_pde hfr.alignt, ptx_of_lt hi]
        have hc0 : m1.word (t + 4 * (i / pgsize)) = 0 := by
          rw [← hm1, Mem.setWord_word, if_neg (hfr.child_ne_entry hi hi), hzero i le_rfl hi]
        have hmap := @mappage_ok m1 i (t + 4 * (i / pgsize)) (pteAddr w') (pteFlags w')
          (by rw [hc0, hasFlag_zero, Bool.false_and, Bool.false_and]) hk hpa'
        refine ⟨{ s with mem := ((m1.setWord (t + 4 * (i / pgsize)) (pteAddr w' ||| pteFlags w' ||| pteP)).setLa
          (pteAddr w') i).setRef (pteAddr w') (((m1.setWord (t + 4 * (i / pgsize))
          (pteAddr w' ||| pteFlags w' ||| pteP)).setLa (pteAddr w') i).getRef (pteAddr w') + 1) }, ?_, ?_⟩
        · rw [walkpgdir_present true hdpres, hc]
          simp only [Run.ok_bind]
          rw [hmap]
          simp only [Run.ok_bind, pure_bind]
          rw [if_neg (by decide), incRefPa_ok _ hpa']
          simp only [Run.ok_bind]
          rw [hmod]
        · subst hm1
          refine ⟨?_, ?_, fun j hj hj' => ?_, Or.inr ⟨?_, fun j hj hj' => ?_⟩⟩
          · simp only [Mem.setRef_word, Mem.setLa_word, Mem.setWord_word,
              if_neg (hfr.child_ne_P hi).symm, if_neg (hfr.P_ne_entry hi), hinv.pde0]
          · simp only [Mem.setRef_word, Mem.setLa_word, Mem.setWord_word,
              if_neg (hfr.child_ne_P4 hi).symm, if_neg (hfr.P4_ne_entry hi), hinv.pde1]
          · simp only [Mem.setRef_word, Mem.setLa_word, Mem.setWord_word,
              if_neg (hfr.child_ne_entry hi hj').symm, if_neg (hnext j hj hj'),
              hinv.ahead j (by omega) hj']
          · simp only [Mem.setRef_word, Mem.setLa_word, Mem.setWord_word,
              if_neg (hfr.child_ne_d hi).symm, if_neg (hfr.d_ne_entry hi), hdP]
          · have hne : t + 4 * (j / pgsize) ≠ t + 4 * (i / pgsize) :=
              entry_ne (by unfold pgsize at *; omega)
            simp only [Mem.setRef_word, Mem.setLa_word, Mem.setWord_word,
              if_neg hne, if_neg (hfr.child_ne_entry hj' hi), hzero j (by omega) hj']

/-- **The invariant holds after `setupkvm`**, which took the child's page directory `d`
and the kernel's page tables `ks`, none of them a frame of the parent or `t`, and left
`t` at the head of the free list. -/
theorem ForkInv.init {P T d t : Nat} {ks rest : List Nat} {s : Vm} {m : Mem}
    (hfr : ForkFrames s.mem P T d t) (hfree : FreeFrames s.mem (d :: ks))
    (hkern : ∀ f ∈ ks, f ≠ P ∧ f ≠ T ∧ f ≠ t) (hrt : s.mem.getRef t = 0)
    (hpost : KvmPost s.mem d ks (t :: rest) m) :
    ForkInv s.mem P T d t rest { s with mem := m } pgsize where
  pde0 := hpost.word P (outside_of_ne hfr.alignP hfree.aligned (by
    simpa [hfr.Pd.symm] using fun f hf => (hkern f hf).1) rfl)
  pde1 := hpost.word (P + 4) (outside_of_ne hfr.alignP hfree.aligned (by
    simpa [hfr.Pd.symm] using fun f hf => (hkern f hf).1) (by have := hfr.alignP; unfold pgsize at *; omega))
  ahead j _ hj := hpost.word _ (outside_of_ne hfr.alignT hfree.aligned (by
    simpa [hfr.Td.symm] using fun f hf => (hkern f hf).2.1) (entry_frame hfr.alignT hj))
  child := by
    left
    refine ⟨?_, hpost.freelist, ?_⟩
    · have hd := hpost.user 0 (by decide)
      rw [Nat.mul_zero, Nat.add_zero] at hd
      rw [hd, hasFlag_zero]
    · rw [hpost.ref t (outside_of_ne hfr.alignt hfree.aligned (by
        simpa [hfr.dt] using fun f hf => (hkern f hf).2.2) rfl), hrt]

/-- **The copy of the first 4 MiB**: from an aligned page `i` below 4 MiB where the
invariant holds, the `k` passes that reach 4 MiB keep it. -/
theorem ForkInv.run {m0 : Mem} {P T d t : Nat} {rest : List Nat} (sz : Nat)
    (hfr : ForkFrames m0 P T d t) (hP : hasFlag (m0.word P) pteP = true) (hsz : 2 ^ 22 < sz) :
    ∀ (k fuel : Nat) (s : Vm) (i : Nat), i + k * pgsize = 2 ^ 22 → i % pgsize = 0 →
      (∀ j, i ≤ j → j < 2 ^ 22 → ForkEntry t (m0.word (T + 4 * (j / pgsize)))) →
      ForkInv m0 P T d t rest s i →
      ∃ s', copyuvmLoop kernEnd P sz d (fuel + k) s i = copyuvmLoop kernEnd P sz d fuel s' (2 ^ 22) ∧
        ForkInv m0 P T d t rest s' (2 ^ 22) := by
  intro k
  induction k with
  | zero =>
      intro fuel s i hk _ _ hinv
      rw [Nat.zero_mul, Nat.add_zero] at hk
      subst hk
      exact ⟨s, rfl, hinv⟩
  | succ k ih =>
      intro fuel s i hk hal hents hinv
      have hi : i < 2 ^ 22 := by unfold pgsize at hk; omega
      obtain ⟨s₁, hstep, hinv₁⟩ :=
        hinv.step kernEnd sz (fuel + k) hfr (hents i le_rfl hi) hP hal hi (by omega)
      obtain ⟨s', hrun, hinv'⟩ := ih fuel s₁ (i + pgsize) (by rw [← hk, Nat.succ_mul]; omega)
        (by unfold pgsize at *; omega) (fun j hj hj' => hents j (by omega) hj') hinv₁
      refine ⟨s', ?_, hinv'⟩
      rw [← Nat.add_assoc, hstep, hrun]

/-! ## The panic -/

/-- **A fork past a lazily grown 4 MiB boundary panics.**  The parent's first page table
covers its pages below 4 MiB, which `copyuvm` can share, and its size reaches past
4 MiB with no second page table: `copyuvm` takes the child's page directory `d` and the
64 tables `ks` of its kernel half, shares the first 4 MiB into a page table from `t`, and
panics at the first page above. -/
theorem copyuvm_lazy_boundary_panics (s : Vm) {P T d t sz : Nat} {ks rest : List Nat}
    (hfr : ForkFrames s.mem P T d t) (hsz : 2 ^ 22 < sz)
    (hP : hasFlag (s.mem.word P) pteP = true) (hP1 : hasFlag (s.mem.word (P + 4)) pteP = false)
    (hents : ∀ j, pgsize ≤ j → j < 2 ^ 22 → ForkEntry t (s.mem.word (T + 4 * (j / pgsize))))
    (hfl : s.mem.freelist = d :: ks ++ t :: rest) (hks : ks.length = 64)
    (hfree : FreeFrames s.mem (d :: ks)) (hkern : ∀ f ∈ ks, f ≠ P ∧ f ≠ T ∧ f ≠ t)
    (hrt : s.mem.getRef t = 0) (hlo : extmem < kernData) (hhi : kernData < phystop)
    (hal : kernData % pgsize = 0) :
    copyuvm kernEnd kernData s P sz = .error "copyuvm: pte should exist" := by
  obtain ⟨m, hsetup, hpost⟩ := setupkvm_ok kernEnd kernData s hfl hks hfree hlo hhi hal
  -- 1023 passes reach 4 MiB, and the fuel has at least one more
  have hfuel : sz / pgsize + 1 = sz / pgsize - 1023 + 1 + 1023 := by
    unfold pgsize
    omega
  obtain ⟨s', hrun, hinv⟩ := ForkInv.run kernEnd sz hfr hP hsz 1023 (sz / pgsize - 1023 + 1) _
    pgsize (by decide) (by decide) hents (ForkInv.init hfr hfree hkern hrt hpost)
  have hpde : pdeOf P (2 ^ 22) = P + 4 := by
    unfold pdeOf pdx
    norm_num
  unfold copyuvm
  rw [hsetup]
  simp only [Run.ok_bind]
  rw [hfuel, hrun, copyuvmLoop_no_table kernEnd P sz d _ s' hsz (by rw [hpde, hinv.pde1]; exact hP1)]
  rfl

end Fork

/-- A process that grew to 4 MiB and a page by `sbrk` and touched only its page at
`0x1000`: its page directory at `0x10000` has one entry, for the page table at
`0x11000`, whose entry of `0x1000` maps the frame `0x13000`; the frame `0x12000`, the
frames `kernTables` and the frame `0x14000` are free, in that order.  It is the one live
process. -/
def forkDemo : Vm where
  mem :=
    { ref := fun n => if n = 0x13 then 1 else 0
      la := fun n => if n = 0x13 then 0x1000 else 0
      freelist := 0x12000 :: kernTables ++ [0x14000]
      word := fun a => if a = 0x10000 then 0x11007 else if a = 0x11004 then 0x13007 else 0
      byte := fun _ => 0 }
  proc := fun i => if i.val = 0 then ⟨.running, 0x10000, 0x401000, false⟩ else ⟨.unused, 0, 0, false⟩
  swapfile := ⟨0, fun _ => 0, 0, fun _ => 0, 7040⟩
  swapMap := SwapMap.empty
  held := []

/-- Its `fork` panics in `copyuvm`, with `V2P(data)` at `0x108000`. -/
theorem fork_past_lazy_boundary_panics :
    copyuvm 0 0x108000 forkDemo 0x10000 0x401000 = .error "copyuvm: pte should exist" :=
  @copyuvm_lazy_boundary_panics 0 0x108000 forkDemo 0x10000 0x11000 0x12000 0x14000 0x401000 kernTables []
    ⟨by decide, by decide, by decide, by decide, by decide, by decide, by decide, by decide,
      by decide, by decide, by decide, by decide⟩
    (by decide) (by decide) (by decide)
    (fun j _ _ => by
      unfold ForkEntry
      rw [uintMod_eq]
      dsimp only [forkDemo]
      split_ifs <;> decide)
    rfl (by decide) ⟨by decide, by decide, by decide, by decide⟩ (by decide) (by decide)
    (by decide) (by decide) (by decide)

end Xv6
