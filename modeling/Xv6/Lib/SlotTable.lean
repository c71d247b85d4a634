import Mathlib.Logic.Function.Basic

/-!
# Tables of slots searched in order

A table of `n` slots, each holding a record, kept the way a directory keeps its entries.
A record is in use or free; the entry of a key is the first slot in use whose record
matches the key (`lookup`), and a record is put in the first free slot, or in a new slot at
the end when none is free (`insert`).

After an insert a lookup finds the new record for every key it matches, unless a slot
before it already matches that key, and what it found before for every other key
(`lookup_insert`).  Nothing is assumed of the matching: a key may match many records and a
record many keys.  A table where no key has two entries (`Distinct`) keeps that through an
insert of a record that no key with an entry matches (`Distinct.insert_fresh`), and there
a slot given a free record loses exactly the keys it held (`lookup_update_free`).
-/

set_option autoImplicit false

namespace SlotTable

/-! ## The first slot that satisfies a test -/

/-- The first slot below `n` where `p` holds. -/
def first (p : Nat → Bool) (n : Nat) : Option Nat := (List.range n).find? p

theorem first_eq_some_iff {p : Nat → Bool} {n k : Nat} :
    first p n = some k ↔ k < n ∧ p k = true ∧ ∀ j, j < k → p j = false := by
  unfold first
  rw [List.find?_range_eq_some, List.mem_range]
  simp only [Bool.not_eq_eq_eq_not, Bool.not_true]
  constructor
  · rintro ⟨hk, hlt, hbefore⟩
    exact ⟨hlt, hk, hbefore⟩
  · rintro ⟨hlt, hk, hbefore⟩
    exact ⟨hk, hlt, hbefore⟩

theorem first_eq_none_iff {p : Nat → Bool} {n : Nat} : first p n = none ↔ ∀ j, j < n → p j = false := by
  unfold first
  rw [List.find?_range_eq_none]
  simp only [Bool.not_eq_eq_eq_not, Bool.not_true]

/-- Tests that agree below `n` find the same first slot. -/
theorem first_congr {p q : Nat → Bool} {n : Nat} (h : ∀ j, j < n → p j = q j) : first p n = first q n := by
  rcases hq : first q n with _ | k
  · rw [first_eq_none_iff] at hq ⊢
    exact fun j hj => (h j hj).trans (hq j hj)
  · obtain ⟨hk, hqk, hbefore⟩ := first_eq_some_iff.mp hq
    refine first_eq_some_iff.mpr ⟨hk, (h k hk).trans hqk, fun j hj => ?_⟩
    exact (h j (by omega)).trans (hbefore j hj)

/-- Slots added at the end where the test fails change nothing. -/
theorem first_extend {p : Nat → Bool} {n n' : Nat} (hle : n ≤ n') (h : ∀ j, n ≤ j → j < n' → p j = false) :
    first p n' = first p n := by
  rcases hp : first p n with _ | k
  · rw [first_eq_none_iff] at hp ⊢
    intro j hj
    by_cases hjn : j < n
    · exact hp j hjn
    · exact h j (by omega) hj
  · obtain ⟨hk, hpk, hbefore⟩ := first_eq_some_iff.mp hp
    exact first_eq_some_iff.mpr ⟨by omega, hpk, hbefore⟩

/-! ## Lookup and insert -/

variable {κ ρ : Type} (inUse : ρ → Bool) (hit : κ → ρ → Bool)

/-- The entry of the key `x` in the table `t` of `n` slots: the first slot in use whose
record matches `x`. -/
def lookup (t : Nat → ρ) (n : Nat) (x : κ) : Option Nat := first (fun k => inUse (t k) && hit x (t k)) n

/-- The slot an insert takes: the first free slot, else the slot after the last. -/
def freeSlot (t : Nat → ρ) (n : Nat) : Nat := (first (fun k => !inUse (t k)) n).getD n

/-- The table after the record `r` is put in the slot `freeSlot` names, and its new number
of slots. -/
def insert (t : Nat → ρ) (n : Nat) (r : ρ) : (Nat → ρ) × Nat :=
  (Function.update t (freeSlot inUse t n) r, max n (freeSlot inUse t n + 1))

variable {inUse hit}

theorem insert_fst_self (t : Nat → ρ) (n : Nat) (r : ρ) : (insert inUse t n r).1 (freeSlot inUse t n) = r := by
  unfold insert
  exact Function.update_self _ r t

theorem insert_fst_of_ne {t : Nat → ρ} {n k : Nat} (r : ρ) (hk : k ≠ freeSlot inUse t n) :
    (insert inUse t n r).1 k = t k := by
  unfold insert
  exact Function.update_of_ne hk r t

theorem insert_snd (t : Nat → ρ) (n : Nat) (r : ρ) : (insert inUse t n r).2 = max n (freeSlot inUse t n + 1) :=
  rfl

theorem lookup_eq_some_iff {t : Nat → ρ} {n : Nat} {x : κ} {k : Nat} :
    lookup inUse hit t n x = some k ↔ k < n ∧ (inUse (t k) && hit x (t k)) = true ∧
      ∀ j, j < k → (inUse (t j) && hit x (t j)) = false :=
  first_eq_some_iff

theorem lookup_eq_none_iff {t : Nat → ρ} {n : Nat} {x : κ} :
    lookup inUse hit t n x = none ↔ ∀ j, j < n → (inUse (t j) && hit x (t j)) = false :=
  first_eq_none_iff

/-- Tables that agree on their slots give every key the same entry. -/
theorem lookup_congr {t t' : Nat → ρ} {n : Nat} (h : ∀ k, k < n → t' k = t k) (x : κ) :
    lookup inUse hit t' n x = lookup inUse hit t n x :=
  first_congr fun k hk => by rw [h k hk]

/-- A key that matches every record some key without an entry matches has none in any
prefix of the table. -/
theorem lookup_eq_none_of_imp {t : Nat → ρ} {n m : Nat} {x y : κ} (himp : ∀ r, hit y r = true → hit x r = true)
    (hx : lookup inUse hit t n x = none) (hm : m ≤ n) : lookup inUse hit t m y = none := by
  unfold lookup at hx ⊢
  rw [first_eq_none_iff] at hx ⊢
  intro j hj
  have hxj := hx j (by omega)
  cases hu : inUse (t j)
  · rfl
  · rw [hu, Bool.true_and] at hxj
    rw [Bool.true_and]
    cases hy : hit y (t j)
    · rfl
    · rw [himp _ hy] at hxj
      exact hxj

theorem freeSlot_le (t : Nat → ρ) (n : Nat) : freeSlot inUse t n ≤ n := by
  unfold freeSlot
  rcases hf : first (fun k => !inUse (t k)) n with _ | k
  · exact Nat.le_refl n
  · exact Nat.le_of_lt (first_eq_some_iff.mp hf).1

/-- The slot an insert takes is the one after a run of slots in use that ends at a free
slot or at the end. -/
theorem freeSlot_eq_of {t : Nat → ρ} {n k : Nat} (hk : k ≤ n) (hbefore : ∀ j, j < k → inUse (t j) = true)
    (hfree : k < n → inUse (t k) = false) : freeSlot inUse t n = k := by
  unfold freeSlot
  by_cases hkn : k < n
  · have hfirst : first (fun k => !inUse (t k)) n = some k :=
      first_eq_some_iff.mpr ⟨hkn, by rw [hfree hkn]; rfl, fun j hj => by rw [hbefore j hj]; rfl⟩
    rw [hfirst, Option.getD_some]
  · have hfirst : first (fun k => !inUse (t k)) n = none :=
      first_eq_none_iff.mpr fun j hj => by rw [hbefore j (by omega)]; rfl
    rw [hfirst, Option.getD_none]
    omega

/-- The slot an insert takes inside the table is free. -/
theorem inUse_freeSlot {t : Nat → ρ} {n : Nat} (hlt : freeSlot inUse t n < n) :
    inUse (t (freeSlot inUse t n)) = false := by
  unfold freeSlot at hlt ⊢
  rcases hf : first (fun k => !inUse (t k)) n with _ | f
  · rw [hf, Option.getD_none] at hlt
    exact absurd hlt (Nat.lt_irrefl n)
  · rw [Option.getD_some]
    simpa using (first_eq_some_iff.mp hf).2.1

/-- Tables that agree on their slots take the same slot for an insert. -/
theorem freeSlot_congr {t t' : Nat → ρ} {n : Nat} (h : ∀ k, k < n → t' k = t k) :
    freeSlot inUse t' n = freeSlot inUse t n := by
  unfold freeSlot
  rw [first_congr fun k hk => by rw [h k hk]]

/-- Tables that agree on their slots agree after the same insert. -/
theorem insert_congr {t t' : Nat → ρ} {n : Nat} (h : ∀ k, k < n → t' k = t k) (r : ρ) :
    (insert inUse t' n r).2 = (insert inUse t n r).2 ∧
      ∀ k, k < (insert inUse t n r).2 → (insert inUse t' n r).1 k = (insert inUse t n r).1 k := by
  have hf : freeSlot inUse t' n = freeSlot inUse t n := freeSlot_congr h
  refine ⟨by rw [insert_snd, insert_snd, hf], fun k hk => ?_⟩
  rw [insert_snd] at hk
  by_cases hkf : k = freeSlot inUse t n
  · rw [hkf, ← hf, insert_fst_self, hf, insert_fst_self]
  · rw [insert_fst_of_ne r (show k ≠ freeSlot inUse t' n by rw [hf]; exact hkf), insert_fst_of_ne r hkf,
      h k (by have : freeSlot inUse t n ≤ n := freeSlot_le t n; omega)]

/-- **Lookup after insert.**  A record in use put by `insert` is the entry of every key it
matches that had no entry before its slot, and every other key keeps its entry. -/
theorem lookup_insert {t : Nat → ρ} {n : Nat} {r : ρ} (hr : inUse r = true) (x : κ) :
    lookup inUse hit (insert inUse t n r).1 (insert inUse t n r).2 x =
      if hit x r = true then some ((lookup inUse hit t (freeSlot inUse t n) x).getD (freeSlot inUse t n))
      else lookup inUse hit t n x := by
  have hfn : freeSlot inUse t n ≤ n := freeSlot_le t n
  have hfree : freeSlot inUse t n < n → inUse (t (freeSlot inUse t n)) = false := inUse_freeSlot
  unfold insert
  generalize freeSlot inUse t n = f at hfn hfree ⊢
  dsimp only
  -- the test at the slot taken is the test of `r`; elsewhere the table is as it was
  have hat : (inUse (Function.update t f r f) && hit x (Function.update t f r f)) = hit x r := by
    rw [Function.update_self, hr, Bool.true_and]
  have hother : ∀ k, k ≠ f → Function.update t f r k = t k := fun k hk => Function.update_of_ne hk r t
  by_cases hx : hit x r = true
  · rw [if_pos hx]
    rcases hb : lookup inUse hit t f x with _ | k
    · -- no slot before the one taken matches `x`: the new record is its entry
      rw [Option.getD_none]
      refine lookup_eq_some_iff.mpr ⟨by omega, hat.trans hx, fun j hj => ?_⟩
      rw [hother j (by omega)]
      exact first_eq_none_iff.mp hb j hj
    · -- an earlier slot matches `x` and stays its entry
      obtain ⟨hk, hkx, hbefore⟩ := lookup_eq_some_iff.mp hb
      rw [Option.getD_some]
      refine lookup_eq_some_iff.mpr ⟨by omega, by rw [hother k (by omega)]; exact hkx, fun j hj => ?_⟩
      rw [hother j (by omega)]
      exact hbefore j hj
  · rw [if_neg hx]
    have hmiss : (inUse (Function.update t f r f) && hit x (Function.update t f r f)) = false := by
      rw [hat]
      simpa using hx
    -- the slot taken matches `x` neither now nor before, when it was free
    have hend : ∀ j, n ≤ j → j < max n (f + 1) →
        (inUse (Function.update t f r j) && hit x (Function.update t f r j)) = false := by
      intro j hj hj'
      rw [show j = f by omega]
      exact hmiss
    unfold lookup
    rw [first_extend (Nat.le_max_left n (f + 1)) hend]
    refine first_congr fun j hj => ?_
    by_cases hjf : j = f
    · rw [hjf, hmiss, hfree (by omega), Bool.false_and]
    · rw [hother j hjf]

/-! ## Keys with one entry -/

variable (inUse hit) in
/-- No key has two entries: no two slots in use hold records one key matches. -/
def Distinct (t : Nat → ρ) (n : Nat) : Prop :=
  ∀ j k x, j < n → k < n → (inUse (t j) && hit x (t j)) = true → (inUse (t k) && hit x (t k)) = true → j = k

theorem Distinct.congr {t t' : Nat → ρ} {n : Nat} (hd : Distinct inUse hit t n) (h : ∀ k, k < n → t' k = t k) :
    Distinct inUse hit t' n := by
  intro j k x hj hk hjx hkx
  rw [h j hj] at hjx
  rw [h k hk] at hkx
  exact hd j k x hj hk hjx hkx

/-- **An insert of a record no key with an entry matches keeps keys to one entry.** -/
theorem Distinct.insert_fresh {t : Nat → ρ} {n : Nat} {r : ρ} (hd : Distinct inUse hit t n)
    (hnew : ∀ x, hit x r = true → lookup inUse hit t n x = none) :
    Distinct inUse hit (insert inUse t n r).1 (insert inUse t n r).2 := by
  intro j k x hj hk hjx hkx
  have hfn : freeSlot inUse t n ≤ n := freeSlot_le t n
  rw [insert_snd] at hj hk
  -- a slot other than the one taken lies in the old table and holds its old record
  have hold : ∀ i, i < max n (freeSlot inUse t n + 1) → i ≠ freeSlot inUse t n →
      i < n ∧ (insert inUse t n r).1 i = t i :=
    fun i hi hif => ⟨by omega, insert_fst_of_ne r hif⟩
  -- the new record and an old entry: the key matches the new record, so it had no entry
  have hnew_old : ∀ i, i < max n (freeSlot inUse t n + 1) → i ≠ freeSlot inUse t n →
      (inUse ((insert inUse t n r).1 (freeSlot inUse t n)) && hit x ((insert inUse t n r).1 (freeSlot inUse t n))) = true →
      (inUse ((insert inUse t n r).1 i) && hit x ((insert inUse t n r).1 i)) = true → False := by
    intro i hi hif hnewx hix
    obtain ⟨hin, hti⟩ := hold i hi hif
    rw [insert_fst_self] at hnewx
    rw [hti] at hix
    have hmiss := lookup_eq_none_iff.mp (hnew x (Bool.and_eq_true_iff.mp hnewx).2) i hin
    rw [hix] at hmiss
    exact Bool.false_ne_true hmiss.symm
  by_cases hjf : j = freeSlot inUse t n <;> by_cases hkf : k = freeSlot inUse t n
  · rw [hjf, hkf]
  · rw [hjf] at hjx
    exact (hnew_old k hk hkf hjx hkx).elim
  · rw [hkf] at hkx
    exact (hnew_old j hj hjf hkx hjx).elim
  · obtain ⟨hj', htj⟩ := hold j hj hjf
    obtain ⟨hk', htk⟩ := hold k hk hkf
    rw [htj] at hjx
    rw [htk] at hkx
    exact hd j k x hj' hk' hjx hkx

/-- **Lookup after a slot is freed.**  In a table where no key has two entries, a slot
given a free record loses the entry of every key it held, and every other key keeps its
entry. -/
theorem lookup_update_free {t : Nat → ρ} {n k : Nat} {r : ρ} (hd : Distinct inUse hit t n) (hk : k < n)
    (hr : inUse r = false) (x : κ) :
    lookup inUse hit (Function.update t k r) n x =
      if (inUse (t k) && hit x (t k)) = true then none else lookup inUse hit t n x := by
  by_cases hx : (inUse (t k) && hit x (t k)) = true
  · -- the key matched slot `k`, so it matches no other slot
    rw [if_pos hx]
    refine lookup_eq_none_iff.mpr fun j hj => ?_
    by_cases hjk : j = k
    · rw [hjk, Function.update_self, hr, Bool.false_and]
    · rw [Function.update_of_ne hjk]
      rcases hj' : (inUse (t j) && hit x (t j)) with _ | _
      · rfl
      · exact absurd (hd j k x hj hk hj' hx) hjk
  · -- the key did not match slot `k`, which matches nothing now
    rw [if_neg hx]
    unfold lookup
    refine first_congr fun j _ => ?_
    by_cases hjk : j = k
    · rw [hjk, Function.update_self, hr, Bool.false_and]
      exact (Bool.not_eq_true _ ▸ hx).symm
    · rw [Function.update_of_ne hjk]

end SlotTable
