import Mathlib

/-!
# A store of numbered slots with least-free allocation

The specification of a slot allocator that keeps one value per slot.  `store x` takes
the least free slot number, keeps `x` there and returns the number; `load i` returns
the value of slot `i` and frees the slot; `drop i` frees it.  A swap area that keeps
pages under numbers is meant to behave like this store.

A client of a store of capacity `cap` stores only while fewer than `cap` slots are in
use and loads or drops only slots in use (`Allowed`).  Least-free allocation then never
hands out a number at or above `cap` (`free_lt_of_card_lt`): the slots below the least
free one are all in use.
-/

set_option autoImplicit false

namespace SlotStore

/-- The slots in use and the value of each. -/
structure State (α : Type) where
  used : Finset ℕ
  content : ℕ → α

/-- An operation on the store. -/
inductive Op (α : Type) where
  | store (x : α)
  | load (i : ℕ)
  | drop (i : ℕ)

/-- What an operation returns. -/
inductive Out (α : Type) where
  | stored (i : ℕ)
  | loaded (x : α)
  | dropped

variable {α : Type}

namespace State

/-- The empty store. -/
def empty (x₀ : α) : State α := { used := ∅, content := fun _ => x₀ }

/-- The least slot number not in use. -/
def free (s : State α) : ℕ := Nat.find (Infinite.exists_notMem_finset s.used)

theorem free_notMem (s : State α) : s.free ∉ s.used :=
  Nat.find_spec (Infinite.exists_notMem_finset s.used)

theorem mem_of_lt_free (s : State α) {j : ℕ} (h : j < s.free) : j ∈ s.used := by
  by_contra hj
  exact Nat.find_min (Infinite.exists_notMem_finset s.used) h hj

/-- The slots below the least free one are in use, so there are at most as many. -/
theorem free_le_card (s : State α) : s.free ≤ s.used.card := by
  have hsub : Finset.range s.free ⊆ s.used := fun j hj =>
    s.mem_of_lt_free (Finset.mem_range.mp hj)
  simpa using Finset.card_le_card hsub

/-- When the slots in use are exactly those below `k`, the least free one is `k`. -/
theorem free_eq_of_used_eq_range (s : State α) {k : ℕ} (h : s.used = Finset.range k) :
    s.free = k := by
  unfold free
  rw [Nat.find_eq_iff]
  simp [h]

theorem free_lt_of_card_lt (s : State α) {cap : ℕ} (h : s.used.card < cap) : s.free < cap :=
  lt_of_le_of_lt s.free_le_card h

end State

/-- One operation on the store. -/
def step (s : State α) : Op α → State α × Out α
  | .store x =>
      ({ used := insert s.free s.used, content := Function.update s.content s.free x },
        .stored s.free)
  | .load i => ({ s with used := s.used.erase i }, .loaded (s.content i))
  | .drop i => ({ s with used := s.used.erase i }, .dropped)

/-- The operations a client of a store of capacity `cap` may perform. -/
def Allowed (cap : ℕ) (s : State α) : Op α → Prop
  | .store _ => s.used.card < cap
  | .load i => i ∈ s.used
  | .drop i => i ∈ s.used

end SlotStore
