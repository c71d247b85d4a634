import Mathlib

/-!
# A store updated by a list of writes

A store is a function from addresses to values; `updates f w` is `f` after the writes
`w = [(a₁, v₁), (a₂, v₂), …]`, performed in order.  A disk written block by block, or a
redo log replayed onto one, is such a store.  The rules here are the ones a redo-log
proof needs:

* `updates_of_not_mem`: an address no write names keeps its value (the frame rule);
* `updates_of_forall`: an address that every write to it sets to `v` holds `v`;
* `updates_congr`: the result only depends on the start at unwritten addresses;
* `updates_take`: replaying all writes after any prefix of them gives the same store as
  replaying them once — the idempotence of redo.
-/

set_option autoImplicit false

namespace Store

variable {β γ : Type} [DecidableEq β]

/-- The store `f` after the writes `w`, in order. -/
def updates (f : β → γ) : List (β × γ) → β → γ
  | [] => f
  | p :: w => updates (Function.update f p.1 p.2) w

@[simp] theorem updates_nil (f : β → γ) : updates f [] = f := rfl

@[simp] theorem updates_cons (f : β → γ) (p : β × γ) (w : List (β × γ)) :
    updates f (p :: w) = updates (Function.update f p.1 p.2) w := rfl

theorem updates_append (f : β → γ) (w₁ w₂ : List (β × γ)) :
    updates f (w₁ ++ w₂) = updates (updates f w₁) w₂ := by
  induction w₁ generalizing f with
  | nil => rfl
  | cons p w₁ ih => exact ih _

/-- An address no write names keeps its value. -/
theorem updates_of_not_mem {f : β → γ} {w : List (β × γ)} {b : β} (h : b ∉ w.map Prod.fst) :
    updates f w b = f b := by
  induction w generalizing f with
  | nil => rfl
  | cons p w ih =>
      rw [List.map_cons, List.mem_cons, not_or] at h
      rw [updates_cons, ih h.2, Function.update_of_ne h.1]

/-- Two stores that agree at every unwritten address agree after the writes. -/
theorem updates_congr {f g : β → γ} {w : List (β × γ)}
    (h : ∀ b, b ∉ w.map Prod.fst → f b = g b) : updates f w = updates g w := by
  induction w generalizing f g with
  | nil => exact funext fun b => h b (by simp)
  | cons p w ih =>
      apply ih
      intro b hb
      by_cases hbp : b = p.1
      · subst hbp
        simp
      · rw [Function.update_of_ne hbp, Function.update_of_ne hbp]
        exact h b (by simp [hbp, hb])

/-- An address that every write to it sets to `v`, and that some write names, holds `v`. -/
theorem updates_of_forall {f : β → γ} {w : List (β × γ)} {b : β} {v : γ}
    (hmem : b ∈ w.map Prod.fst) (hv : ∀ p ∈ w, p.1 = b → p.2 = v) : updates f w b = v := by
  induction w generalizing f with
  | nil => simp at hmem
  | cons p w ih =>
      rw [updates_cons]
      by_cases hw : b ∈ w.map Prod.fst
      · exact ih hw (fun q hq => hv q (List.mem_cons_of_mem _ hq))
      · -- the last write to `b` is the first one
        have hb : p.1 = b := by
          rw [List.map_cons, List.mem_cons] at hmem
          exact (hmem.resolve_right hw).symm
        rw [updates_of_not_mem hw, ← hb, Function.update_self]
        exact hv p List.mem_cons_self hb

/-- Replaying all the writes after any prefix of them gives the store of one replay. -/
theorem updates_take (f : β → γ) (w : List (β × γ)) (j : Nat) :
    updates (updates f (w.take j)) w = updates f w := by
  apply updates_congr
  intro b hb
  apply updates_of_not_mem
  intro hm
  rw [List.map_take] at hm
  exact hb (List.mem_of_mem_take hm)

end Store
