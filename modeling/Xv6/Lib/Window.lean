import Mathlib

/-!
# Writing a window of a linear store

A byte array, a file or a disk seen as a function from offsets is written a window at a
time: `overlay f off n src` is `f` with the `n` values from `off` on replaced by
`src 0, src 1, …`.  A copy loop that writes a long window chunk after chunk is the same
as one overlay of the whole window (`overlay_append`), and what lies outside a window
is never touched (`overlay_of_not_mem`).
-/

set_option autoImplicit false

namespace Window

variable {γ : Type}

/-- `f` with the window `[off, off + n)` taken from `src`. -/
def overlay (f : ℕ → γ) (off n : ℕ) (src : ℕ → γ) : ℕ → γ :=
  fun a => if off ≤ a ∧ a < off + n then src (a - off) else f a

theorem overlay_of_mem {f : ℕ → γ} {off n a : ℕ} (src : ℕ → γ) (h₁ : off ≤ a)
    (h₂ : a < off + n) : overlay f off n src a = src (a - off) := by
  simp [overlay, h₁, h₂]

/-- The frame rule: a window write leaves every other offset alone. -/
theorem overlay_of_not_mem {f : ℕ → γ} {off n a : ℕ} (src : ℕ → γ)
    (h : a < off ∨ off + n ≤ a) : overlay f off n src a = f a := by
  unfold overlay
  rw [if_neg (by omega)]

@[simp] theorem overlay_zero (f : ℕ → γ) (off : ℕ) (src : ℕ → γ) :
    overlay f off 0 src = f := by
  funext a
  exact overlay_of_not_mem src (by omega)

/-- A window of one value is a point update. -/
theorem overlay_one (f : ℕ → γ) (off : ℕ) (v : γ) :
    overlay f off 1 (fun _ => v) = Function.update f off v := by
  funext a
  by_cases h : a = off
  · subst h
    simp [overlay]
  · rw [overlay_of_not_mem _ (by omega), Function.update_of_ne h]

/-- Two adjacent windows, the second taken from where the first left off, are one. -/
theorem overlay_append (f : ℕ → γ) (off n₁ n₂ : ℕ) (src : ℕ → γ) :
    overlay (overlay f off n₁ src) (off + n₁) n₂ (fun a => src (n₁ + a)) =
      overlay f off (n₁ + n₂) src := by
  funext a
  by_cases h₁ : a < off + n₁
  · rw [overlay_of_not_mem _ (Or.inl h₁)]
    by_cases h₀ : off ≤ a
    · rw [overlay_of_mem _ h₀ h₁, overlay_of_mem _ h₀ (by omega)]
    · rw [overlay_of_not_mem _ (Or.inl (by omega)), overlay_of_not_mem _ (Or.inl (by omega))]
  · by_cases h₂ : a < off + n₁ + n₂
    · rw [overlay_of_mem _ (by omega) h₂, overlay_of_mem _ (by omega) (by omega)]
      congr 1
      omega
    · rw [overlay_of_not_mem _ (Or.inr (by omega)), overlay_of_not_mem _ (Or.inr (by omega)),
        overlay_of_not_mem _ (Or.inr (by omega))]

/-- Windows whose sources agree on the window are one. -/
theorem overlay_congr (f : ℕ → γ) (off n : ℕ) {src src' : ℕ → γ} (h : ∀ i, i < n → src i = src' i) :
    overlay f off n src = overlay f off n src' := by
  funext a
  by_cases ha : off ≤ a ∧ a < off + n
  · rw [overlay_of_mem _ ha.1 ha.2, overlay_of_mem _ ha.1 ha.2, h (a - off) (by omega)]
  · have ha' : a < off ∨ off + n ≤ a := by omega
    rw [overlay_of_not_mem _ ha', overlay_of_not_mem _ ha']

end Window
