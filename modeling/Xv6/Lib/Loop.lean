import Mathlib.Logic.Basic

/-!
# While loops on fuel, and loops that do not end

A C `while` loop whose passes have no bound of their own is run here with an explicit
number of passes: each pass of `body` leaves the loop with a result (`.inl`), goes on
from a new state (`.inr`), or fails (a panic, `.error`).  `iterate body n s` answers
`some r` for a loop that left with `r` within `n` passes, and `none` for one that was
still going after them.

A loop does not end from `s` (`Diverges`) when no number of passes is enough.  The rule
for proving it is an invariant that every pass keeps without leaving (`diverges_of_inv`);
a pass that comes back to the state it started from is the simplest case
(`diverges_of_fixed`).  A loop that diverges never answers `some`, at any fuel.
-/

set_option autoImplicit false

namespace Loop

variable {σ ρ ε : Type}

/-- The loop `body` from `s`, with at most `n` passes. -/
def iterate (body : σ → Except ε (ρ ⊕ σ)) : Nat → σ → Except ε (Option ρ)
  | 0, _ => pure none
  | n + 1, s => do
      match ← body s with
      | .inl r => pure (some r)
      | .inr s' => iterate body n s'

/-- No number of passes is enough: the loop is still going after each. -/
def Diverges (body : σ → Except ε (ρ ⊕ σ)) (s : σ) : Prop := ∀ n, iterate body n s = .ok none

variable {body : σ → Except ε (ρ ⊕ σ)}

theorem iterate_exit {s : σ} {r : ρ} (h : body s = .ok (.inl r)) (n : Nat) :
    iterate body (n + 1) s = .ok (some r) := by
  rw [iterate, h]
  rfl

theorem iterate_continue {s s' : σ} (h : body s = .ok (.inr s')) (n : Nat) :
    iterate body (n + 1) s = iterate body n s' := by
  rw [iterate, h]
  rfl

/-- The rule for a loop that does not end: every pass from a state of `I` goes on, to a
state of `I`. -/
theorem diverges_of_inv (I : σ → Prop) (hstep : ∀ s, I s → ∃ s', body s = .ok (.inr s') ∧ I s')
    {s : σ} (hs : I s) : Diverges body s := by
  intro n
  -- induction on the passes left; the state is any of `I`
  induction n generalizing s with
  | zero => rfl
  | succ n ih =>
    obtain ⟨s', hbody, hs'⟩ := hstep s hs
    rw [iterate_continue hbody]
    exact ih hs'

/-- A pass that comes back to its own state never ends the loop. -/
theorem diverges_of_fixed {s : σ} (h : body s = .ok (.inr s)) : Diverges body s :=
  diverges_of_inv (· = s) (fun _ ht => ⟨s, ht ▸ h, rfl⟩) rfl

end Loop
