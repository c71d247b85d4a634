import Mathlib

/-!
# Runs of step systems

A component whose operations are atomic steps `step : σ → ι → σ × ο` (a state, an
input naming the operation and its arguments, an observable output) is run over a
list of inputs.  Two rules are all the analyses need:

* `run_inv`: an invariant that holds initially and is preserved by every step holds
  after every run;
* `run_conserve`: if every step moves elements through a FIFO view of the state —
  what the step takes in, appended to the view before, equals what it hands out,
  followed by the view after — then over a whole run everything taken in is handed
  out in order, except what is still in the view.  This is the accounting behind
  "no element is lost, duplicated or reordered".

`Reachable` is the relational form, for components whose steps are given by a
relation rather than a function.

A step that can fail (a panic) is run by `runE`, which stops at the first failure, and
`Post` says what such a step may fail with and return, with the rule `Post.bind` for a
`do` block; `Post.unless` adds to the errors allowed the condition under which the step
cannot fail.
-/

set_option autoImplicit false

namespace Run

variable {σ ι ο β : Type}

/-- Run `step` from `s` over the inputs `is`, collecting one output per step. -/
def run (step : σ → ι → σ × ο) : σ → List ι → σ × List ο
  | s, [] => (s, [])
  | s, i :: is =>
      let r := run step (step s i).1 is
      (r.1, (step s i).2 :: r.2)

@[simp] theorem run_nil (step : σ → ι → σ × ο) (s : σ) : run step s [] = (s, []) := rfl

@[simp] theorem run_cons (step : σ → ι → σ × ο) (s : σ) (i : ι) (is : List ι) :
    run step s (i :: is) =
      ((run step (step s i).1 is).1, (step s i).2 :: (run step (step s i).1 is).2) := rfl

/-- INTERNAL: a run produces one output per input. -/
theorem length_run_outputs (step : σ → ι → σ × ο) (s : σ) (is : List ι) :
    (run step s is).2.length = is.length := by
  induction is generalizing s with
  | nil => rfl
  | cons i is ih => simp [ih]

/-- An invariant preserved by every step holds after every run. -/
theorem run_inv (step : σ → ι → σ × ο) (I : σ → Prop)
    (hstep : ∀ s i, I s → I (step s i).1) (s : σ) (hs : I s) (is : List ι) :
    I (run step s is).1 := by
  induction is generalizing s with
  | nil => exact hs
  | cons i is ih => exact ih _ (hstep s i hs)

/-- A property every step's output has, from a state satisfying the invariant, holds of
every output of a run. -/
theorem run_outputs_inv (step : σ → ι → σ × ο) (I : σ → Prop)
    (hstep : ∀ s i, I s → I (step s i).1) (P : ο → Prop)
    (hP : ∀ s i, I s → P (step s i).2) (s : σ) (hs : I s) (is : List ι) :
    ∀ o ∈ (run step s is).2, P o := by
  induction is generalizing s with
  | nil => simp
  | cons i is ih =>
      intro o ho
      simp only [run_cons, List.mem_cons] at ho
      rcases ho with rfl | ho
      · exact hP s i hs
      · exact ih _ (hstep s i hs) o ho

/-- FIFO conservation over a run: what goes in, after the initial view, is what
comes out followed by the final view. -/
theorem run_conserve (step : σ → ι → σ × ο) (I : σ → Prop) (view : σ → List β)
    (takeIn handOut : ι → ο → List β)
    (hstep : ∀ s i, I s → I (step s i).1)
    (hview : ∀ s i, I s →
      view s ++ takeIn i (step s i).2 = handOut i (step s i).2 ++ view (step s i).1)
    (s : σ) (hs : I s) (is : List ι) :
    view s ++ ((is.zip (run step s is).2).map fun p => takeIn p.1 p.2).flatten =
      ((is.zip (run step s is).2).map fun p => handOut p.1 p.2).flatten ++
        view (run step s is).1 := by
  induction is generalizing s with
  | nil => simp
  | cons i is ih =>
      simp only [run_cons, List.zip_cons_cons, List.map_cons, List.flatten_cons]
      rw [← List.append_assoc, hview s i hs, List.append_assoc, ih _ (hstep s i hs),
        List.append_assoc]

/-- FIFO conservation over a run, for steps whose intake and hand-out are read off their
outputs alone. -/
theorem run_conserve_out (step : σ → ι → σ × ο) (I : σ → Prop) (view : σ → List β)
    (takeIn handOut : ο → List β)
    (hstep : ∀ s i, I s → I (step s i).1)
    (hview : ∀ s i, I s →
      view s ++ takeIn (step s i).2 = handOut (step s i).2 ++ view (step s i).1)
    (s : σ) (hs : I s) (is : List ι) :
    view s ++ ((run step s is).2.map takeIn).flatten =
      ((run step s is).2.map handOut).flatten ++ view (run step s is).1 := by
  -- the zipped form of `run_conserve` only reads the outputs
  have hzip : ∀ f : ο → List β,
      (is.zip (run step s is).2).map (fun p => f p.2) = (run step s is).2.map f := by
    intro f
    have hcomp : (fun p : ι × ο => f p.2) = f ∘ Prod.snd := rfl
    rw [hcomp, ← List.map_map, List.map_snd_zip (length_run_outputs step s is).le]
  have h := run_conserve step I view (fun _ o => takeIn o) (fun _ o => handOut o) hstep hview
    s hs is
  rwa [hzip takeIn, hzip handOut] at h

/-- States reachable from `init` by `next`. -/
inductive Reachable (init : σ → Prop) (next : σ → σ → Prop) : σ → Prop
  | init {s : σ} : init s → Reachable init next s
  | step {s t : σ} : Reachable init next s → next s t → Reachable init next t

/-- Induction rule for reachable states: an invariant that holds initially and is
preserved by `next` holds in every reachable state. -/
theorem Reachable.inv {init : σ → Prop} {next : σ → σ → Prop} (I : σ → Prop)
    (hinit : ∀ s, init s → I s) (hnext : ∀ s t, I s → next s t → I t)
    {s : σ} (hs : Reachable init next s) : I s := by
  induction hs with
  | init h => exact hinit _ h
  | step _ hst ih => exact hnext _ _ ih hst

section Fallible

variable {ε : Type}

/-- A computation that succeeds hands its value to the rest. -/
@[simp] theorem ok_bind {α β : Type} (x : α) (f : α → Except ε β) :
    (Except.ok x >>= f) = f x := rfl

/-- A computation that fails fails the whole. -/
@[simp] theorem error_bind {α β : Type} (e : ε) (f : α → Except ε β) :
    (Except.error e >>= f) = Except.error e := rfl

/-- A bind that fails failed in its first computation or in the rest. -/
theorem bind_eq_error {α β : Type} {x : Except ε α} {f : α → Except ε β} {e : ε}
    (h : (x >>= f) = .error e) : x = .error e ∨ ∃ a, x = .ok a ∧ f a = .error e := by
  cases x with
  | error e' =>
      rw [error_bind] at h
      cases h
      exact Or.inl rfl
  | ok a => exact Or.inr ⟨a, rfl, h⟩

/-- A bind that succeeds succeeded in its first computation and in the rest. -/
theorem bind_eq_ok {α β : Type} {x : Except ε α} {f : α → Except ε β} {b : β}
    (h : (x >>= f) = .ok b) : ∃ a, x = .ok a ∧ f a = .ok b := by
  cases x with
  | error e =>
      rw [error_bind] at h
      cases h
  | ok a => exact ⟨a, rfl, h⟩

/-- What a fallible computation may do: fail only with an error that `E` allows, and
return only values that `P` holds of. -/
def Post {α : Type} (E : ε → Prop) (P : α → Prop) : Except ε α → Prop
  | .error e => E e
  | .ok a => P a

section Post

variable {α β : Type} {E : ε → Prop} {P : α → Prop} {Q : β → Prop}

theorem Post.of_ok {x : Except ε α} {a : α} (h : Post E P x) (hx : x = .ok a) : P a := by
  subst hx
  exact h

theorem Post.mono {x : Except ε α} (h : Post E P x) {P' : α → Prop} (hP : ∀ a, P a → P' a) :
    Post E P' x := by
  cases x with
  | error e => exact h
  | ok a => exact hP a h

/-- The rule for a `do` step: the first computation's postcondition is the rest's
precondition. -/
theorem Post.bind {x : Except ε α} {f : α → Except ε β} (hx : Post E P x)
    (hf : ∀ a, P a → Post E Q (f a)) : Post E Q (x >>= f) := by
  cases x with
  | error e => exact hx
  | ok a => exact hf a hx

/-- Two postconditions of one computation hold together. -/
theorem Post.and {x : Except ε α} {P' : α → Prop} (h : Post E P x) (h' : Post E P' x) :
    Post E (fun a => P a ∧ P' a) x := by
  cases x with
  | error e => exact h
  | ok a => exact ⟨h, h'⟩

/-- A postcondition that allows some errors allows more. -/
theorem Post.weaken {x : Except ε α} {E' : ε → Prop} (h : Post E P x) (hE : ∀ e, E e → E' e) :
    Post E' P x := by
  cases x with
  | error e => exact hE e h
  | ok a => exact h

/-- A postcondition of a computation that cannot fail holds with no error allowed. -/
theorem Post.both {x : Except ε α} {Q : α → Prop} (h : Post E P x) (ht : Post (fun _ => False) Q x) :
    Post (fun _ => False) (fun a => P a ∧ Q a) x := by
  cases x with
  | error e => exact ht
  | ok a => exact ⟨h, ht⟩

/-- A computation that cannot fail when `c` holds fails, if at all, with an error `E`
allows and only when `c` does not hold. -/
theorem Post.unless {x : Except ε α} {c : Prop} {Q : α → Prop} (h : Post E P x)
    (hc : c → Post (fun _ => False) Q x) : Post (fun e => E e ∧ ¬c) P x := by
  cases x with
  | error e => exact ⟨h, fun hc' => hc hc'⟩
  | ok a => exact h

/-- A computation none of whose errors can happen returns. -/
theorem Post.exists_ok {x : Except ε α} (h : Post (fun _ => False) P x) : ∃ a, x = .ok a ∧ P a := by
  cases x with
  | error e => exact h.elim
  | ok a => exact ⟨a, rfl, h⟩

end Post

/-- **A relation along a fallible fold.**  If every step of the fold relates the state
before to the state after by a reflexive and transitive relation, the fold relates its
first state to its last. -/
theorem foldlM_rel {α : Type} (f : σ → α → Except ε σ) (R : σ → σ → Prop) (hrefl : ∀ s, R s s)
    (htrans : ∀ s t u, R s t → R t u → R s u) (l : List α)
    (hstep : ∀ a ∈ l, ∀ s s', f s a = .ok s' → R s s') :
    ∀ s s', l.foldlM f s = .ok s' → R s s' := by
  induction l with
  | nil =>
      intro s s' h
      cases h
      exact hrefl s
  | cons a l ih =>
      intro s s' h
      rw [List.foldlM_cons] at h
      cases hs : f s a with
      | error e => rw [hs] at h; cases h
      | ok t =>
          rw [hs, ok_bind] at h
          exact htrans s t s' (hstep a List.mem_cons_self s t hs)
            (ih (fun b hb => hstep b (List.mem_cons_of_mem a hb)) t s' h)

/-- A fallible fold whose every step leaves the state alone returns it. -/
theorem foldlM_fixed {α : Type} (f : σ → α → Except ε σ) (s : σ) (l : List α)
    (hfix : ∀ a ∈ l, f s a = .ok s) : l.foldlM f s = .ok s := by
  induction l with
  | nil => rfl
  | cons a l ih =>
      rw [List.foldlM_cons, hfix a List.mem_cons_self, ok_bind]
      exact ih fun b hb => hfix b (List.mem_cons_of_mem a hb)

/-- A count that every step of a fallible fold raises by one rises by the length of the
list. -/
theorem foldlM_count {α : Type} (f : σ → α → Except ε σ) (μ : σ → Nat) (l : List α)
    (hstep : ∀ a ∈ l, ∀ s s', f s a = .ok s' → μ s' = μ s + 1) :
    ∀ s s', l.foldlM f s = .ok s' → μ s' = μ s + l.length := by
  induction l with
  | nil =>
      intro s s' h
      cases h
      rfl
  | cons a l ih =>
      intro s s' h
      rw [List.foldlM_cons] at h
      cases hs : f s a with
      | error e => rw [hs] at h; cases h
      | ok t =>
          rw [hs, ok_bind] at h
          rw [ih (fun b hb => hstep b (List.mem_cons_of_mem a hb)) t s' h,
            hstep a List.mem_cons_self s t hs, List.length_cons]
          omega

/-- Run a step that can fail from `s` over the inputs `is`; the first failure ends the
run. -/
def runE (step : σ → ι → Except ε (σ × ο)) : σ → List ι → Except ε (σ × List ο)
  | s, [] => .ok (s, [])
  | s, i :: is =>
      match step s i with
      | .error e => .error e
      | .ok (s', o) =>
          match runE step s' is with
          | .error e => .error e
          | .ok (s'', os) => .ok (s'', o :: os)

@[simp] theorem runE_nil (step : σ → ι → Except ε (σ × ο)) (s : σ) :
    runE step s [] = .ok (s, []) := rfl

theorem runE_cons_ok {step : σ → ι → Except ε (σ × ο)} {s s' : σ} {i : ι} {o : ο}
    (h : step s i = .ok (s', o)) (is : List ι) :
    runE step s (i :: is) = (runE step s' is).map fun r => (r.1, o :: r.2) := by
  simp only [runE, h]
  cases runE step s' is <;> rfl

theorem runE_cons_error {step : σ → ι → Except ε (σ × ο)} {s : σ} {i : ι} {e : ε}
    (h : step s i = .error e) (is : List ι) : runE step s (i :: is) = .error e := by
  simp only [runE, h]

/-- A run that reaches `s'` continues with the run from there. -/
theorem runE_append_ok {step : σ → ι → Except ε (σ × ο)} {s s' : σ} {is : List ι}
    {os : List ο} (hrun : runE step s is = .ok (s', os)) (js : List ι) :
    runE step s (is ++ js) = (runE step s' js).map fun r => (r.1, os ++ r.2) := by
  induction is generalizing s os with
  | nil =>
      cases hrun
      rw [List.nil_append]
      cases runE step s' js <;> rfl
  | cons i is ih =>
      cases hstep : step s i with
      | error e' => rw [runE_cons_error hstep] at hrun; cases hrun
      | ok r =>
          rw [runE_cons_ok hstep] at hrun
          cases hrest : runE step r.1 is with
          | error e' => rw [hrest] at hrun; cases hrun
          | ok r' =>
              -- the rest of the run ends where the whole run does
              obtain ⟨s'', os'⟩ := r'
              rw [hrest] at hrun
              cases hrun
              rw [List.cons_append, runE_cons_ok hstep, ih hrest]
              cases runE step s'' js <;> rfl

/-- A run that reaches `s'` and then fails fails as a whole. -/
theorem runE_append_error {step : σ → ι → Except ε (σ × ο)} {s s' : σ} {is : List ι}
    {os : List ο} (hrun : runE step s is = .ok (s', os)) {js : List ι} {e : ε}
    (hfail : runE step s' js = .error e) : runE step s (is ++ js) = .error e := by
  rw [runE_append_ok hrun, hfail]
  rfl

/-- A run extended by one step that succeeds. -/
theorem runE_snoc_ok {step : σ → ι → Except ε (σ × ο)} {s s' s'' : σ} {is : List ι} {i : ι}
    {os : List ο} {o : ο} (hrun : runE step s is = .ok (s', os)) (hstep : step s' i = .ok (s'', o)) :
    runE step s (is ++ [i]) = .ok (s'', os ++ [o]) := by
  rw [runE_append_ok hrun, runE_cons_ok hstep]
  rfl

/-- The last step of a run extended by one input, from where the shorter run ends. -/
theorem runE_snoc_step {step : σ → ι → Except ε (σ × ο)} {s s' s'' : σ} {is : List ι} {i : ι}
    {os : List ο} {o : ο} (hrun : runE step s is = .ok (s', os))
    (hext : runE step s (is ++ [i]) = .ok (s'', os ++ [o])) : step s' i = .ok (s'', o) := by
  rw [runE_append_ok hrun] at hext
  cases hstep : step s' i with
  | error e =>
      rw [runE_cons_error hstep] at hext
      cases hext
  | ok r =>
      rw [runE_cons_ok hstep, runE_nil] at hext
      simp only [Except.map, Except.ok.injEq, Prod.mk.injEq, List.append_cancel_left_eq,
        List.cons.injEq, and_true] at hext
      obtain ⟨h1, h2⟩ := hext
      rw [← h1, ← h2]

end Fallible

end Run
