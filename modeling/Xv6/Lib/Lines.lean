import Mathlib.Data.List.Basic

/-!
# The lines of a text

A text is cut at each delimiter `d` into the lines it ends and the bytes after the last
one (`Lines.split`).  Putting the lines back, each followed by `d`, and the tail after
them gives the text again (`join_split`); so no line and no tail holds `d`, and a text
whose lines are empty is its own tail.

Texts arrive in pieces.  `split_append` says how the lines of `a ++ b` come from those
of `a` and those of the tail of `a` continued by `b`: a reader that keeps the tail of
each piece and puts it in front of the next finds every line once, in order.
`prefix_head_of_not_mem` is the case of a piece with no delimiter: it only starts the
first line of what follows, so a text whose lines are all shorter than such a piece at
its start has none (`lines_eq_nil_of_long_head`).
-/

set_option autoImplicit false

namespace Lines

variable {α : Type*}

/-- The symbol `c` in front of a cut text: at the start of its first line, or of its tail
when it has no line. -/
def consFirst (c : α) : List (List α) × List α → List (List α) × List α
  | ([], t) => ([], c :: t)
  | (l :: ls, t) => ((c :: l) :: ls, t)

/-- The lines, each with its `d`, then the tail. -/
def join (d : α) (r : List (List α) × List α) : List α := (r.1.map (· ++ [d])).flatten ++ r.2

theorem join_consFirst (d c : α) (r : List (List α) × List α) :
    join d (consFirst c r) = c :: join d r := by
  obtain ⟨_ | ⟨l, ls⟩, t⟩ := r <;> simp [consFirst, join]

theorem not_mem_consFirst_tail {d c : α} (hc : c ≠ d) {r : List (List α) × List α}
    (hr : d ∉ r.2) : d ∉ (consFirst c r).2 := by
  obtain ⟨_ | ⟨l, ls⟩, t⟩ := r
  · simpa [consFirst, Ne.symm hc] using hr
  · exact hr

variable [DecidableEq α] (d : α)

/-- The lines of a text that `d` ends, and the text after the last `d`. -/
def split : List α → List (List α) × List α
  | [] => ([], [])
  | c :: s => if c = d then ([] :: (split s).1, (split s).2) else consFirst c (split s)

variable {d}

@[simp] theorem split_nil : split d [] = ([], []) := rfl

theorem split_cons_of_eq {c : α} (s : List α) (h : c = d) :
    split d (c :: s) = ([] :: (split d s).1, (split d s).2) := by
  rw [split, if_pos h]

theorem split_cons_of_ne {c : α} (s : List α) (h : c ≠ d) :
    split d (c :: s) = consFirst c (split d s) := by
  rw [split, if_neg h]

/-- Cutting a text into its lines loses nothing. -/
theorem join_split (s : List α) : join d (split d s) = s := by
  induction s with
  | nil => rfl
  | cons c s ih =>
    by_cases hc : c = d
    · rw [split_cons_of_eq s hc, hc]
      simpa [join] using ih
    · rw [split_cons_of_ne s hc, join_consFirst, ih]

/-- The tail holds no delimiter. -/
theorem not_mem_split_tail (s : List α) : d ∉ (split d s).2 := by
  induction s with
  | nil => simp
  | cons c s ih =>
    by_cases hc : c = d
    · rw [split_cons_of_eq s hc]
      exact ih
    · rw [split_cons_of_ne s hc]
      exact not_mem_consFirst_tail hc ih

/-- A text with no delimiter has no line: it is all tail. -/
theorem split_of_not_mem {s : List α} (h : d ∉ s) : split d s = ([], s) := by
  induction s with
  | nil => rfl
  | cons c s ih =>
    have hc : c ≠ d := (List.ne_of_not_mem_cons h).symm
    rw [split_cons_of_ne s hc, ih (List.not_mem_of_not_mem_cons h)]
    rfl

/-- A text with no line is its own tail. -/
theorem split_tail_of_lines_nil {s : List α} (h : (split d s).1 = []) : (split d s).2 = s := by
  have hj := join_split (d := d) s
  rwa [join, h, List.map_nil, List.flatten_nil, List.nil_append] at hj

/-- A text with a line has a shorter tail. -/
theorem length_split_tail_lt {s : List α} (h : (split d s).1 ≠ []) :
    (split d s).2.length < s.length := by
  obtain ⟨l, ls, hl⟩ := List.exists_cons_of_ne_nil h
  have hj := congrArg List.length (join_split (d := d) s)
  rw [join, hl] at hj
  simp only [List.map_cons, List.flatten_cons, List.length_append, List.length_singleton] at hj
  omega

/-- The lines of `a ++ b`: those of `a`, then those of the tail of `a` continued by `b`. -/
theorem split_append (a b : List α) :
    split d (a ++ b) =
      ((split d a).1 ++ (split d ((split d a).2 ++ b)).1, (split d ((split d a).2 ++ b)).2) := by
  -- induction on the first piece; a symbol that is not `d` moves into the first line
  induction a with
  | nil => rfl
  | cons c a ih =>
    by_cases hc : c = d
    · rw [List.cons_append, split_cons_of_eq _ hc, split_cons_of_eq _ hc, ih]
      rfl
    · rw [List.cons_append, split_cons_of_ne _ hc, split_cons_of_ne _ hc, ih]
      rcases hsa : split d a with ⟨_ | ⟨l, ls⟩, t⟩
      · show consFirst c (split d (t ++ b)) = ([] ++ (split d (c :: t ++ b)).1, (split d (c :: t ++ b)).2)
        rw [List.cons_append, split_cons_of_ne _ hc]
        rfl
      · rfl

/-- A text has no line exactly when it has no delimiter. -/
theorem lines_eq_nil_iff {s : List α} : (split d s).1 = [] ↔ d ∉ s := by
  constructor
  · intro h
    rw [← split_tail_of_lines_nil h]
    exact not_mem_split_tail s
  · intro h
    rw [split_of_not_mem h]

/-- A piece with no delimiter starts the first line of what follows it. -/
theorem prefix_head_of_not_mem {a : List α} (ha : d ∉ a) (b : List α) :
    ∀ l ∈ (split d (a ++ b)).1.head?, a <+: l := by
  induction a with
  | nil => exact fun l _ => List.nil_prefix
  | cons c a ih =>
    have hc : c ≠ d := (List.ne_of_not_mem_cons ha).symm
    intro l hl
    rw [List.cons_append, split_cons_of_ne _ hc] at hl
    have ih' := ih (List.not_mem_of_not_mem_cons ha)
    -- the first line is `c` in front of the first line of the rest
    rcases hsp : split d (a ++ b) with ⟨_ | ⟨l', ls⟩, t⟩
    · rw [hsp] at hl
      simp [consFirst] at hl
    · rw [hsp] at hl ih'
      simp only [consFirst, List.head?_cons, Option.mem_def, Option.some.injEq] at hl ih'
      subst hl
      exact List.cons_prefix_cons.2 ⟨rfl, ih' l' rfl⟩


/-- A text that starts with a piece with no delimiter, longer than every line of the text,
has no line: its first line would start with the whole piece. -/
theorem lines_eq_nil_of_long_head {a : List α} (ha : d ∉ a) (b : List α)
    (hlt : ∀ l ∈ (split d (a ++ b)).1, l.length < a.length) : (split d (a ++ b)).1 = [] := by
  rcases hls : (split d (a ++ b)).1 with _ | ⟨l, ls⟩
  · rfl
  · have hpre := prefix_head_of_not_mem ha b l (by rw [hls]; rfl)
    have hl := hlt l (by rw [hls]; exact List.mem_cons_self ..)
    have := hpre.length_le
    omega

end Lines
