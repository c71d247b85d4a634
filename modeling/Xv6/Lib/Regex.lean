import Mathlib.Computability.Language

/-!
# Patterns of atoms, stars and anchors, and the search that decides them

The patterns of a backtracking matcher in the style of Kernighan and Pike: an optional
start anchor, a sequence of pieces (an atom, one symbol or the wildcard, possibly
starred), and an optional end anchor.  Their meaning is given in Mathlib's `Language`:
a piece is an atom's language or its Kleene star, a sequence the product of its pieces'.
A pattern matches a word when the language has a word starting at one of the allowed
offsets, followed by nothing when the end is anchored (`Pat.Matches`).

A backtracking matcher decides this meaning piece by piece, through one equation per
kind of piece that takes a symbol (`prefixIn_pieces_one`, `prefixIn_pieces_star`;
the star one is Mathlib's `l∗ = 1 + l * l∗`), and its loops are searches over the
suffixes of the word: `scan here more` tries `here` at each suffix and moves on while
`more` accepts the symbol it skips.  `scan_decides` is the rule for such a loop: it
decides any predicate that unfolds along the suffixes as the loop walks them.
`Decides o P` says that a computation on fuel returned, and returned the truth of `P`.
-/

set_option autoImplicit false

namespace Regex

open Computability

variable {α : Type*}

/-! ## Deciding by a computation on fuel -/

/-- A computation that may run out of fuel decides `P`: it returns, and what it returns
is whether `P` holds. -/
def Decides (o : Option Bool) (P : Prop) : Prop := ∃ b, o = some b ∧ (b = true ↔ P)

theorem Decides.some {b : Bool} {P : Prop} (h : b = true ↔ P) : Decides (some b) P :=
  ⟨b, rfl, h⟩

theorem Decides.congr {o : Option Bool} {P Q : Prop} (h : Decides o P) (hPQ : P ↔ Q) :
    Decides o Q := by
  obtain ⟨b, ho, hb⟩ := h
  exact ⟨b, ho, hb.trans hPQ⟩

/-- The body of a search loop: return `true` when the test `o` holds, otherwise go on
with `k`. -/
theorem Decides.bind_or {o k : Option Bool} {P R : Prop} (ho : Decides o P)
    (hk : ¬P → Decides k R) :
    Decides (o >>= fun found => if found = true then pure true else k) (P ∨ R) := by
  obtain ⟨b, rfl, hb⟩ := ho
  cases b with
  | true => exact Decides.some ⟨fun _ => .inl (hb.1 rfl), fun _ => rfl⟩
  | false =>
    have hP : ¬P := fun h => by simpa using hb.2 h
    exact (hk hP).congr (by simp [hP])

/-! ## Atoms, pieces, patterns -/

/-- A symbol of a pattern: a literal, or the wildcard. -/
inductive Atom (α : Type*) where
  | lit (a : α)
  | any
  deriving DecidableEq, Repr

/-- The symbols an atom accepts. -/
def Atom.Accepts : Atom α → α → Prop
  | .lit a, x => x = a
  | .any, _ => True

/-- The one-symbol words of the symbols an atom accepts. -/
def Atom.lang (a : Atom α) : Language α := {w | ∃ x, w = [x] ∧ a.Accepts x}

theorem Atom.mem_lang {a : Atom α} {w : List α} : w ∈ a.lang ↔ ∃ x, w = [x] ∧ a.Accepts x :=
  Iff.rfl

/-- An atom, alone or starred. -/
inductive Piece (α : Type*) where
  | one (a : Atom α)
  | star (a : Atom α)
  deriving DecidableEq, Repr

/-- The language of a piece: its atom's, or the Kleene star of it. -/
def Piece.lang : Piece α → Language α
  | .one a => a.lang
  | .star a => a.lang∗

/-- The language of a sequence of pieces: the product of theirs. -/
def piecesLang (ps : List (Piece α)) : Language α := (ps.map Piece.lang).prod

@[simp] theorem piecesLang_nil : piecesLang ([] : List (Piece α)) = 1 := rfl

@[simp] theorem piecesLang_cons (p : Piece α) (ps : List (Piece α)) :
    piecesLang (p :: ps) = p.lang * piecesLang ps := by
  simp [piecesLang]

/-- A pattern: anchored at the start or not, its pieces, anchored at the end or not. -/
structure Pat (α : Type*) where
  bol : Bool
  pieces : List (Piece α)
  eol : Bool
  deriving DecidableEq, Repr

/-- `w` starts with a word of `L`, and that word is all of `w` when `eol`. -/
def PrefixIn (L : Language α) (eol : Bool) (w : List α) : Prop :=
  ∃ u r, w = u ++ r ∧ u ∈ L ∧ (eol = true → r = [])

/-- The pattern has a match in `w`: a word of its pieces' language starts at offset `i`
of `w`, where `i` is `0` when the pattern is anchored at the start and any offset up to
the length of `w` otherwise, and ends at the end of `w` when it is anchored there. -/
def Pat.Matches (p : Pat α) (w : List α) : Prop :=
  ∃ i, (p.bol = true → i = 0) ∧ i ≤ w.length ∧ PrefixIn (piecesLang p.pieces) p.eol (w.drop i)

/-! ## The equations of the language, one per kind of piece -/

theorem mem_atom_mul {a : Atom α} {L : Language α} {u : List α} :
    u ∈ a.lang * L ↔ ∃ x u', u = x :: u' ∧ a.Accepts x ∧ u' ∈ L := by
  rw [Language.mem_mul]
  constructor
  · rintro ⟨_, hmem, u', hu', rfl⟩
    obtain ⟨x, rfl, hx⟩ := Atom.mem_lang.1 hmem
    exact ⟨x, u', rfl, hx, hu'⟩
  · rintro ⟨x, u', rfl, hx, hu'⟩
    exact ⟨[x], Atom.mem_lang.2 ⟨x, rfl, hx⟩, u', hu', rfl⟩

theorem prefixIn_one {eol : Bool} {w : List α} :
    PrefixIn (1 : Language α) eol w ↔ (eol = true → w = []) := by
  constructor
  · rintro ⟨u, r, rfl, hu, hr⟩ he
    rw [Language.mem_one] at hu
    rw [hu, hr he, List.nil_append]
  · intro h
    exact ⟨[], w, rfl, (Language.mem_one _).2 rfl, h⟩

theorem prefixIn_add {L M : Language α} {eol : Bool} {w : List α} :
    PrefixIn (L + M) eol w ↔ PrefixIn L eol w ∨ PrefixIn M eol w := by
  simp only [PrefixIn, Language.mem_add]
  constructor
  · rintro ⟨u, r, hw, hu | hu, hr⟩
    · exact .inl ⟨u, r, hw, hu, hr⟩
    · exact .inr ⟨u, r, hw, hu, hr⟩
  · rintro (⟨u, r, hw, hu, hr⟩ | ⟨u, r, hw, hu, hr⟩)
    · exact ⟨u, r, hw, .inl hu, hr⟩
    · exact ⟨u, r, hw, .inr hu, hr⟩

theorem prefixIn_atom_mul {a : Atom α} {L : Language α} {eol : Bool} {w : List α} :
    PrefixIn (a.lang * L) eol w ↔ ∃ x w', w = x :: w' ∧ a.Accepts x ∧ PrefixIn L eol w' := by
  simp only [PrefixIn, mem_atom_mul]
  constructor
  · rintro ⟨_, r, rfl, ⟨x, u', rfl, hx, hu'⟩, hr⟩
    exact ⟨x, u' ++ r, rfl, hx, u', r, rfl, hu', hr⟩
  · rintro ⟨x, _, rfl, hx, u', r, rfl, hu', hr⟩
    exact ⟨x :: u', r, rfl, ⟨x, u', rfl, hx, hu'⟩, hr⟩

/-- A starred language in front of `L` either is skipped or takes one more word of its
own: Mathlib's `1 + l * l∗ = l∗`, multiplied by `L`. -/
theorem prefixIn_kstar_mul {A L : Language α} {eol : Bool} {w : List α} :
    PrefixIn (A∗ * L) eol w ↔ PrefixIn L eol w ∨ PrefixIn (A * (A∗ * L)) eol w := by
  have hunfold : A∗ * L = L + A * (A∗ * L) := by
    calc A∗ * L = (1 + A * A∗) * L := by rw [Language.one_add_self_mul_kstar_eq_kstar]
      _ = L + A * (A∗ * L) := by rw [add_mul, one_mul, mul_assoc]
  rw [← prefixIn_add, ← hunfold]

theorem prefixIn_pieces_one {a : Atom α} {ps : List (Piece α)} {eol : Bool} {w : List α} :
    PrefixIn (piecesLang (.one a :: ps)) eol w ↔
      ∃ x w', w = x :: w' ∧ a.Accepts x ∧ PrefixIn (piecesLang ps) eol w' := by
  rw [piecesLang_cons, Piece.lang, prefixIn_atom_mul]

theorem prefixIn_pieces_star {a : Atom α} {ps : List (Piece α)} {eol : Bool} {w : List α} :
    PrefixIn (piecesLang (.star a :: ps)) eol w ↔ PrefixIn (piecesLang ps) eol w ∨
      ∃ x w', w = x :: w' ∧ a.Accepts x ∧ PrefixIn (piecesLang (.star a :: ps)) eol w' := by
  rw [piecesLang_cons, Piece.lang, prefixIn_kstar_mul, prefixIn_atom_mul]

/-! ## Start offsets -/

/-- A match that may start at any offset starts at offset `0` or in the tail. -/
theorem exists_drop_cons {P : List α → Prop} {x : α} {w : List α} :
    (∃ i, i ≤ (x :: w).length ∧ P ((x :: w).drop i)) ↔
      P (x :: w) ∨ ∃ i, i ≤ w.length ∧ P (w.drop i) := by
  constructor
  · rintro ⟨i, hi, hP⟩
    cases i with
    | zero => exact .inl hP
    | succ i => exact .inr ⟨i, by simpa using hi, hP⟩
  · rintro (hP | ⟨i, hi, hP⟩)
    · exact ⟨0, Nat.zero_le _, hP⟩
    · exact ⟨i + 1, by simpa using hi, hP⟩

theorem Pat.matches_of_bol {p : Pat α} {w : List α} (h : p.bol = true) :
    p.Matches w ↔ PrefixIn (piecesLang p.pieces) p.eol w := by
  constructor
  · rintro ⟨i, hi, -, hP⟩
    rwa [hi h, List.drop_zero] at hP
  · intro hP
    exact ⟨0, fun _ => rfl, Nat.zero_le _, hP⟩

theorem Pat.matches_of_not_bol {p : Pat α} {w : List α} (h : p.bol = false) :
    p.Matches w ↔ ∃ i, i ≤ w.length ∧ PrefixIn (piecesLang p.pieces) p.eol (w.drop i) := by
  simp [Pat.Matches, h]

/-! ## The search over suffixes -/

/-- The search loop of a backtracking matcher, as a C do-while: try `here` at the word;
when it fails, and the word has a first symbol that `more` accepts, try again after it. -/
def scan (here : List α → Option Bool) (more : α → Bool) : List α → Option Bool
  | [] => do
      let found ← here []
      if found = true then pure true else pure false
  | x :: w => do
      let found ← here (x :: w)
      if found = true then pure true
      else if more x = true then scan here more w else pure false

section Scan

variable {here : List α → Option Bool} {more : α → Bool} {P Q : List α → Prop}

/-- The rule for the search loop: `scan here more` decides `Q` at `w` when `here` decides
`P` at every suffix of `w` and `Q` unfolds along those suffixes as the loop walks them. -/
theorem scan_decides (w : List α) (hhere : ∀ v, v <:+ w → Decides (here v) (P v))
    (hnil : Q [] ↔ P [])
    (hcons : ∀ x v, x :: v <:+ w → (Q (x :: v) ↔ P (x :: v) ∨ (more x = true ∧ Q v))) :
    Decides (scan here more w) (Q w) := by
  -- induction on the suffix still to search; the hypotheses pass to the tail
  induction w with
  | nil =>
    rw [scan]
    have hstop : ¬P [] → Decides (pure false) False := fun _ => Decides.some (by simp)
    exact ((hhere [] (List.suffix_refl _)).bind_or hstop).congr (by rw [or_false, hnil])
  | cons x w ih =>
    rw [scan]
    have htail : w <:+ x :: w := List.suffix_cons x w
    refine ((hhere _ (List.suffix_refl _)).bind_or fun _ => ?_).congr (hcons x w (List.suffix_refl _)).symm
    by_cases hm : more x = true
    · rw [if_pos hm]
      refine (ih (fun v hv => hhere v (hv.trans htail))
        (fun y v hv => hcons y v (hv.trans htail))).congr ?_
      simp [hm]
    · rw [if_neg hm]
      exact Decides.some (by simp [hm])

end Scan

end Regex
