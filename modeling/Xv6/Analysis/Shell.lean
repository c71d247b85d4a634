import Xv6.Model.Shell
import Xv6.Lib.Run

/-!
# The shell's parser terminates and records whole words

For every command line, `parsecmd` either panics with one of the messages of sh.c or
returns a command whose strings are whole words of the line: runs of bytes that are
neither whitespace nor symbols, that whitespace, a symbol or the end follows.  After
`nulterminate` the C string at each of them is exactly that word.

`Sound s t toks r` is what every parsing function gives on a suffix `t` of the string `s`:
a panic of the shell, or a suffix of `t` and tokens that are words of `s`.  Each loop keeps
it by induction on its passes; the four mutually recursive functions keep it together, by
one induction on the fuel, given four passes of fuel for each byte left (`ParseSound`).
So the fuel of `parsecmd` never runs out.
-/

set_option autoImplicit false

namespace Xv6

namespace Shell

open Run

/-! ## Bytes, words and the scanning loops -/

theorem hasChar_iff {s : List UInt8} (h : 0 ∉ s) (c : UInt8) : hasChar s c = true ↔ c ∈ s := by
  induction s with
  | nil => simp [hasChar, Grep.strchr]
  | cons x s ih =>
    have hx : x ≠ 0 := (List.ne_of_not_mem_cons h).symm
    by_cases hxc : x = c
    · subst hxc
      simp [hasChar, Grep.strchr, hx]
    · rw [hasChar, Grep.strchr, if_neg hx, if_neg hxc, Option.isSome_map, ← hasChar,
        ih (List.not_mem_of_not_mem_cons h), List.mem_cons]
      exact ⟨Or.inr, fun h' => h'.resolve_left (Ne.symm hxc)⟩

theorem hasChar_whitespace (c : UInt8) : hasChar whitespace c = true ↔ c ∈ whitespace :=
  hasChar_iff (by decide) c

theorem hasChar_symbols (c : UInt8) : hasChar symbols c = true ↔ c ∈ symbols :=
  hasChar_iff (by decide) c

/-- A byte of a word: not the `NUL`, not whitespace, not a symbol. -/
def IsWordByte (c : UInt8) : Prop := c ≠ 0 ∧ c ∉ whitespace ∧ c ∉ symbols

/-- A byte that ends a word: whitespace or a symbol. -/
def EndsWord (c : UInt8) : Prop := c ∈ whitespace ∨ c ∈ symbols

/-- A word: a nonempty run of word bytes. -/
def IsWord (w : List UInt8) : Prop := w ≠ [] ∧ ∀ c ∈ w, IsWordByte c

instance : DecidablePred IsWordByte := fun c =>
  inferInstanceAs (Decidable (c ≠ 0 ∧ c ∉ whitespace ∧ c ∉ symbols))

instance : DecidablePred IsWord := fun w =>
  inferInstanceAs (Decidable (w ≠ [] ∧ ∀ c ∈ w, IsWordByte c))

/-- The offsets `(q, eq)` of a word of `s` that whitespace, a symbol or the end follows. -/
def Located (s : List UInt8) (tok : Nat × Nat) : Prop :=
  ∃ w r, s.drop tok.1 = w ++ r ∧ tok.2 = tok.1 + w.length ∧ IsWord w ∧ ∀ c ∈ r.head?, EndsWord c

/-- The test of the loop of `skipWord`. -/
def wordByte (c : UInt8) : Bool := !hasChar whitespace c && !hasChar symbols c

theorem skipWord_eq (t : List UInt8) : skipWord t = t.dropWhile wordByte := rfl

theorem wordByte_iff (c : UInt8) : wordByte c = true ↔ c ∉ whitespace ∧ c ∉ symbols := by
  simp [wordByte, ← hasChar_whitespace, ← hasChar_symbols]

theorem skipWhitespace_suffix (t : List UInt8) : skipWhitespace t <:+ t := List.dropWhile_suffix _

theorem skipWhitespace_idem (t : List UInt8) : skipWhitespace (skipWhitespace t) = skipWhitespace t :=
  List.dropWhile_idempotent _ t

theorem skipWhitespace_cons {c : UInt8} (hc : c ∉ whitespace) (u : List UInt8) :
    skipWhitespace (c :: u) = c :: u :=
  List.dropWhile_cons_of_neg fun h => hc ((hasChar_whitespace c).1 h)

/-- The loop stops at a byte that is not whitespace, or at the end. -/
theorem head_skipWhitespace (t : List UInt8) : ∀ c ∈ (skipWhitespace t).head?, c ∉ whitespace := by
  intro c hc
  have hd := List.head?_dropWhile_not (hasChar whitespace) t
  rw [show (t.dropWhile (hasChar whitespace)).head? = some c from hc] at hd
  dsimp only at hd
  exact fun hw => by rw [(hasChar_whitespace c).2 hw] at hd; exact Bool.noConfusion hd

/-- INTERNAL: the suffix at `es - t.length` of a string of length `es` is `t`. -/
theorem drop_of_suffix {s t : List UInt8} (h : t <:+ s) : s.drop (s.length - t.length) = t :=
  (List.suffix_iff_eq_drop.1 h).symm

/-! ## One token -/

theorem gettokenSwitch_suffix (s : List UInt8) : (gettokenSwitch s).2 <:+ s := by
  cases s with
  | nil => exact List.suffix_refl _
  | cons c u =>
    rw [gettokenSwitch]
    split_ifs
    · exact List.suffix_refl _
    · exact List.suffix_cons c u
    · exact (List.drop_suffix 1 u).trans (List.suffix_cons c u)
    · exact List.suffix_cons c u
    · exact List.dropWhile_suffix _

/-- A token other than the end consumes a byte at least, once the whitespace is skipped. -/
theorem gettokenSwitch_lt {s : List UInt8} (hs : ∀ c ∈ s.head?, c ∉ whitespace)
    (h : (gettokenSwitch s).1 ≠ 0) : (gettokenSwitch s).2.length < s.length := by
  cases s with
  | nil => exact absurd rfl h
  | cons c u =>
    have hws : c ∉ whitespace := hs c rfl
    rw [gettokenSwitch] at h ⊢
    split_ifs at h ⊢ with h0 hsym hgt
    · exact absurd rfl h
    · simp
    · simp
    · simp
    · -- a word: its first byte is neither whitespace nor a symbol
      have hsy : c ∉ symbols := fun hc => by simp_all [symbols]
      rw [skipWord, List.dropWhile_cons_of_pos (by
        simp [(hasChar_whitespace c).not.2 hws, (hasChar_symbols c).not.2 hsy])]
      exact Nat.lt_succ_of_le (List.dropWhile_suffix _).length_le

theorem gettokenSwitch_ne_zero {s : List UInt8} (h : s.headD 0 ≠ 0) : (gettokenSwitch s).1 ≠ 0 := by
  cases s with
  | nil => exact absurd rfl h
  | cons c u =>
    have hc : c ≠ 0 := h
    rw [gettokenSwitch]
    split_ifs <;> simp_all

/-- The token is a word when its first byte is neither the `NUL` nor a symbol. -/
theorem gettokenSwitch_word {s : List UInt8} (h : (gettokenSwitch s).1 = 97) :
    ∃ c u, s = c :: u ∧ c ∉ symbols ∧ (gettokenSwitch s).2 = skipWord s := by
  cases s with
  | nil => exact absurd h (by decide)
  | cons c u =>
    rw [gettokenSwitch] at h ⊢
    split_ifs at h ⊢ with h0 hsym hgt hgt'
    · simp at h
    · subst h
      exact absurd hsym (by decide)
    · simp at h
    · simp at h
    · exact ⟨c, u, rfl, fun hc => by simp_all [symbols], rfl⟩

theorem gettoken_eq (es : Nat) (t : List UInt8) :
    gettoken es t = ((gettokenSwitch (skipWhitespace t)).1, es - (skipWhitespace t).length,
      es - (gettokenSwitch (skipWhitespace t)).2.length,
      skipWhitespace (gettokenSwitch (skipWhitespace t)).2) := rfl

theorem peek_eq (t toks : List UInt8) :
    peek t toks = ((skipWhitespace t).headD 0 != 0 && hasChar toks ((skipWhitespace t).headD 0),
      skipWhitespace t) := rfl

section Token

variable {es : Nat} {t t' : List UInt8} {tok : UInt8} {q eq : Nat}

theorem gettoken_suffix (hg : gettoken es t = (tok, q, eq, t')) : t' <:+ t := by
  rw [gettoken_eq, Prod.mk.injEq, Prod.mk.injEq, Prod.mk.injEq] at hg
  rw [← hg.2.2.2]
  exact ((skipWhitespace_suffix _).trans (gettokenSwitch_suffix _)).trans (skipWhitespace_suffix t)

/-- A token other than the end consumes a byte at least. -/
theorem gettoken_lt (hg : gettoken es t = (tok, q, eq, t')) (h : tok ≠ 0) : t'.length < t.length := by
  rw [gettoken_eq, Prod.mk.injEq, Prod.mk.injEq, Prod.mk.injEq] at hg
  obtain ⟨htok, -, -, rfl⟩ := hg
  calc (skipWhitespace (gettokenSwitch (skipWhitespace t)).2).length
      ≤ (gettokenSwitch (skipWhitespace t)).2.length := (skipWhitespace_suffix _).length_le
    _ < (skipWhitespace t).length := gettokenSwitch_lt (head_skipWhitespace t) (htok ▸ h)
    _ ≤ t.length := (skipWhitespace_suffix t).length_le

/-- A word token of a suffix of `s` is a word of `s` at the offsets `gettoken` sets. -/
theorem gettoken_located {s : List UInt8} (hs : t <:+ s) (h0 : 0 ∉ s)
    (hg : gettoken s.length t = (97, q, eq, t')) : Located s (q, eq) := by
  rw [gettoken_eq, Prod.mk.injEq, Prod.mk.injEq, Prod.mk.injEq] at hg
  obtain ⟨hret, rfl, rfl, -⟩ := hg
  obtain ⟨c, u, hcu, hsym, hword⟩ := gettokenSwitch_word hret
  have hws : c ∉ whitespace := head_skipWhitespace t c (by rw [hcu]; rfl)
  have hsuf : c :: u <:+ s := hcu ▸ (skipWhitespace_suffix t).trans hs
  -- the word runs while `skipWord` does
  have hp : wordByte c = true := (wordByte_iff c).2 ⟨hws, hsym⟩
  rw [skipWord_eq] at hword
  refine ⟨(c :: u).takeWhile wordByte, (c :: u).dropWhile wordByte, ?_, ?_, ⟨?_, fun x hx => ?_⟩,
    fun x hx => ?_⟩
  · rw [hcu, drop_of_suffix hsuf, List.takeWhile_append_dropWhile]
  · have hlen := congrArg List.length (List.takeWhile_append_dropWhile (p := wordByte) (l := c :: u))
    have hle := hsuf.length_le
    rw [List.length_append] at hlen
    dsimp only
    rw [hword, hcu]
    omega
  · rw [List.takeWhile_cons_of_pos hp]
    exact List.cons_ne_nil _ _
  · obtain ⟨hw, hy⟩ := (wordByte_iff x).1 (List.mem_takeWhile_imp hx)
    refine ⟨fun hx0 => h0 ?_, hw, hy⟩
    exact hsuf.subset (List.takeWhile_sublist _ |>.subset (hx0 ▸ hx))
  · have hd := List.head?_dropWhile_not wordByte (c :: u)
    rw [show ((c :: u).dropWhile wordByte).head? = some x from hx] at hd
    dsimp only at hd
    by_contra hend
    simp only [EndsWord, not_or] at hend
    rw [(wordByte_iff x).2 hend] at hd
    exact Bool.noConfusion hd

end Token

section Peek

variable {t t' toks : List UInt8} {b : Bool}

theorem peek_suffix (hp : peek t toks = (b, t')) : t' <:+ t := by
  rw [peek_eq, Prod.mk.injEq] at hp
  exact hp.2 ▸ skipWhitespace_suffix t

theorem peek_peek (hp : peek t toks = (b, t')) (toks' : List UInt8) : peek t' toks' = peek t toks' := by
  rw [peek_eq, Prod.mk.injEq] at hp
  rw [← hp.2, peek_eq, peek_eq t, skipWhitespace_idem]

/-- After a `peek` that found one of its bytes, `gettoken` consumes a byte at least. -/
theorem gettoken_lt_of_peek (hp : peek t toks = (true, t')) {es : Nat} {tok : UInt8} {q eq : Nat}
    {t'' : List UInt8} (hg : gettoken es t' = (tok, q, eq, t'')) : t''.length < t.length := by
  have ht' := peek_suffix hp
  rw [peek_eq, Prod.mk.injEq] at hp
  obtain ⟨hb, rfl⟩ := hp
  have hne : (skipWhitespace t).headD 0 ≠ 0 := by
    intro h
    rw [h] at hb
    simp at hb
  have htok : tok ≠ 0 := by
    rw [gettoken_eq, skipWhitespace_idem, Prod.mk.injEq] at hg
    exact hg.1 ▸ gettokenSwitch_ne_zero hne
  exact lt_of_lt_of_le (gettoken_lt hg htok) ht'.length_le

end Peek

/-! ## What every parsing function gives -/

/-- The messages `panic` prints on a command line the shell refuses (sh.c:353, 398, 424, 450,
455). -/
def Panic (e : String) : Prop :=
  e = "syntax" ∨ e = "missing file for redirection" ∨ e = "syntax - missing )" ∨
    e = "too many args"

/-- A parse of the text `t` within the string `s`: it fails only with a panic of the shell, and
what it returns leaves a suffix of `t` and records words of `s` (the tokens `toks`). -/
def Sound {α : Type} (s t : List UInt8) (toks : α → List (Nat × Nat)) :
    Except String (α × List UInt8) → Prop
  | .error e => Panic e
  | .ok (a, t') => t' <:+ t ∧ ∀ tok ∈ toks a, Located s tok

section Sound

variable {α β : Type} {s t : List UInt8}

theorem Sound.mono {toks : α → List (Nat × Nat)} {r : Except String (α × List UInt8)}
    (h : Sound s t toks r) {t₀ : List UInt8} (ht : t <:+ t₀) : Sound s t₀ toks r := by
  rcases r with e | ⟨a, t'⟩
  · exact h
  · exact ⟨h.1.trans ht, h.2⟩

theorem sound_pure {toks : α → List (Nat × Nat)} {a : α} {t' : List UInt8} (ht : t' <:+ t)
    (ha : ∀ tok ∈ toks a, Located s tok) : Sound s t toks (pure (a, t')) := ⟨ht, ha⟩

theorem sound_throw {toks : α → List (Nat × Nat)} {e : String} (he : Panic e) :
    Sound s t toks (throw e) := he

/-- The rule for a `do` step: a sound first parse of `t₁`, and a sound rest from what it
returns. -/
theorem Sound.bind {t₁ : List UInt8} {toks₁ : α → List (Nat × Nat)} {toks₂ : β → List (Nat × Nat)}
    {x : Except String (α × List UInt8)} {f : α × List UInt8 → Except String (β × List UInt8)}
    (hx : Sound s t₁ toks₁ x)
    (hf : ∀ a t', t' <:+ t₁ → (∀ tok ∈ toks₁ a, Located s tok) → Sound s t toks₂ (f (a, t'))) :
    Sound s t toks₂ (x >>= f) := by
  rcases x with e | ⟨a, t'⟩
  · exact hx
  · exact hf a t' hx.1 hx.2

end Sound

/-! ## The tokens of a command, and the loops -/

/-- The offsets of the file name of a redirection. -/
def Redir.token (r : Redir) : Nat × Nat := (r.file, r.efile)

/-- The strings of a command, as `(q, eq)`: the words of its `execcmd`s and the files of its
`redircmd`s. -/
def Cmd.tokens : Cmd → List (Nat × Nat)
  | .exec argv => argv
  | .redir cmd r => cmd.tokens ++ [r.token]
  | .pipe left right => left.tokens ++ right.tokens
  | .list left right => left.tokens ++ right.tokens
  | .back cmd => cmd.tokens

theorem tokens_wrap (cmd : Cmd) (rs : List Redir) :
    (wrap cmd rs).tokens = cmd.tokens ++ rs.map Redir.token := by
  induction rs generalizing cmd with
  | nil => simp [wrap]
  | cons r rs ih =>
    rw [wrap, List.foldl_cons, ← wrap, ih]
    simp [Cmd.tokens]

section Loops

variable {s : List UInt8} (h0 : 0 ∉ s)

include h0

theorem parseredirs_sound (fuel : Nat) : ∀ (rs : List Redir) (t : List UInt8), t <:+ s →
    t.length + 1 ≤ fuel → (∀ r ∈ rs, Located s r.token) →
    Sound s t (fun rs => rs.map Redir.token) (parseredirs s.length fuel rs t) := by
  -- induction on the passes; each consumes a `<` or `>` at least
  induction fuel with
  | zero => intro _ _ _ hf; omega
  | succ fuel ih =>
    intro rs t ht hf hrs
    rw [parseredirs]
    rcases hp : peek t [60, 62] with ⟨_ | _, t₁⟩
    · exact sound_pure (peek_suffix hp) (by simpa using hrs)
    · dsimp only
      rw [if_pos rfl]
      rcases hg₁ : gettoken s.length t₁ with ⟨tok, q₁, eq₁, t₂⟩
      dsimp only
      rcases hg₂ : gettoken s.length t₂ with ⟨ret, q, eq, t₃⟩
      dsimp only
      by_cases hret : ret = 97
      · have hsuf : t₃ <:+ t := (gettoken_suffix hg₂).trans ((gettoken_suffix hg₁).trans (peek_suffix hp))
        have hlt := gettoken_lt_of_peek hp hg₁
        have hloc : Located s (q, eq) :=
          gettoken_located (((gettoken_suffix hg₁).trans (peek_suffix hp)).trans ht) h0 (hret ▸ hg₂)
        have hle := (gettoken_suffix hg₂).length_le
        rw [if_neg (not_not.2 hret)]
        -- the `switch(tok)`: each case appends the redirection, or none
        split_ifs
        all_goals refine (ih _ t₃ (hsuf.trans ht) (by omega) ?_).mono hsuf
        · exact List.forall_mem_append.2 ⟨hrs, List.forall_mem_singleton.2 hloc⟩
        · exact List.forall_mem_append.2 ⟨hrs, List.forall_mem_singleton.2 hloc⟩
        · exact hrs
      · rw [if_pos hret]
        exact sound_throw (Or.inr (Or.inl rfl))

omit h0 in
theorem parselineBacks_sound (fuel : Nat) : ∀ (cmd : Cmd) (t : List UInt8), t <:+ s →
    t.length + 1 ≤ fuel → (∀ tok ∈ cmd.tokens, Located s tok) →
    Sound s t Cmd.tokens (parselineBacks s.length fuel cmd t) := by
  -- induction on the passes; each consumes an `&`
  induction fuel with
  | zero => intro _ _ _ hf; omega
  | succ fuel ih =>
    intro cmd t ht hf hcmd
    rw [parselineBacks]
    rcases hp : peek t [38] with ⟨_ | _, t₁⟩
    · exact sound_pure (peek_suffix hp) hcmd
    · dsimp only
      rw [if_pos rfl]
      rcases hg : gettoken s.length t₁ with ⟨tok, q, eq, t₂⟩
      dsimp only
      have hsuf : t₂ <:+ t := (gettoken_suffix hg).trans (peek_suffix hp)
      have hlt := gettoken_lt_of_peek hp hg
      exact (ih (.back cmd) t₂ (hsuf.trans ht) (by omega) hcmd).mono hsuf

theorem parseexecLoop_sound (fuel : Nat) : ∀ (argv : List (Nat × Nat)) (rs : List Redir)
    (t : List UInt8), t <:+ s → t.length + 1 ≤ fuel → (∀ tok ∈ argv, Located s tok) →
    (∀ r ∈ rs, Located s r.token) →
    Sound s t (fun a => a.1 ++ a.2.map Redir.token) (parseexecLoop s.length fuel argv rs t) := by
  -- induction on the passes; each consumes a word
  induction fuel with
  | zero => intro _ _ _ _ hf; omega
  | succ fuel ih =>
    intro argv rs t ht hf hargv hrs
    rw [parseexecLoop]
    rcases hp : peek t [124, 41, 38, 59] with ⟨_ | _, t₁⟩
    · dsimp only
      rw [if_neg Bool.false_ne_true]
      rcases hg : gettoken s.length t₁ with ⟨tok, q, eq, t₂⟩
      dsimp only
      have hsuf : t₂ <:+ t := (gettoken_suffix hg).trans (peek_suffix hp)
      by_cases hend : tok = 0
      · rw [if_pos hend]
        exact sound_pure hsuf (List.forall_mem_append.2 ⟨hargv, List.forall_mem_map.2 hrs⟩)
      rw [if_neg hend]
      by_cases hword : tok = 97
      · rw [if_neg (not_not.2 hword)]
        have hloc : Located s (q, eq) := gettoken_located ((peek_suffix hp).trans ht) h0 (hword ▸ hg)
        have hlt : t₂.length < t₁.length := gettoken_lt hg hend
        have hle := (peek_suffix hp).length_le
        split_ifs
        · exact sound_throw (Or.inr (Or.inr (Or.inr rfl)))
        · refine Sound.bind (parseredirs_sound h0 fuel rs t₂ (hsuf.trans ht) (by omega) hrs)
            fun rs' t₃ ht₃ hrs' => ?_
          have hle₃ := ht₃.length_le
          refine (ih _ rs' t₃ ((ht₃.trans hsuf).trans ht) (by omega)
            (List.forall_mem_append.2 ⟨hargv, List.forall_mem_singleton.2 hloc⟩) ?_).mono
            (ht₃.trans hsuf)
          exact List.forall_mem_map.1 hrs'
      · rw [if_pos hword]
        exact sound_throw (Or.inl rfl)
    · dsimp only
      rw [if_pos rfl]
      exact sound_pure (peek_suffix hp) (List.forall_mem_append.2 ⟨hargv, List.forall_mem_map.2 hrs⟩)

end Loops

/-! ## The recursive descent -/

/-- The four parsing functions at `fuel` are sound on every suffix of `s` they have fuel
enough for: four passes for each byte left, less one for each level under `parseline`. -/
def ParseSound (s : List UInt8) (fuel : Nat) : Prop :=
  ∀ t, t <:+ s →
    (4 * t.length + 4 ≤ fuel → Sound s t Cmd.tokens (parseline s.length fuel t)) ∧
    (4 * t.length + 3 ≤ fuel → Sound s t Cmd.tokens (parsepipe s.length fuel t)) ∧
    (4 * t.length + 2 ≤ fuel → Sound s t Cmd.tokens (parseexec s.length fuel t)) ∧
    (4 * t.length + 1 ≤ fuel → (peek t [40]).1 = true →
      Sound s t Cmd.tokens (parseblock s.length fuel t))

section Descent

variable {s : List UInt8} (h0 : 0 ∉ s) {fuel : Nat} (ih : ParseSound s fuel)

include ih

omit h0 in
theorem parseline_sound_succ (t : List UInt8) (ht : t <:+ s) (hf : 4 * t.length + 4 ≤ fuel + 1) :
    Sound s t Cmd.tokens (parseline s.length (fuel + 1) t) := by
  rw [parseline]
  refine Sound.bind ((ih t ht).2.1 (by omega)) fun cmd t₁ ht₁ hcmd => ?_
  have hle₁ := ht₁.length_le
  refine Sound.bind (parselineBacks_sound fuel cmd t₁ (ht₁.trans ht) (by omega) hcmd)
    fun cmd₂ t₂ ht₂ hcmd₂ => ?_
  have hle₂ := ht₂.length_le
  dsimp only
  rcases hp : peek t₂ [59] with ⟨_ | _, t₃⟩
  · exact sound_pure ((peek_suffix hp).trans (ht₂.trans ht₁)) hcmd₂
  · -- `;`: the rest of the line is the right of a `listcmd`
    dsimp only
    rw [if_pos rfl]
    rcases hg : gettoken s.length t₃ with ⟨tok, q, eq, t₄⟩
    dsimp only
    have hsuf : t₄ <:+ t := ((gettoken_suffix hg).trans (peek_suffix hp)).trans (ht₂.trans ht₁)
    have hlt := gettoken_lt_of_peek hp hg
    refine Sound.bind ((ih t₄ (hsuf.trans ht)).1 (by omega)) fun right t₅ ht₅ hright => ?_
    exact sound_pure (ht₅.trans hsuf) (List.forall_mem_append.2 ⟨hcmd₂, hright⟩)

omit h0 in
theorem parsepipe_sound_succ (t : List UInt8) (ht : t <:+ s) (hf : 4 * t.length + 3 ≤ fuel + 1) :
    Sound s t Cmd.tokens (parsepipe s.length (fuel + 1) t) := by
  rw [parsepipe]
  refine Sound.bind ((ih t ht).2.2.1 (by omega)) fun cmd t₁ ht₁ hcmd => ?_
  have hle₁ := ht₁.length_le
  dsimp only
  rcases hp : peek t₁ [124] with ⟨_ | _, t₂⟩
  · exact sound_pure ((peek_suffix hp).trans ht₁) hcmd
  · -- `|`: the rest of the pipeline is the right of a `pipecmd`
    dsimp only
    rw [if_pos rfl]
    rcases hg : gettoken s.length t₂ with ⟨tok, q, eq, t₃⟩
    dsimp only
    have hsuf : t₃ <:+ t := ((gettoken_suffix hg).trans (peek_suffix hp)).trans ht₁
    have hlt := gettoken_lt_of_peek hp hg
    refine Sound.bind ((ih t₃ (hsuf.trans ht)).2.1 (by omega)) fun right t₄ ht₄ hright => ?_
    exact sound_pure (ht₄.trans hsuf) (List.forall_mem_append.2 ⟨hcmd, hright⟩)

include h0

theorem parseblock_sound_succ (t : List UInt8) (ht : t <:+ s) (hf : 4 * t.length + 1 ≤ fuel + 1)
    (hlp : (peek t [40]).1 = true) : Sound s t Cmd.tokens (parseblock s.length (fuel + 1) t) := by
  rw [parseblock]
  rcases hp : peek t [40] with ⟨_ | _, t₁⟩
  · rw [hp] at hlp
    exact absurd hlp Bool.false_ne_true
  dsimp only
  rw [if_neg (show ¬((!true) = true) from Bool.false_ne_true)]
  rcases hg : gettoken s.length t₁ with ⟨tok, q, eq, t₂⟩
  dsimp only
  have hsuf₂ : t₂ <:+ t := (gettoken_suffix hg).trans (peek_suffix hp)
  have hlt := gettoken_lt_of_peek hp hg
  refine Sound.bind ((ih t₂ (hsuf₂.trans ht)).1 (by omega)) fun cmd t₃ ht₃ hcmd => ?_
  dsimp only
  rcases hp' : peek t₃ [41] with ⟨_ | _, t₄⟩
  · dsimp only
    rw [if_pos (show (!false) = true from rfl)]
    exact sound_throw (Or.inr (Or.inr (Or.inl rfl)))
  · -- the `)`, then the redirections of the block
    dsimp only
    rw [if_neg (show ¬((!true) = true) from Bool.false_ne_true)]
    rcases hg' : gettoken s.length t₄ with ⟨tok', q', eq', t₅⟩
    dsimp only
    have hsuf₅ : t₅ <:+ t := ((gettoken_suffix hg').trans (peek_suffix hp')).trans (ht₃.trans hsuf₂)
    have hle := hsuf₅.length_le
    refine Sound.bind (parseredirs_sound h0 fuel [] t₅ (hsuf₅.trans ht) (by omega) (by simp))
      fun rs t₆ ht₆ hrs => ?_
    refine sound_pure (ht₆.trans hsuf₅) ?_
    rw [tokens_wrap]
    exact List.forall_mem_append.2 ⟨hcmd, hrs⟩

theorem parseexec_sound_succ (t : List UInt8) (ht : t <:+ s) (hf : 4 * t.length + 2 ≤ fuel + 1) :
    Sound s t Cmd.tokens (parseexec s.length (fuel + 1) t) := by
  rw [parseexec]
  have hle := ht.length_le
  rcases hp : peek t [40] with ⟨_ | _, t₁⟩
  · -- a command: its redirections and words
    dsimp only
    rw [if_neg Bool.false_ne_true]
    have hsuf₁ := peek_suffix hp
    have hle₁ := hsuf₁.length_le
    refine Sound.bind (parseredirs_sound h0 fuel [] t₁ (hsuf₁.trans ht) (by omega) (by simp))
      fun rs t₂ ht₂ hrs => ?_
    have hle₂ := ht₂.length_le
    refine Sound.bind (parseexecLoop_sound h0 fuel [] rs t₂ ((ht₂.trans hsuf₁).trans ht) (by omega)
      (by simp) (List.forall_mem_map.1 hrs)) fun a t₃ ht₃ ha => ?_
    obtain ⟨argv, rs'⟩ := a
    refine sound_pure (ht₃.trans (ht₂.trans hsuf₁)) ?_
    rw [tokens_wrap]
    exact ha
  · -- a block
    dsimp only
    rw [if_pos rfl]
    have hsuf := peek_suffix hp
    have hle₁ := hsuf.length_le
    exact ((ih t₁ (hsuf.trans ht)).2.2.2 (by omega) (by rw [peek_peek hp, hp])).mono hsuf

end Descent

/-- The recursive descent is sound at every fuel. -/
theorem parseSound {s : List UInt8} (h0 : 0 ∉ s) (fuel : Nat) : ParseSound s fuel := by
  -- induction on the fuel; each function is sound from the four one pass below
  induction fuel with
  | zero =>
    intro t _
    exact ⟨fun hf => by omega, fun hf => by omega, fun hf => by omega, fun hf => by omega⟩
  | succ fuel ih =>
    intro t ht
    exact ⟨parseline_sound_succ ih t ht, parsepipe_sound_succ ih t ht,
      parseexec_sound_succ h0 ih t ht, parseblock_sound_succ h0 ih t ht⟩

/-! ## `nulterminate` and the strings `runcmd` reads -/

/-- The C string at the offset `p` of the buffer `m`. -/
def cstr (m : List UInt8) (p : Nat) : List UInt8 := (m.drop p).takeWhile (· ≠ 0)

/-- INTERNAL: `NUL`s written at the offsets `E`, one after the other. -/
def setZeros (E : List Nat) (m : List UInt8) : List UInt8 := E.foldl (fun m i => m.set i 0) m

/-- `nulterminate` writes a `NUL` at the end of each string of the command. -/
theorem nulterminate_eq (cmd : Cmd) (m : List UInt8) :
    nulterminate cmd m = setZeros (cmd.tokens.map Prod.snd) m := by
  induction cmd generalizing m with
  | exec argv => simp [nulterminate, setZeros, Cmd.tokens, List.foldl_map]
  | redir cmd r ih =>
    rw [nulterminate, ih]
    simp [setZeros, Cmd.tokens, List.foldl_append, Redir.token]
  | pipe l r ihl ihr =>
    rw [nulterminate, ihl, ihr]
    simp [setZeros, Cmd.tokens, List.foldl_append]
  | list l r ihl ihr =>
    rw [nulterminate, ihl, ihr]
    simp [setZeros, Cmd.tokens, List.foldl_append]
  | back cmd ih =>
    rw [nulterminate, ih]
    rfl

theorem getElem?_setZeros (E : List Nat) (m : List UInt8) (i : Nat) :
    (setZeros E m)[i]? = if i ∈ E ∧ i < m.length then some 0 else m[i]? := by
  induction E generalizing m with
  | nil => simp [setZeros]
  | cons e E ih =>
    rw [show setZeros (e :: E) m = setZeros E (m.set e 0) from rfl, ih, List.length_set,
      List.getElem?_set]
    by_cases he : e = i
    · subst he
      by_cases hlt : e < m.length
      · simp [hlt]
      · simp [hlt]
    · simp [he, Ne.symm he]

theorem not_endsWord {c : UInt8} (h : IsWordByte c) : ¬EndsWord c := by
  rintro (hw | hy)
  · exact h.2.1 hw
  · exact h.2.2 hy

section Located

variable {s : List UInt8} {tok : Nat × Nat}

/-- The bytes of a located word are word bytes. -/
theorem Located.getElem?_word (h : Located s tok) {i : Nat} (h₁ : tok.1 ≤ i) (h₂ : i < tok.2) :
    ∃ c, s[i]? = some c ∧ IsWordByte c := by
  obtain ⟨w, r, hs, he, hw, -⟩ := h
  have hj : i - tok.1 < w.length := by omega
  have hget : s[i]? = w[i - tok.1]? := by
    have happ : (w ++ r)[i - tok.1]? = w[i - tok.1]? := List.getElem?_append_left hj
    rw [← happ, ← hs, List.getElem?_drop]
    congr 1
    omega
  rw [List.getElem?_eq_getElem hj] at hget
  exact ⟨_, hget, hw.2 _ (List.getElem_mem hj)⟩

/-- The byte after a located word ends it. -/
theorem Located.getElem?_end (h : Located s tok) {c : UInt8} (hc : s[tok.2]? = some c) :
    EndsWord c := by
  obtain ⟨w, r, hs, he, -, hr⟩ := h
  have hget : s[tok.2]? = r.head? := by
    rw [he, ← List.getElem?_drop, hs, List.getElem?_append_right (le_refl _), Nat.sub_self,
      List.head?_eq_getElem?]
  exact hr c (hget ▸ hc)

/-- INTERNAL: a located word lies in the string. -/
theorem Located.end_le (h : Located s tok) : tok.2 ≤ s.length := by
  obtain ⟨w, r, hs, he, hw, -⟩ := h
  have hlen := congrArg List.length hs
  have hw0 : 0 < w.length := List.length_pos_iff.2 hw.1
  rw [List.length_drop, List.length_append] at hlen
  omega

/-- No string of located words ends inside another. -/
theorem Located.not_mem_ends (h : Located s tok) {toks : List (Nat × Nat)}
    (hl : ∀ tok ∈ toks, Located s tok) {i : Nat} (h₁ : tok.1 ≤ i) (h₂ : i < tok.2) :
    i ∉ toks.map Prod.snd := by
  intro hi
  obtain ⟨tok', htok', rfl⟩ := List.mem_map.1 hi
  obtain ⟨c, hc, hword⟩ := h.getElem?_word h₁ h₂
  exact not_endsWord hword ((hl tok' htok').getElem?_end hc)

end Located

/-- After `NUL`s at the ends of located words of the string of `buf`, the C string at each of
them is that word. -/
theorem cstr_setZeros {buf : List UInt8} {toks : List (Nat × Nat)}
    (hl : ∀ tok ∈ toks, Located (buf.takeWhile (· ≠ 0)) tok) {tok : Nat × Nat} (htok : tok ∈ toks) :
    cstr (setZeros (toks.map Prod.snd) buf) tok.1 =
      ((buf.takeWhile (· ≠ 0)).drop tok.1).take (tok.2 - tok.1) := by
  have hloc := hl tok htok
  have hend := hloc.end_le
  obtain ⟨w, r, hs, he, hw, -⟩ := hl tok htok
  -- the string is the start of the buffer
  have hpre : ∀ i < (buf.takeWhile (· ≠ 0)).length, buf[i]? = (buf.takeWhile (· ≠ 0))[i]? := by
    intro i hi
    rw [List.prefix_iff_eq_take.1 (List.takeWhile_prefix _), List.getElem?_take, if_pos hi]
  have hbuf : (buf.takeWhile (· ≠ 0)).length ≤ buf.length := (List.takeWhile_prefix _).length_le
  -- the word is where it was, and a `NUL` after it
  have hmid : (setZeros (toks.map Prod.snd) buf).drop tok.1 =
      w ++ (setZeros (toks.map Prod.snd) buf).drop tok.2 := by
    refine List.ext_getElem? fun j => ?_
    rw [List.getElem?_drop]
    by_cases hj : j < w.length
    · rw [List.getElem?_append_left hj, getElem?_setZeros,
        if_neg fun hin => hloc.not_mem_ends hl (Nat.le_add_right _ _) (by omega) hin.1,
        hpre _ (by omega), ← List.getElem?_drop, hs, List.getElem?_append_left hj]
    · rw [List.getElem?_append_right (by omega), List.getElem?_drop]
      congr 1
      omega
  have hnul : ∀ c ∈ ((setZeros (toks.map Prod.snd) buf).drop tok.2).head?, c = 0 := by
    intro c hc
    rw [List.head?_drop, getElem?_setZeros] at hc
    split_ifs at hc with hin
    · exact (Option.mem_some_iff.1 hc).symm
    · -- the end lies in the buffer, as there is a byte there
      have hlt : tok.2 < buf.length := by
        by_contra hge
        rw [List.getElem?_eq_none (by omega)] at hc
        exact Option.not_mem_none _ hc
      exact absurd ⟨List.mem_map.2 ⟨tok, htok, rfl⟩, hlt⟩ hin
  have htail : ((setZeros (toks.map Prod.snd) buf).drop tok.2).takeWhile (· ≠ 0) = [] := by
    rcases hd : (setZeros (toks.map Prod.snd) buf).drop tok.2 with _ | ⟨c, u⟩
    · rfl
    · rw [hd] at hnul
      exact List.takeWhile_cons_of_neg (by simp [hnul c rfl])
  have hword : ∀ c ∈ w, decide (c ≠ 0) = true := fun c hc => decide_eq_true (hw.2 c hc).1
  rw [cstr, hmid, List.takeWhile_append_of_pos hword, htail, List.append_nil, hs, he,
    Nat.add_sub_cancel_left, List.take_left]

/-- For every command line, `parsecmd` either panics with one of the messages of sh.c, or
returns a command each string of which is a whole word of the line, and is the C string
`runcmd` reads at its offset in the buffer after `nulterminate`. -/
theorem parsecmd_panics_or_reads_words (buf : List UInt8) :
    (∀ e, parsecmd buf = .error e → Panic e) ∧
      ∀ cmd m, parsecmd buf = .ok (cmd, m) → ∀ tok ∈ cmd.tokens,
        Located (buf.takeWhile (· ≠ 0)) tok ∧
          cstr m tok.1 = ((buf.takeWhile (· ≠ 0)).drop tok.1).take (tok.2 - tok.1) := by
  have h0 : (0 : UInt8) ∉ buf.takeWhile (· ≠ 0) := fun h => by
    simpa using List.mem_takeWhile_imp h
  -- the fuel `parsecmd` gives is the fuel `parseSound` asks for the whole string
  have hsound := (parseSound h0 (4 * (buf.takeWhile (· ≠ 0)).length + 4) _
    (List.suffix_refl _)).1 (le_refl _)
  rw [parsecmd]
  dsimp only
  rcases hp : parseline (buf.takeWhile (· ≠ 0)).length (4 * (buf.takeWhile (· ≠ 0)).length + 4)
    (buf.takeWhile (· ≠ 0)) with e | ⟨cmd, t⟩
  · rw [hp] at hsound
    exact ⟨fun e' he => by cases he; exact hsound, fun _ _ he => (nomatch he)⟩
  · rw [hp] at hsound
    simp only [Run.ok_bind]
    split_ifs
    · refine ⟨fun _ he => (nomatch he), fun cmd' m he tok htok => ?_⟩
      simp only [pure, Except.pure, Except.ok.injEq, Prod.mk.injEq] at he
      obtain ⟨rfl, rfl⟩ := he
      refine ⟨hsound.2 tok htok, ?_⟩
      rw [nulterminate_eq]
      exact cstr_setZeros hsound.2 htok
    · exact ⟨fun e he => by cases he; exact Or.inl rfl, fun _ _ he => (nomatch he)⟩

end Shell

end Xv6
