import Xv6.Analysis.Shell

/-!
# Every command the shell can build parses back from a line

`Command` is a parsed command with its strings, as `runcmd` reads them: the words of each
`execcmd`, and the file, mode and descriptor of each `redircmd`.  `Command.print` writes a
command line for it, every word followed by a space and every command under an operator in
parentheses.  For every command whose words are words, with fewer than `MAXARGS` of them in
each `execcmd` and an open mode of `<` or `>` on each redirection, `parsecmd` parses the line
back to the command, strings and all.

The proof follows the printer: one lemma per construction of the line, each with the text
after the printed command as a parameter (`k`), and the recursive descent lifted through
the levels it passes.  The strings read back come from `Xv6.Analysis.Shell`: after
`nulterminate` the C string at each token is its word.
-/

set_option autoImplicit false

namespace Xv6

namespace Shell

/-- A parsed command with its strings. -/
inductive Command where
  | exec (args : List (List UInt8))
  | redir (cmd : Command) (file : List UInt8) (mode fd : Nat)
  | pipe (left right : Command)
  | list (left right : Command)
  | back (cmd : Command)
  deriving DecidableEq, Repr

/-- The bytes of the string `s` a token spans. -/
def span (s : List UInt8) (tok : Nat × Nat) : List UInt8 := (s.drop tok.1).take (tok.2 - tok.1)

/-- The strings of a parsed command, read from the buffer `m` as `runcmd` reads them. -/
def Cmd.read (m : List UInt8) : Cmd → Command
  | .exec argv => .exec (argv.map fun a => cstr m a.1)
  | .redir cmd r => .redir (cmd.read m) (cstr m r.file) r.mode r.fd
  | .pipe left right => .pipe (left.read m) (right.read m)
  | .list left right => .list (left.read m) (right.read m)
  | .back cmd => .back (cmd.read m)

/-- The strings of a parsed command, as the tokens of the string `s` they span. -/
def Cmd.readIn (s : List UInt8) : Cmd → Command
  | .exec argv => .exec (argv.map (span s))
  | .redir cmd r => .redir (cmd.readIn s) (span s r.token) r.mode r.fd
  | .pipe left right => .pipe (left.readIn s) (right.readIn s)
  | .list left right => .list (left.readIn s) (right.readIn s)
  | .back cmd => .back (cmd.readIn s)

/-- The words of an `execcmd` on a line, each followed by a space. -/
def words (args : List (List UInt8)) : List UInt8 := args.flatMap (· ++ [32])

/-- A command line for a command: its words, and each command under an operator in
parentheses; a redirection is written `<` for descriptor `0`, else `>`. -/
def Command.print : Command → List UInt8
  | .exec args => words args
  | .redir cmd file _ fd => [40] ++ cmd.print ++ [41] ++ (if fd = 0 then [60] else [62]) ++ file
  | .pipe left right => [40] ++ left.print ++ [41, 124, 40] ++ right.print ++ [41]
  | .list left right => [40] ++ left.print ++ [41, 59, 40] ++ right.print ++ [41]
  | .back cmd => [40] ++ cmd.print ++ [41, 38]

/-- The commands `parsecmd` can build: words that are words, fewer than `MAXARGS` of them in
an `execcmd`, and a redirection that opens as `<` or as `>` does. -/
def Command.Printable : Command → Prop
  | .exec args => args.length < maxargs ∧ ∀ w ∈ args, IsWord w
  | .redir cmd file mode fd => cmd.Printable ∧ IsWord file ∧
      (mode = oRdonly ∧ fd = 0 ∨ mode = oWronly ||| oCreate ∧ fd = 1)
  | .pipe left right => left.Printable ∧ right.Printable
  | .list left right => left.Printable ∧ right.Printable
  | .back cmd => cmd.Printable

/-- INTERNAL: the test of `Command.Printable`, by recursion on the command. -/
def Command.decPrintable : (c : Command) → Decidable c.Printable
  | .exec args => inferInstanceAs (Decidable (args.length < maxargs ∧ ∀ w ∈ args, IsWord w))
  | .redir cmd file mode fd =>
      haveI := cmd.decPrintable
      inferInstanceAs (Decidable (cmd.Printable ∧ IsWord file ∧
        (mode = oRdonly ∧ fd = 0 ∨ mode = oWronly ||| oCreate ∧ fd = 1)))
  | .pipe left right =>
      haveI := left.decPrintable
      haveI := right.decPrintable
      inferInstanceAs (Decidable (left.Printable ∧ right.Printable))
  | .list left right =>
      haveI := left.decPrintable
      haveI := right.decPrintable
      inferInstanceAs (Decidable (left.Printable ∧ right.Printable))
  | .back cmd => cmd.decPrintable

instance : DecidablePred Command.Printable := Command.decPrintable

/-- The text after a printed command in its context: the end of the line or a `)`. -/
def Stops (k : List UInt8) : Prop := ∀ c ∈ k.head?, c = 41

/-! ## Tokens of a printed line -/

theorem skipWhitespace_of_head {t : List UInt8} (h : ∀ c ∈ t.head?, c ∉ whitespace) :
    skipWhitespace t = t := by
  cases t with
  | nil => rfl
  | cons c u => exact skipWhitespace_cons (h c rfl) u

theorem peek_cons {c : UInt8} (hc : c ∉ whitespace) (h0 : c ≠ 0) (u toks : List UInt8) :
    peek (c :: u) toks = (hasChar toks c, c :: u) := by
  rw [peek_eq, skipWhitespace_cons hc]
  simp [h0]

/-- `gettoken` on a one-byte symbol. -/
theorem gettoken_symbol {c : UInt8} (hc : c ∈ [124, 40, 41, 59, 38, 60]) (es : Nat)
    (u : List UInt8) :
    gettoken es (c :: u) = (c, es - (c :: u).length, es - u.length, skipWhitespace u) := by
  have hws : c ∉ whitespace := by simp at hc; rcases hc with h | h | h | h | h | h <;> subst h <;> decide
  have h0 : c ≠ 0 := by simp at hc; rcases hc with h | h | h | h | h | h <;> subst h <;> decide
  rw [gettoken_eq, skipWhitespace_cons hws, gettokenSwitch, if_neg h0, if_pos hc]

/-- `gettoken` on a `>` that another does not follow. -/
theorem gettoken_gt {u : List UInt8} (hu : u.headD 0 ≠ 62) (es : Nat) :
    gettoken es (62 :: u) = (62, es - (62 :: u).length, es - u.length, skipWhitespace u) := by
  rw [gettoken_eq, skipWhitespace_cons (by decide), gettokenSwitch, if_neg (by decide),
    if_neg (by decide), if_pos rfl, if_neg hu]

/-- `gettoken` on a word that whitespace, a symbol or the end follows. -/
theorem gettoken_word {w r : List UInt8} (hw : IsWord w) (hr : ∀ c ∈ r.head?, EndsWord c)
    (es : Nat) : gettoken es (w ++ r) = (97, es - (w ++ r).length, es - r.length, skipWhitespace r) := by
  obtain ⟨c, w', rfl⟩ := List.exists_cons_of_ne_nil hw.1
  have hc := hw.2 c (List.mem_cons_self ..)
  have hsym : c ∉ [124, 40, 41, 59, 38, 60] := fun h => hc.2.2 (by
    simp at h; rcases h with h | h | h | h | h | h <;> subst h <;> decide)
  have hgt : c ≠ 62 := fun h => hc.2.2 (by subst h; decide)
  -- the word runs to `r`, where `skipWord` stops
  have hall : ∀ x ∈ c :: w', wordByte x = true := fun x hx =>
    (wordByte_iff x).2 ⟨(hw.2 x hx).2.1, (hw.2 x hx).2.2⟩
  have hstop : (r.dropWhile wordByte) = r := by
    cases r with
    | nil => rfl
    | cons y r' =>
      refine List.dropWhile_cons_of_neg fun hy => ?_
      rcases hr y rfl with h | h
      · exact ((wordByte_iff y).1 hy).1 h
      · exact ((wordByte_iff y).1 hy).2 h
  rw [gettoken_eq, List.cons_append, skipWhitespace_cons hc.2.1, gettokenSwitch, if_neg hc.1,
    if_neg hsym, if_neg hgt, skipWord_eq, ← List.cons_append, List.dropWhile_append_of_pos hall, hstop]

/-- The span of a word at the offsets `gettoken` gives it. -/
theorem span_word {s w r : List UInt8} (hs : w ++ r <:+ s) :
    span s (s.length - (w ++ r).length, s.length - r.length) = w := by
  have hle := hs.length_le
  rw [List.length_append] at hle
  rw [span, drop_of_suffix hs, List.length_append,
    show s.length - r.length - (s.length - (w.length + r.length)) = w.length by omega, List.take_left]

/-- `peek` finds none of `toks` when the next byte is not whitespace and not one of them. -/
theorem peek_false {k toks : List UInt8} (h0 : 0 ∉ toks)
    (hk : ∀ c ∈ k.head?, c ∉ whitespace ∧ c ∉ toks) : peek k toks = (false, k) := by
  cases k with
  | nil => rfl
  | cons c u =>
    obtain ⟨hws, htok⟩ := hk c rfl
    have hc : hasChar toks c = false := by
      rw [Bool.eq_false_iff, ne_eq, hasChar_iff h0]
      exact htok
    rw [peek_eq, skipWhitespace_cons hws]
    simp [hc]

theorem peek_true {c : UInt8} {toks : List UInt8} (h0 : 0 ∉ toks) (hws : c ∉ whitespace)
    (hc : c ∈ toks) (u : List UInt8) : peek (c :: u) toks = (true, c :: u) := by
  have hc0 : c ≠ 0 := fun h => h0 (h ▸ hc)
  rw [peek_cons hws hc0, (hasChar_iff h0 c).2 hc]

/-- The head of the words of an `execcmd`, or of the text after them. -/
theorem head_words {args : List (List UInt8)} (hargs : ∀ w ∈ args, IsWord w) (k : List UInt8) :
    ∀ c ∈ (words args ++ k).head?, IsWordByte c ∨ c ∈ k.head? := by
  cases args with
  | nil => exact fun c hc => Or.inr hc
  | cons w args =>
    obtain ⟨x, w', rfl⟩ := List.exists_cons_of_ne_nil (hargs w (List.mem_cons_self ..)).1
    intro c hc
    simp only [words, List.flatMap_cons, List.cons_append, List.head?_cons, Option.mem_def,
      Option.some.injEq] at hc
    exact Or.inl (hc ▸ (hargs _ (List.mem_cons_self ..)).2 x (List.mem_cons_self ..))

/-- A printed command starts with a word byte or `(`, or is empty. -/
theorem head_print {c : Command} (hc : c.Printable) (k : List UInt8) :
    ∀ x ∈ (c.print ++ k).head?, (IsWordByte x ∨ x = 40) ∨ x ∈ k.head? := by
  cases c with
  | exec args =>
    intro x hx
    rcases head_words hc.2 k x hx with h | h
    · exact Or.inl (Or.inl h)
    · exact Or.inr h
  | redir => intro x hx; simp [Command.print] at hx; exact Or.inl (Or.inr hx.symm)
  | pipe => intro x hx; simp [Command.print] at hx; exact Or.inl (Or.inr hx.symm)
  | list => intro x hx; simp [Command.print] at hx; exact Or.inl (Or.inr hx.symm)
  | back => intro x hx; simp [Command.print] at hx; exact Or.inl (Or.inr hx.symm)

theorem not_whitespace_of_wordByte {c : UInt8} (h : IsWordByte c ∨ c = 40) : c ∉ whitespace := by
  rcases h with h | rfl
  · exact h.2.1
  · decide

theorem Stops.not_whitespace {k : List UInt8} (hk : Stops k) : ∀ c ∈ k.head?, c ∉ whitespace :=
  fun c hc => (hk c hc) ▸ (by decide)

theorem Stops.not_mem {k : List UInt8} (hk : Stops k) {toks : List UInt8} (h : 41 ∉ toks) :
    ∀ c ∈ k.head?, c ∉ toks := fun c hc => (hk c hc) ▸ h

theorem Stops.head_not {k : List UInt8} (hk : Stops k) {toks : List UInt8} (h : 41 ∉ toks) :
    ∀ c ∈ k.head?, c ∉ whitespace ∧ c ∉ toks := fun c hc => ⟨hk.not_whitespace c hc, hk.not_mem h c hc⟩

theorem stops_paren (K : List UInt8) : Stops (41 :: K) := fun _ hc => (Option.some.inj hc).symm

section Steps

variable {es : Nat} {p p' : Cmd} {t u k : List UInt8}

/-- No redirection where the next byte is neither whitespace nor `<` nor `>`. -/
theorem parseredirs_of_head (hk : ∀ c ∈ k.head?, c ∉ whitespace ∧ c ∉ [60, 62]) (fuel : Nat)
    (rs : List Redir) : parseredirs es (fuel + 1) rs k = .ok (rs, k) := by
  rw [parseredirs, peek_false (by decide) hk]
  rfl

/-- No `&` where the next byte is neither whitespace nor `&`. -/
theorem parselineBacks_of_head (hk : ∀ c ∈ k.head?, c ∉ whitespace ∧ c ∉ [38]) (fuel : Nat) :
    parselineBacks es (fuel + 1) p k = .ok (p, k) := by
  rw [parselineBacks, peek_false (by decide) hk]
  rfl

/-- A `(` starts a block. -/
theorem parseexec_paren (u : List UInt8) (fuel : Nat) :
    parseexec es (fuel + 1) (40 :: u) = parseblock es fuel (40 :: u) := by
  rw [parseexec, peek_true (by decide) (by decide) (by decide) u]
  rfl

/-- A command that no `|` follows is the whole pipeline. -/
theorem parsepipe_of_exec {fuel : Nat} (h : parseexec es fuel t = .ok (p, k))
    (hk : ∀ c ∈ k.head?, c ∉ whitespace ∧ c ∉ [124]) : parsepipe es (fuel + 1) t = .ok (p, k) := by
  rw [parsepipe, h, Run.ok_bind]
  dsimp only
  rw [peek_false (by decide) hk]
  rfl

/-- A pipeline that the end or a `)` follows is the whole line. -/
theorem parseline_of_pipe {fuel : Nat} (h : parsepipe es (fuel + 1) t = .ok (p, k))
    (hk : Stops k) : parseline es (fuel + 2) t = .ok (p, k) := by
  rw [parseline, h, Run.ok_bind]
  dsimp only
  rw [parselineBacks_of_head (hk.head_not (by decide)), Run.ok_bind]
  dsimp only
  rw [peek_false (by decide) (hk.head_not (by decide))]
  rfl

/-- A command that the end or a `)` follows is the whole line. -/
theorem parseline_of_exec {fuel : Nat} (h : parseexec es fuel t = .ok (p, k)) (hk : Stops k) :
    parseline es (fuel + 2) t = .ok (p, k) :=
  parseline_of_pipe (parsepipe_of_exec h (hk.head_not (by decide))) hk

/-- A block: the line inside the parentheses, then the redirections after them. -/
theorem parseblock_paren {fuel : Nat} {c : Command} {K : List UInt8}
    (h : parseline es fuel (c.print ++ 41 :: K) = .ok (p, 41 :: K)) (hc : c.Printable)
    (hK : ∀ x ∈ K.head?, x ∉ whitespace) :
    parseblock es (fuel + 1) (40 :: (c.print ++ 41 :: K)) =
      (parseredirs es fuel [] K >>= fun r => pure (wrap p r.1, r.2)) := by
  have hin : skipWhitespace (c.print ++ 41 :: K) = c.print ++ 41 :: K := by
    refine skipWhitespace_of_head fun x hx => ?_
    rcases head_print hc (41 :: K) x hx with h' | h'
    · exact not_whitespace_of_wordByte h'
    · rw [Option.mem_def, List.head?_cons, Option.some.injEq] at h'
      exact h' ▸ (by decide)
  rw [parseblock, peek_true (by decide) (by decide) (by decide)]
  dsimp only
  rw [if_neg (show ¬((!true) = true) from Bool.false_ne_true), gettoken_symbol (by decide), hin, h,
    Run.ok_bind]
  dsimp only
  rw [peek_true (by decide) (by decide) (by decide)]
  dsimp only
  rw [if_neg (show ¬((!true) = true) from Bool.false_ne_true), gettoken_symbol (by decide),
    skipWhitespace_of_head hK]

/-- `|`: the pipeline after it is the right of a `pipecmd`. -/
theorem parsepipe_pipe {fuel : Nat} (h₁ : parseexec es fuel t = .ok (p, 124 :: u))
    (hu : ∀ c ∈ u.head?, c ∉ whitespace) (h₂ : parsepipe es fuel u = .ok (p', k)) :
    parsepipe es (fuel + 1) t = .ok (.pipe p p', k) := by
  rw [parsepipe, h₁, Run.ok_bind]
  dsimp only
  rw [peek_true (by decide) (by decide) (by decide)]
  dsimp only
  rw [if_pos rfl, gettoken_symbol (by decide), skipWhitespace_of_head hu]
  dsimp only
  rw [h₂]
  rfl

/-- `;`: the line after it is the right of a `listcmd`. -/
theorem parseline_list {fuel : Nat} (h₁ : parsepipe es (fuel + 1) t = .ok (p, 59 :: u))
    (hu : ∀ c ∈ u.head?, c ∉ whitespace) (h₂ : parseline es (fuel + 1) u = .ok (p', k)) :
    parseline es (fuel + 2) t = .ok (.list p p', k) := by
  rw [parseline, h₁, Run.ok_bind]
  dsimp only
  rw [parselineBacks_of_head (fun c hc => by simp at hc; subst hc; decide), Run.ok_bind]
  dsimp only
  rw [peek_true (by decide) (by decide) (by decide)]
  dsimp only
  rw [if_pos rfl, gettoken_symbol (by decide), skipWhitespace_of_head hu]
  dsimp only
  rw [h₂]
  rfl

/-- `&`: a `backcmd` around the pipeline before it. -/
theorem parseline_back {fuel : Nat} (h₁ : parsepipe es (fuel + 2) t = .ok (p, 38 :: k))
    (hk : Stops k) : parseline es (fuel + 3) t = .ok (.back p, k) := by
  rw [parseline, h₁, Run.ok_bind]
  dsimp only
  rw [parselineBacks, peek_true (by decide) (by decide) (by decide)]
  dsimp only
  rw [if_pos rfl, gettoken_symbol (by decide), skipWhitespace_of_head hk.not_whitespace]
  dsimp only
  rw [parselineBacks_of_head (hk.head_not (by decide)), Run.ok_bind]
  dsimp only
  rw [peek_false (by decide) (hk.head_not (by decide))]
  rfl

/-- A block that no redirection follows. -/
theorem parseexec_block {fuel : Nat} {c : Command} {K : List UInt8}
    (h : parseline es (fuel + 1) (c.print ++ 41 :: K) = .ok (p, 41 :: K)) (hc : c.Printable)
    (hK : ∀ x ∈ K.head?, x ∉ whitespace ∧ x ∉ [60, 62]) :
    parseexec es (fuel + 3) (40 :: (c.print ++ 41 :: K)) = .ok (p, K) := by
  rw [parseexec_paren, parseblock_paren h hc fun x hx => (hK x hx).1, parseredirs_of_head hK,
    Run.ok_bind]
  rfl

/-- A block at the end of the line or of the block around it is a whole line. -/
theorem parseline_block {fuel : Nat} {c : Command} (hk : Stops k)
    (h : parseline es (fuel + 1) (c.print ++ 41 :: k) = .ok (p, 41 :: k)) (hc : c.Printable) :
    parseline es (fuel + 5) (40 :: (c.print ++ 41 :: k)) = .ok (p, k) :=
  parseline_of_exec (parseexec_block h hc (hk.head_not (by decide))) hk

end Steps

/-! ## The words and the redirections of a printed line -/

theorem not_mem_of_wordByte {c : UInt8} (hc : IsWordByte c) {toks : List UInt8}
    (htoks : toks ⊆ symbols) : c ∉ toks := fun h => hc.2.2 (htoks h)

/-- The head of a word followed by anything is a word byte. -/
theorem head_word {w : List UInt8} (hw : IsWord w) (r : List UInt8) :
    ∀ c ∈ (w ++ r).head?, IsWordByte c := by
  intro c hc
  rw [List.head?_append_of_ne_nil _ hw.1] at hc
  exact hw.2 c (List.mem_of_mem_head? hc)

/-- The text after the words and their spaces starts with no whitespace, `<` or `>`. -/
theorem head_words_stop {args : List (List UInt8)} (hargs : ∀ w ∈ args, IsWord w) {k : List UInt8}
    (hk : Stops k) {toks : List UInt8} (htoks : toks ⊆ symbols) (h41 : 41 ∉ toks) :
    ∀ c ∈ (words args ++ k).head?, c ∉ whitespace ∧ c ∉ toks := by
  intro c hc
  rcases head_words hargs k c hc with h | h
  · exact ⟨h.2.1, not_mem_of_wordByte h htoks⟩
  · exact hk.head_not h41 c h

/-- The loop over the words of a printed `execcmd` records each at its offsets. -/
theorem parseexecLoop_words {s k : List UInt8} (hk : Stops k) (args : List (List UInt8)) :
    ∀ (argv : List (Nat × Nat)) (fuel : Nat), (∀ w ∈ args, IsWord w) →
      words args ++ k <:+ s → argv.length + args.length < maxargs →
      (words args ++ k).length + 1 ≤ fuel →
      ∃ argv', parseexecLoop s.length fuel argv [] (words args ++ k) = .ok ((argv ++ argv', []), k) ∧
        argv'.map (span s) = args := by
  -- induction on the words; each pass reads one and its space
  induction args with
  | nil =>
    intro argv fuel _ _ _ hf
    obtain ⟨f, rfl⟩ := Nat.exists_eq_add_one_of_ne_zero (by omega : fuel ≠ 0)
    refine ⟨[], ?_, rfl⟩
    rw [List.append_nil]
    cases k with
    | nil => rfl
    | cons c u =>
      obtain rfl : c = 41 := hk c rfl
      rw [words, List.flatMap_nil, List.nil_append, parseexecLoop,
        peek_true (by decide) (by decide) (by decide)]
      rfl
  | cons w args ih =>
    intro argv fuel hargs hs hlen hf
    have hw := hargs w (List.mem_cons_self ..)
    have hrest : ∀ w ∈ args, IsWord w := fun w' hw' => hargs w' (List.mem_cons_of_mem _ hw')
    have htext : words (w :: args) ++ k = w ++ 32 :: (words args ++ k) := by simp [words]
    have hlen' : (words (w :: args) ++ k).length = w.length + 1 + (words args ++ k).length := by
      rw [htext]
      simp
      omega
    have hw0 : 0 < w.length := List.length_pos_iff.2 hw.1
    rw [List.length_cons] at hlen
    obtain ⟨f, rfl⟩ : ∃ f, fuel = f + 2 := ⟨fuel - 2, by omega⟩
    have hs' : w ++ 32 :: (words args ++ k) <:+ s := htext ▸ hs
    have hsuf : words args ++ k <:+ s :=
      (List.suffix_append (w ++ [32]) _).trans (by simpa using hs')
    have hnows : ∀ c ∈ (words args ++ k).head?, c ∉ whitespace ∧ c ∉ [60, 62] :=
      head_words_stop hrest hk (by decide) (by decide)
    -- the space after the word is skipped
    have hskip : skipWhitespace (32 :: (words args ++ k)) = words args ++ k := by
      rw [skipWhitespace, List.dropWhile_cons_of_pos ((hasChar_whitespace 32).2 (by decide)),
        ← skipWhitespace, skipWhitespace_of_head fun c hc => (hnows c hc).1]
    rw [htext, parseexecLoop, peek_false (by decide) fun c hc =>
      ⟨(head_word hw _ c hc).2.1, not_mem_of_wordByte (head_word hw _ c hc) (by decide)⟩]
    dsimp only
    rw [if_neg Bool.false_ne_true, gettoken_word hw (fun c hc => by
      simp at hc; subst hc; exact Or.inl (by decide)), hskip]
    dsimp only
    rw [if_neg (by decide), if_neg (not_not.2 rfl), if_neg (by rw [List.length_append, List.length_singleton]; omega),
      parseredirs_of_head hnows, Run.ok_bind]
    dsimp only
    let tok := (s.length - (w ++ 32 :: (words args ++ k)).length,
      s.length - (32 :: (words args ++ k)).length)
    obtain ⟨argv'', hloop, hspan⟩ := ih (argv ++ [tok]) (f + 1) hrest hsuf
      (by rw [List.length_append, List.length_singleton]; omega) (by omega)
    refine ⟨tok :: argv'', ?_, ?_⟩
    · rw [hloop, List.append_assoc, List.singleton_append]
    · rw [List.map_cons, span_word hs', hspan]

/-- `parseexec` on the words of a printed `execcmd`. -/
theorem parseexec_words {s k : List UInt8} (hk : Stops k) {args : List (List UInt8)}
    (hargs : ∀ w ∈ args, IsWord w) (hlen : args.length < maxargs) (hs : words args ++ k <:+ s)
    {fuel : Nat} (hf : (words args ++ k).length + 1 ≤ fuel) :
    ∃ argv, parseexec s.length (fuel + 1) (words args ++ k) = .ok (.exec argv, k) ∧
      argv.map (span s) = args := by
  obtain ⟨f, rfl⟩ : ∃ f, fuel = f + 1 := ⟨fuel - 1, by omega⟩
  obtain ⟨argv, hloop, hspan⟩ := parseexecLoop_words hk args [] (f + 1) hargs hs (by simpa using hlen)
    (by omega)
  refine ⟨argv, ?_, hspan⟩
  rw [parseexec, peek_false (by decide) (head_words_stop hargs hk (by decide) (by decide))]
  dsimp only
  rw [if_neg Bool.false_ne_true, parseredirs_of_head (head_words_stop hargs hk (by decide) (by decide)),
    Run.ok_bind]
  dsimp only
  rw [hloop, List.nil_append]
  rfl

/-- A printed redirection, `<` or `>` and a word, that the end or a `)` follows. -/
theorem parseredirs_redir {s file k : List UInt8} (hw : IsWord file) (hk : Stops k) {sym : UInt8}
    (hsym : sym = 60 ∨ sym = 62) (hs : sym :: (file ++ k) <:+ s) (fuel : Nat) :
    ∃ r, parseredirs s.length (fuel + 2) [] (sym :: (file ++ k)) = .ok ([r], k) ∧
      span s r.token = file ∧ (sym = 60 → r.mode = oRdonly ∧ r.fd = 0) ∧
      (sym = 62 → r.mode = oWronly ||| oCreate ∧ r.fd = 1) := by
  have hfile := head_word hw k
  have hskip : skipWhitespace (file ++ k) = file ++ k := skipWhitespace_of_head fun c hc => (hfile c hc).2.1
  have hend : ∀ c ∈ k.head?, EndsWord c := fun c hc => (hk c hc) ▸ Or.inr (by decide)
  have hsuf : file ++ k <:+ s := (List.suffix_cons _ _).trans hs
  have hws : sym ∉ whitespace := by rcases hsym with rfl | rfl <;> decide
  have hmem : sym ∈ [60, 62] := by rcases hsym with rfl | rfl <;> decide
  -- the token of the symbol: `<`, or a `>` that the word does not turn into `>>`
  have htok : gettoken s.length (sym :: (file ++ k)) =
      (sym, s.length - (sym :: (file ++ k)).length, s.length - (file ++ k).length, file ++ k) := by
    rcases hsym with rfl | rfl
    · rw [gettoken_symbol (by decide), hskip]
    · have hne : (file ++ k).headD 0 ≠ 62 := by
        obtain ⟨x, hx⟩ : ∃ x, (file ++ k).head? = some x := by
          rw [List.head?_append_of_ne_nil _ hw.1]
          exact Option.isSome_iff_exists.1 (Option.isSome_iff_ne_none.2 (by simpa using hw.1))
        rw [List.headD_eq_head?_getD, hx]
        exact fun h => (hfile x hx).2.2 (by simp at h; subst h; decide)
      rw [gettoken_gt hne, hskip]
  rw [parseredirs, peek_true (by decide) hws hmem]
  dsimp only
  rw [if_pos rfl, htok]
  dsimp only
  rw [gettoken_word hw hend, skipWhitespace_of_head hk.not_whitespace]
  dsimp only
  rw [if_neg (not_not.2 rfl)]
  rcases hsym with rfl | rfl
  · rw [if_pos rfl, List.nil_append, parseredirs_of_head (hk.head_not (by decide))]
    exact ⟨_, rfl, span_word hsuf, fun _ => ⟨rfl, rfl⟩, fun h => absurd h (by decide)⟩
  · rw [if_neg (by decide), if_pos (Or.inl rfl), List.nil_append,
      parseredirs_of_head (hk.head_not (by decide))]
    exact ⟨_, rfl, span_word hsuf, fun h => absurd h (by decide), fun _ => ⟨rfl, rfl⟩⟩

/-- A block with a redirection after it: the `redircmd` around the command of the block. -/
theorem parseexec_redir {s file k : List UInt8} {c : Command} {p : Cmd} (hc : c.Printable)
    (hw : IsWord file) (hk : Stops k) {sym : UInt8} (hsym : sym = 60 ∨ sym = 62)
    (hs : 40 :: (c.print ++ 41 :: sym :: (file ++ k)) <:+ s) {fuel : Nat}
    (h : parseline s.length (fuel + 2) (c.print ++ 41 :: sym :: (file ++ k)) =
      .ok (p, 41 :: sym :: (file ++ k))) :
    ∃ r, parseexec s.length (fuel + 4) (40 :: (c.print ++ 41 :: sym :: (file ++ k))) =
        .ok (.redir p r, k) ∧ span s r.token = file ∧ (sym = 60 → r.mode = oRdonly ∧ r.fd = 0) ∧
      (sym = 62 → r.mode = oWronly ||| oCreate ∧ r.fd = 1) := by
  have hws : sym ∉ whitespace := by rcases hsym with rfl | rfl <;> decide
  have hredir : sym :: (file ++ k) <:+ s :=
    List.IsSuffix.trans ⟨40 :: (c.print ++ [41]), by simp⟩ hs
  obtain ⟨r, hr, hrest⟩ := parseredirs_redir hw hk hsym hredir fuel
  refine ⟨r, ?_, hrest⟩
  rw [parseexec_paren, parseblock_paren h hc fun x hx => (Option.some.inj hx) ▸ hws, hr, Run.ok_bind]
  rfl

/-- Every printable command parses back from its line, in a context that the end or a `)`
follows, given four passes of fuel for each byte and four more. -/
theorem parseline_print {s : List UInt8} (c : Command) (hc : c.Printable) :
    ∀ {k : List UInt8} {fuel : Nat}, Stops k → c.print ++ k <:+ s →
      4 * (c.print ++ k).length + 4 ≤ fuel →
      ∃ p, parseline s.length fuel (c.print ++ k) = .ok (p, k) ∧ p.readIn s = c := by
  -- induction on the command: each operator is a block, or two, between parentheses
  induction c with
  | exec args =>
    intro k fuel hk hs hf
    obtain ⟨F, rfl⟩ : ∃ F, fuel = F + 3 := ⟨fuel - 3, by omega⟩
    have hfuel : (words args ++ k).length + 1 ≤ F := by
      simp only [Command.print] at hf
      omega
    obtain ⟨argv, hexec, hspan⟩ := parseexec_words hk hc.2 hc.1 hs hfuel
    refine ⟨.exec argv, ?_, by rw [Cmd.readIn, hspan]⟩
    exact parseline_of_exec hexec hk
  | redir cmd file mode fd ih =>
    intro k fuel hk hs hf
    obtain ⟨hcmd, hfile, hmode⟩ := hc
    have hprint : (Command.redir cmd file mode fd).print ++ k =
        40 :: (cmd.print ++ 41 :: (if fd = 0 then 60 else 62) :: (file ++ k)) := by
      by_cases hfd : fd = 0 <;> simp [Command.print, hfd]
    rw [hprint] at hs hf ⊢
    simp only [List.length_cons, List.length_append] at hf
    obtain ⟨F, rfl⟩ : ∃ F, fuel = F + 6 := ⟨fuel - 6, by omega⟩
    have hfuel : 4 * (cmd.print ++ 41 :: (if fd = 0 then 60 else 62) :: (file ++ k)).length + 4 ≤
        F + 2 := by
      simp only [List.length_cons, List.length_append]
      omega
    obtain ⟨p, hp, hread⟩ := ih hcmd (stops_paren _) ((List.suffix_cons _ _).trans hs) hfuel
    obtain ⟨r, hexec, hspan, h60, h62⟩ :=
      parseexec_redir hcmd hfile hk (by by_cases hfd : fd = 0 <;> simp [hfd]) hs hp
    refine ⟨.redir p r, ?_, ?_⟩
    · exact parseline_of_exec hexec hk
    · -- the descriptor picks the symbol, and the symbol the mode
      have hr : r.mode = mode ∧ r.fd = fd := by
        rcases hmode with ⟨rfl, rfl⟩ | ⟨rfl, rfl⟩
        · exact h60 (if_pos rfl)
        · exact h62 (if_neg (by decide))
      rw [Cmd.readIn, hread, hspan, hr.1, hr.2]
  | pipe l r ihl ihr =>
    intro k fuel hk hs hf
    have hprint : (Command.pipe l r).print ++ k =
        40 :: (l.print ++ 41 :: 124 :: 40 :: (r.print ++ 41 :: k)) := by simp [Command.print]
    rw [hprint] at hs hf ⊢
    simp only [List.length_cons, List.length_append] at hf
    obtain ⟨F, rfl⟩ : ∃ F, fuel = F + 6 := ⟨fuel - 6, by omega⟩
    have hsufr : r.print ++ 41 :: k <:+ s :=
      List.IsSuffix.trans ⟨40 :: (l.print ++ [41, 124, 40]), by simp⟩ hs
    have hfuell : 4 * (l.print ++ 41 :: 124 :: 40 :: (r.print ++ 41 :: k)).length + 4 ≤ F + 2 := by
      simp only [List.length_cons, List.length_append]
      omega
    have hfuelr : 4 * (r.print ++ 41 :: k).length + 4 ≤ F + 1 := by
      simp only [List.length_cons, List.length_append]
      omega
    obtain ⟨p, hp, hreadl⟩ := ihl hc.1 (stops_paren _) ((List.suffix_cons _ _).trans hs) hfuell
    obtain ⟨p', hp', hreadr⟩ := ihr hc.2 (stops_paren _) hsufr hfuelr
    have hright : parsepipe s.length (F + 4) (40 :: (r.print ++ 41 :: k)) = .ok (p', k) :=
      parsepipe_of_exec (parseexec_block hp' hc.2 (hk.head_not (by decide))) (hk.head_not (by decide))
    refine ⟨.pipe p p', ?_, by rw [Cmd.readIn, hreadl, hreadr]⟩
    exact parseline_of_pipe (parsepipe_pipe
      (parseexec_block hp hc.1 fun x hx => (Option.some.inj hx) ▸ (by decide))
      (fun x hx => (Option.some.inj hx) ▸ (by decide)) hright) hk
  | list l r ihl ihr =>
    intro k fuel hk hs hf
    have hprint : (Command.list l r).print ++ k =
        40 :: (l.print ++ 41 :: 59 :: 40 :: (r.print ++ 41 :: k)) := by simp [Command.print]
    rw [hprint] at hs hf ⊢
    simp only [List.length_cons, List.length_append] at hf
    obtain ⟨F, rfl⟩ : ∃ F, fuel = F + 6 := ⟨fuel - 6, by omega⟩
    have hsufr : r.print ++ 41 :: k <:+ s :=
      List.IsSuffix.trans ⟨40 :: (l.print ++ [41, 59, 40]), by simp⟩ hs
    have hfuell : 4 * (l.print ++ 41 :: 59 :: 40 :: (r.print ++ 41 :: k)).length + 4 ≤ F + 2 := by
      simp only [List.length_cons, List.length_append]
      omega
    have hfuelr : 4 * (r.print ++ 41 :: k).length + 4 ≤ F + 1 := by
      simp only [List.length_cons, List.length_append]
      omega
    obtain ⟨p, hp, hreadl⟩ := ihl hc.1 (stops_paren _) ((List.suffix_cons _ _).trans hs) hfuell
    obtain ⟨p', hp', hreadr⟩ := ihr hc.2 (stops_paren _) hsufr hfuelr
    have hleft : parsepipe s.length (F + 5) (40 :: (l.print ++ 41 :: 59 :: 40 :: (r.print ++ 41 :: k))) =
        .ok (p, 59 :: 40 :: (r.print ++ 41 :: k)) :=
      parsepipe_of_exec (parseexec_block hp hc.1 fun x hx => (Option.some.inj hx) ▸ (by decide))
        fun x hx => (Option.some.inj hx) ▸ (by decide)
    refine ⟨.list p p', ?_, by rw [Cmd.readIn, hreadl, hreadr]⟩
    exact parseline_list hleft (fun x hx => (Option.some.inj hx) ▸ (by decide))
      (parseline_block hk hp' hc.2)
  | back c ih =>
    intro k fuel hk hs hf
    have hprint : (Command.back c).print ++ k = 40 :: (c.print ++ 41 :: 38 :: k) := by
      simp [Command.print]
    rw [hprint] at hs hf ⊢
    simp only [List.length_cons, List.length_append] at hf
    obtain ⟨F, rfl⟩ : ∃ F, fuel = F + 5 := ⟨fuel - 5, by omega⟩
    have hfuel : 4 * (c.print ++ 41 :: 38 :: k).length + 4 ≤ F + 1 := by
      simp only [List.length_cons, List.length_append]
      omega
    obtain ⟨p, hp, hread⟩ := ih hc (stops_paren _) ((List.suffix_cons _ _).trans hs) hfuel
    refine ⟨.back p, ?_, by rw [Cmd.readIn, hread]⟩
    exact parseline_back (parsepipe_of_exec (parseexec_block hp hc fun x hx =>
        (Option.some.inj hx) ▸ (by decide)) fun x hx => (Option.some.inj hx) ▸ (by decide)) hk

/-- A printed line holds no `NUL`: it is the whole C string. -/
theorem zero_not_mem_print {c : Command} (hc : c.Printable) : (0 : UInt8) ∉ c.print := by
  induction c with
  | exec args =>
    intro h
    obtain ⟨w, hw, h⟩ := List.mem_flatMap.1 h
    rcases List.mem_append.1 h with h | h
    · exact ((hc.2 w hw).2 0 h).1 rfl
    · exact absurd h (by decide)
  | redir cmd file mode fd ih =>
    intro h
    by_cases hfd : fd = 0 <;> simp [Command.print, hfd] at h
    all_goals rcases h with h | h
    all_goals first | exact ih hc.1 h | exact (hc.2.1.2 0 h).1 rfl
  | pipe l r ihl ihr =>
    intro h
    simp [Command.print] at h
    rcases h with h | h
    · exact ihl hc.1 h
    · exact ihr hc.2 h
  | list l r ihl ihr =>
    intro h
    simp [Command.print] at h
    rcases h with h | h
    · exact ihl hc.1 h
    · exact ihr hc.2 h
  | back c ih =>
    intro h
    simp [Command.print] at h
    exact ih hc h

/-- After `NUL`s at the ends of located words, the strings `runcmd` reads are the words. -/
theorem read_setZeros {buf : List UInt8} {toks : List (Nat × Nat)}
    (hl : ∀ tok ∈ toks, Located (buf.takeWhile (· ≠ 0)) tok) (p : Cmd)
    (hp : ∀ tok ∈ p.tokens, tok ∈ toks) :
    p.read (setZeros (toks.map Prod.snd) buf) = p.readIn (buf.takeWhile (· ≠ 0)) := by
  induction p with
  | exec argv =>
    rw [Cmd.read, Cmd.readIn]
    congr 1
    exact List.map_congr_left fun a ha => cstr_setZeros hl (hp a ha)
  | redir cmd r ih =>
    rw [Cmd.read, Cmd.readIn, ih fun tok h => hp tok (List.mem_append_left _ h)]
    congr 1
    exact cstr_setZeros hl (hp r.token (List.mem_append_right _ (List.mem_singleton_self _)))
  | pipe l r ihl ihr =>
    rw [Cmd.read, Cmd.readIn, ihl fun tok h => hp tok (List.mem_append_left _ h),
      ihr fun tok h => hp tok (List.mem_append_right _ h)]
  | list l r ihl ihr =>
    rw [Cmd.read, Cmd.readIn, ihl fun tok h => hp tok (List.mem_append_left _ h),
      ihr fun tok h => hp tok (List.mem_append_right _ h)]
  | back cmd ih =>
    rw [Cmd.read, Cmd.readIn, ih hp]

/-- `parsecmd` parses every printable command back from its line, ended by a `NUL`: the
command it returns reads, in the buffer after `nulterminate`, the words, files, modes and
descriptors of the command printed. -/
theorem parsecmd_print (c : Command) (hc : c.Printable) (rest : List UInt8) :
    ∃ cmd m, parsecmd (c.print ++ 0 :: rest) = .ok (cmd, m) ∧ cmd.read m = c := by
  have h0 := zero_not_mem_print hc
  have hstr : (c.print ++ 0 :: rest).takeWhile (· ≠ 0) = c.print := by
    have hall : ∀ x ∈ c.print, decide (x ≠ 0) = true := fun x hx =>
      decide_eq_true fun h => h0 (h ▸ hx)
    rw [List.takeWhile_append_of_pos hall, List.takeWhile_cons_of_neg (by simp), List.append_nil]
  obtain ⟨p, hp, hread⟩ := parseline_print (s := c.print) c hc (k := []) (fun _ h => nomatch h) ⟨[], by simp⟩
    (le_refl _)
  rw [List.append_nil] at hp
  -- the tokens of the parse are located, so `nulterminate` leaves each word a C string
  have hsound := (parseSound h0 (4 * c.print.length + 4) c.print (List.suffix_refl _)).1 (le_refl _)
  rw [hp] at hsound
  have hl : ∀ tok ∈ p.tokens, Located ((c.print ++ 0 :: rest).takeWhile (· ≠ 0)) tok := by
    rw [hstr]
    exact hsound.2
  refine ⟨p, nulterminate p (c.print ++ 0 :: rest), ?_, ?_⟩
  · rw [parsecmd]
    dsimp only
    rw [hstr, hp, Run.ok_bind]
    rfl
  · rw [nulterminate_eq, read_setZeros hl p fun _ h => h, hstr, hread]

/-- The line `(ls )>out` with its `NUL`. -/
theorem parsecmd_print_redir :
    (Command.redir (.exec [[108, 115]]) [111, 117, 116] (oWronly ||| oCreate) 1).Printable ∧
      ∃ cmd m, parsecmd ((Command.redir (.exec [[108, 115]]) [111, 117, 116] (oWronly ||| oCreate) 1).print ++
          [0]) = .ok (cmd, m) ∧
        cmd.read m = .redir (.exec [[108, 115]]) [111, 117, 116] (oWronly ||| oCreate) 1 :=
  ⟨by decide +kernel, parsecmd_print _ (by decide +kernel) []⟩

end Shell

end Xv6
