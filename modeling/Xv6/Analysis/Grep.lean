import Xv6.Model.Grep
import Xv6.Lib.Lines
import Xv6.Analysis.File

/-!
# grep's matcher decides the patterns it reads

The comment above `match` in grep.c reads a pattern as an optional leading `^`, then
atoms (a byte, or `.` for any byte), each possibly followed by `*`, then an optional
final `$`.  `parse` is that reading, into a `Regex.Pat`, whose meaning is a language of
Mathlib's; `MatchesHere re text` is the meaning of `matchhere`: a word of the pieces of
`re` starts `text`, and is all of it when `re` ends in `$`.

`matchhere_decides` is the heart of it: at any fuel above the length of the pattern,
`matchhere` returns, and returns `MatchesHere`.  The induction follows `parseBody`, one
case per kind of piece, and the star case is the `Regex.scan` rule for the loop of
`matchstar` over the repetitions.  `match` is the same rule once more, over the start
offsets.
-/

set_option autoImplicit false

namespace Xv6

namespace Grep

open Regex

/-- The atom a pattern byte stands for: `.` is the wildcard, any other byte itself. -/
def atom (c : UInt8) : Atom UInt8 := if c = 46 then .any else .lit c

/-- The pieces of a pattern after its optional `^`, read left to right, and whether it
ends in `$`: a byte followed by `*` is a starred atom, a `$` that is the last byte
anchors the end, and any other byte is an atom of its own. -/
def parseBody : List UInt8 → List (Piece UInt8) × Bool
  | [] => ([], false)
  | [36] => ([], true)
  | c :: 42 :: rest => (.star (atom c) :: (parseBody rest).1, (parseBody rest).2)
  | c :: rest => (.one (atom c) :: (parseBody rest).1, (parseBody rest).2)

/-- A pattern as grep's comment reads it: an optional leading `^`, then its body. -/
def parse : List UInt8 → Pat UInt8
  | 94 :: body => ⟨true, (parseBody body).1, (parseBody body).2⟩
  | re => ⟨false, (parseBody re).1, (parseBody re).2⟩

/-- The meaning of `matchhere(re, text)`: the pieces of `re` match a prefix of `text`,
all of `text` when `re` ends in `$`. -/
def MatchesHere (re text : List UInt8) : Prop :=
  PrefixIn (piecesLang (parseBody re).1) (parseBody re).2 text

theorem atom_accepts {c t : UInt8} : (atom c).Accepts t ↔ t = c ∨ c = 46 := by
  unfold atom
  split_ifs with h
  · simp [Atom.Accepts, h]
  · simp [Atom.Accepts, h]

/-- INTERNAL: a C string reads `NUL` at its start exactly when it is empty. -/
theorem getD_zero_eq_zero_iff {s : List UInt8} (h : 0 ∉ s) : s.getD 0 0 = 0 ↔ s = [] := by
  cases s with
  | nil => simp
  | cons x s =>
    have hx : x ≠ 0 := (List.ne_of_not_mem_cons h).symm
    simp [hx]

/-- INTERNAL: a suffix of a C string has no `NUL` either. -/
theorem not_mem_of_suffix {s v : List UInt8} (h : 0 ∉ s) (hv : v <:+ s) : 0 ∉ v :=
  fun h0 => h (hv.subset h0)

/-! ## The meaning of `matchhere`, one equation per kind of piece -/

theorem matchesHere_nil {text : List UInt8} : MatchesHere [] text := by
  simp [MatchesHere, parseBody, prefixIn_one]

theorem matchesHere_dollar {text : List UInt8} : MatchesHere [36] text ↔ text = [] := by
  simp [MatchesHere, parseBody, prefixIn_one]

theorem matchesHere_star {c : UInt8} {rest text : List UInt8} :
    MatchesHere (c :: 42 :: rest) text ↔ MatchesHere rest text ∨
      ∃ x w, text = x :: w ∧ (atom c).Accepts x ∧ MatchesHere (c :: 42 :: rest) w := by
  simp only [MatchesHere, parseBody]
  exact prefixIn_pieces_star

theorem matchesHere_one {c : UInt8} {rest text : List UInt8} (h₁ : c = 36 → rest = [] → False)
    (h₂ : ∀ rest', rest = 42 :: rest' → False) :
    MatchesHere (c :: rest) text ↔
      ∃ x w, text = x :: w ∧ (atom c).Accepts x ∧ MatchesHere rest w := by
  simp only [MatchesHere, parseBody.eq_4 c rest h₁ h₂]
  exact prefixIn_pieces_one

/-! ## `matchhere` and `matchstar` -/

/-- The loop of `matchstar(c, rest, text)` decides the starred piece, given a `matchhere`
for `rest` that decides at every suffix of the text. -/
theorem matchstar_decides {c : UInt8} {rest text : List UInt8} (fuel : Nat) (htext : 0 ∉ text)
    (hhere : ∀ v, v <:+ text → Decides (matchhere fuel rest v) (MatchesHere rest v)) :
    Decides (matchstar (fuel + 1) c rest text) (MatchesHere (c :: 42 :: rest) text) := by
  rw [matchstar]
  refine scan_decides text hhere ?_ ?_
  · rw [matchesHere_star]
    simp
  · intro x v hv
    have hx : x ≠ 0 := (List.ne_of_not_mem_cons (not_mem_of_suffix htext hv)).symm
    rw [matchesHere_star]
    simp [atom_accepts, hx]

theorem matchhere_decides (re : List UInt8) (hre : 0 ∉ re) (fuel : Nat) (text : List UInt8)
    (hfuel : re.length < fuel) (htext : 0 ∉ text) :
    Decides (matchhere fuel re text) (MatchesHere re text) := by
  -- induction on the pattern as `parseBody` reads it; the fuel and the text vary
  induction re using parseBody.induct generalizing fuel text with
  | case1 =>
    obtain ⟨f, rfl⟩ := Nat.exists_eq_add_one_of_ne_zero (Nat.ne_zero_of_lt hfuel)
    simp only [matchhere, List.getD_nil, if_true]
    exact Decides.some (by simp [matchesHere_nil])
  | case2 =>
    obtain ⟨f, rfl⟩ := Nat.exists_eq_add_one_of_ne_zero (Nat.ne_zero_of_lt hfuel)
    simp only [matchhere, List.getD_cons_zero, List.getD_cons_succ, List.getD_nil]
    refine Decides.some ?_
    rw [decide_eq_true_iff, getD_zero_eq_zero_iff htext, matchesHere_dollar]
  | case3 c rest ih =>
    have hc : c ≠ 0 := (List.ne_of_not_mem_cons hre).symm
    have hrest : 0 ∉ rest := List.not_mem_of_not_mem_cons (List.not_mem_of_not_mem_cons hre)
    -- two fuel for the two bytes `c*`: one for `matchhere`, one for `matchstar`
    obtain ⟨f, rfl⟩ := Nat.exists_eq_add_of_le' (show 2 ≤ fuel by simp at hfuel; omega)
    simp only [matchhere, List.getD_cons_zero, List.getD_cons_succ, if_neg hc, if_true,
      List.drop_succ_cons, List.drop_zero]
    exact matchstar_decides f htext fun v hv =>
      ih hrest f v (by simp at hfuel; omega) (not_mem_of_suffix htext hv)
  | case4 c rest h₁ h₂ ih =>
    have hc : c ≠ 0 := (List.ne_of_not_mem_cons hre).symm
    have hrest : 0 ∉ rest := List.not_mem_of_not_mem_cons hre
    obtain ⟨f, rfl⟩ := Nat.exists_eq_add_one_of_ne_zero (Nat.ne_zero_of_lt hfuel)
    -- `re[1]` is neither `*` nor, after a `$`, the `NUL`
    have hstar : rest.getD 0 0 ≠ 42 := by
      cases rest with
      | nil => simp
      | cons y rest' => exact fun hy => h₂ rest' (by simp_all)
    have hdollar : ¬(c = 36 ∧ rest.getD 0 0 = 0) := fun ⟨h36, h0⟩ =>
      h₁ h36 ((getD_zero_eq_zero_iff hrest).1 h0)
    simp only [matchhere, List.getD_cons_zero, List.getD_cons_succ, if_neg hc, if_neg hstar,
      if_neg hdollar, List.drop_succ_cons, List.drop_zero]
    rw [matchesHere_one h₁ h₂]
    cases text with
    | nil => exact Decides.some (by simp)
    | cons x w =>
      have hx : x ≠ 0 := (List.ne_of_not_mem_cons htext).symm
      have hw : 0 ∉ w := List.not_mem_of_not_mem_cons htext
      -- the test of the literal branch is the atom's
      have hcond : (x ≠ 0 ∧ (c = 46 ∨ c = x)) ↔ (atom c).Accepts x := by
        rw [atom_accepts]
        exact ⟨fun ⟨_, h⟩ => h.symm.imp_left Eq.symm, fun h => ⟨hx, h.symm.imp_right Eq.symm⟩⟩
      simp only [List.getD_cons_zero, List.drop_succ_cons, List.drop_zero]
      by_cases hacc : (atom c).Accepts x
      · rw [if_pos (hcond.2 hacc)]
        exact (ih hrest f w (by simp at hfuel; omega) hw).congr (by simp [hacc])
      · rw [if_neg (mt hcond.1 hacc)]
        exact Decides.some (by simp [hacc])

/-! ## `match` -/

theorem matchRe_decides (re text : List UInt8) (hre : 0 ∉ re) (htext : 0 ∉ text) (fuel : Nat)
    (hfuel : re.length < fuel) : Decides (matchRe fuel re text) ((parse re).Matches text) := by
  by_cases hbol : re.getD 0 0 = 94
  · -- `^`: only the beginning of the text
    obtain ⟨body, rfl⟩ : ∃ body, re = 94 :: body := by
      cases re with
      | nil => simp at hbol
      | cons x body => exact ⟨body, by simpa using hbol⟩
    rw [matchRe, if_pos hbol, List.drop_succ_cons, List.drop_zero]
    refine (matchhere_decides body (List.not_mem_of_not_mem_cons hre) fuel text
      (by simp at hfuel; omega) htext).congr ?_
    rw [parse, Pat.matches_of_bol rfl]
    rfl
  · -- no `^`: every start offset, through the same search rule
    have hparse : parse re = ⟨false, (parseBody re).1, (parseBody re).2⟩ := by
      cases re with
      | nil => rfl
      | cons x body =>
        have hx : x ≠ 94 := by simpa using hbol
        rw [parse.eq_2 (x :: body) (fun body' h => hx (List.cons.inj h).1)]
    rw [matchRe, if_neg hbol, hparse, Pat.matches_of_not_bol rfl]
    refine scan_decides (P := MatchesHere re)
      (Q := fun w => ∃ i, i ≤ w.length ∧ MatchesHere re (w.drop i)) text
      (fun v hv => matchhere_decides re hre fuel v hfuel (not_mem_of_suffix htext hv)) ?_ ?_
    · simp [MatchesHere]
    · intro x v hv
      have hx : x ≠ 0 := (List.ne_of_not_mem_cons (not_mem_of_suffix htext hv)).symm
      rw [exists_drop_cons]
      simp [MatchesHere, hx]

/-- `match(re, text)` returns, at every fuel above the length of the pattern, and it
returns 1 exactly when the text has a match of the pattern as grep's comment reads it. -/
theorem matchRe_returns_iff_matches (re text : List UInt8) (hre : 0 ∉ re) (htext : 0 ∉ text)
    (fuel : Nat) (hfuel : re.length < fuel) :
    ∃ b, matchRe fuel re text = some b ∧ (b = true ↔ (parse re).Matches text) :=
  matchRe_decides re text hre htext fuel hfuel

/-- The pattern `a*b$` against the text `caab`. -/
theorem matchRe_demo :
    (0 : UInt8) ∉ [97, 42, 98, 36] ∧ (0 : UInt8) ∉ [99, 97, 97, 98] ∧ [97, 42, 98, 36].length < 5 ∧
      ∃ b, matchRe 5 [97, 42, 98, 36] [99, 97, 97, 98] = some b ∧
        (b = true ↔ (parse [97, 42, 98, 36]).Matches [99, 97, 97, 98]) :=
  ⟨by decide, by decide, by decide,
    matchRe_returns_iff_matches [97, 42, 98, 36] [99, 97, 97, 98] (by decide) (by decide) 5
      (by decide)⟩

example : matchRe 5 [97, 42, 98, 36] [99, 97, 97, 98] = some true := by decide

/-! ## The lines grep writes -/

/-- The bytes of a file from its offset to its end. -/
def fileBytes (f : File) : List UInt8 := (List.range (f.ip.size - f.off)).map fun a => f.ip.data (f.off + a)

theorem length_fileBytes (f : File) : (fileBytes f).length = f.ip.size - f.off := by
  simp [fileBytes]

open Classical in
/-- What grep is to write for the lines `ls`: those the pattern matches, each with its
`\n`, in order. -/
noncomputable def matchingLines (pattern : List UInt8) (ls : List (List UInt8)) : List (List UInt8) :=
  (ls.filter fun l => decide ((parse pattern).Matches l)).map (· ++ [10])

open Classical in
theorem matchingLines_cons (pattern l : List UInt8) (ls : List (List UInt8)) :
    matchingLines pattern (l :: ls) =
      if (parse pattern).Matches l then (l ++ [10]) :: matchingLines pattern ls
      else matchingLines pattern ls := by
  unfold matchingLines
  by_cases h : (parse pattern).Matches l <;> simp [h]

theorem matchingLines_append (pattern : List UInt8) (a b : List (List UInt8)) :
    matchingLines pattern (a ++ b) = matchingLines pattern a ++ matchingLines pattern b := by
  simp [matchingLines, List.filter_append]

/-! ## `strchr` and the inner loop -/

theorem strchr_of_not_mem {p : List UInt8} (hp : 0 ∉ p) (h : 10 ∉ p) : strchr 10 p = none := by
  induction p with
  | nil => rfl
  | cons x s ih =>
    have hx : x ≠ 0 := (List.ne_of_not_mem_cons hp).symm
    have hx' : x ≠ 10 := (List.ne_of_not_mem_cons h).symm
    rw [strchr, if_neg hx, if_neg hx', ih (List.not_mem_of_not_mem_cons hp)
      (List.not_mem_of_not_mem_cons h)]
    rfl

/-- INTERNAL: a symbol in front of a text with a first line starts that line. -/
theorem consFirst_eq_cons {x : UInt8} {r : List (List UInt8) × List UInt8} {line : List UInt8}
    {ls : List (List UInt8)} {t : List UInt8} (h : Lines.consFirst x r = (line :: ls, t)) :
    ∃ l', r = (l' :: ls, t) ∧ line = x :: l' := by
  obtain ⟨_ | ⟨l', ls'⟩, t'⟩ := r
  · simp [Lines.consFirst] at h
  · simp only [Lines.consFirst, Prod.mk.injEq, List.cons.injEq] at h
    obtain ⟨⟨rfl, rfl⟩, rfl⟩ := h
    exact ⟨l', rfl, rfl⟩

/-- `strchr(p, '\n')` on a string with a line: the first line, and the `\n` ending it. -/
theorem strchr_of_split {p : List UInt8} (hp : 0 ∉ p) {line : List UInt8} {ls : List (List UInt8)}
    {t : List UInt8} (h : Lines.split 10 p = (line :: ls, t)) :
    ∃ q, strchr 10 p = some (line, 10 :: q) ∧ p = line ++ 10 :: q ∧ Lines.split 10 q = (ls, t) := by
  -- induction on the string; the first line grows by one byte at each step
  induction p generalizing line with
  | nil => simp at h
  | cons x s ih =>
    have hx : x ≠ 0 := (List.ne_of_not_mem_cons hp).symm
    by_cases hx' : x = 10
    · rw [Lines.split_cons_of_eq s hx'] at h
      simp only [Prod.mk.injEq, List.cons.injEq] at h
      obtain ⟨⟨rfl, hls⟩, ht⟩ := h
      refine ⟨s, ?_, by rw [hx', List.nil_append], by rw [← hls, ← ht]⟩
      rw [strchr, if_neg hx, if_pos hx', hx']
    · rw [Lines.split_cons_of_ne s hx'] at h
      obtain ⟨l', hs, rfl⟩ := consFirst_eq_cons h
      obtain ⟨q, hq, rfl, hsq⟩ := ih (List.not_mem_of_not_mem_cons hp) hs
      refine ⟨q, ?_, rfl, hsq⟩
      rw [strchr, if_neg hx, if_neg hx', hq]
      rfl

/-- The inner loop writes the matching lines of the buffer and stops at its tail. -/
theorem lineLoop_spec (pattern : List UInt8) (hpat : 0 ∉ pattern) (fuel : Nat) (p : List UInt8)
    (hp : 0 ∉ p) (hfuel : p.length < fuel) :
    lineLoop pattern fuel p = .ok (matchingLines pattern (Lines.split 10 p).1, (Lines.split 10 p).2) := by
  -- induction on the fuel; each pass consumes a line and its `\n`
  induction fuel generalizing p with
  | zero => omega
  | succ fuel ih =>
    rcases hs : Lines.split 10 p with ⟨_ | ⟨line, ls⟩, t⟩
    · have hnl : 10 ∉ p := Lines.lines_eq_nil_iff.1 (by rw [hs])
      have ht : t = p := by
        have := Lines.split_tail_of_lines_nil (d := (10 : UInt8)) (s := p) (by rw [hs])
        rwa [hs] at this
      rw [lineLoop, strchr_of_not_mem hp hnl, ht]
      rfl
    · obtain ⟨q, hq, hpq, hsq⟩ := strchr_of_split hp hs
      have hline : 0 ∉ line := fun h => hp (hpq ▸ List.mem_append_left _ h)
      have hq0 : 0 ∉ q := fun h => hp (hpq ▸ List.mem_append_right _ (List.mem_cons_of_mem _ h))
      have hlen : q.length < fuel := by
        have := congrArg List.length hpq
        simp at this
        omega
      obtain ⟨b, hb, hbm⟩ := matchRe_decides pattern line hpat hline (pattern.length + 1) (by omega)
      rw [lineLoop, hq]
      simp only [hb, List.drop_succ_cons, List.drop_zero, ih q hq0 hlen, hsq, Run.ok_bind]
      rw [matchingLines_cons]
      cases b with
      | true =>
        rw [if_pos (rfl : true = true), if_pos (hbm.1 rfl)]
        rfl
      | false =>
        have hnm : ¬(parse pattern).Matches line := fun h => Bool.false_ne_true (hbm.2 h)
        rw [if_neg Bool.false_ne_true, if_neg hnm]
        rfl

section Read

variable (devsw : Nat → Option Devsw)

/-- `read(fd, buf+m, k)` on a file of data: the first `k` bytes left, or all of them when
fewer are left, and the file moved past them. -/
theorem fileread_take {f : File} (hf : f.Wf) (hr : f.readable = true) {k : Nat} (hk : k ≤ bufSize) :
    ∃ f' dst, f.fileread devsw (fun _ => 0) k = (f', ((min k (fileBytes f).length : Nat) : Int), dst) ∧
      (List.range (min k (fileBytes f).length)).map dst = (fileBytes f).take k ∧
      f'.Wf ∧ f'.readable = true ∧ fileBytes f' = (fileBytes f).drop k := by
  have hroom : maxfile * bsize + bufSize < uintMod := by
    rw [uintMod_eq]
    decide
  have hsize := hf.size_le
  have hoff := hf.off_le
  have hk' : toUint (k : Int) = k := by
    rw [toUint_of_nonneg (Int.natCast_nonneg k) (by omega), Int.toNat_natCast]
  rw [length_fileBytes]
  -- `readi` returns `min k (size - off)` bytes, and the offset moves by as many
  refine ⟨{ f with off := f.off + min k (f.ip.size - f.off) },
    Window.overlay (fun _ => 0) 0 (min k (f.ip.size - f.off)) fun a => f.ip.data (f.off + a), ?_, ?_, ?_,
    hr, ?_⟩
  · rw [File.fileread, if_neg (by simp [hr]), hk', Inode.readi_of_data devsw hf.data,
      if_neg (by omega)]
    dsimp only
    rw [File.advance_of_lt f (show f.off + min k (f.ip.size - f.off) < uintMod by omega)]
  · refine List.ext_getElem (by simp [length_fileBytes]) fun i h₁ h₂ => ?_
    simp only [List.getElem_map, List.getElem_range, List.getElem_take, fileBytes]
    rw [Window.overlay_of_mem _ (Nat.zero_le i) (by simpa using h₁), Nat.sub_zero]
  · exact ⟨hf.data, by simp; omega, hf.size_le⟩
  · refine List.ext_getElem (by simp [fileBytes]; omega) fun i h₁ h₂ => ?_
    -- a byte after the first `k` is left only when `k` bytes were
    have hmin : min k (f.ip.size - f.off) = k := by
      simp [length_fileBytes] at h₂
      omega
    simp only [fileBytes, List.getElem_map, List.getElem_range, List.getElem_drop]
    rw [Nat.add_assoc, hmin]

end Read

/-! ## The loop of `grep` -/

/-- The state between two passes of grep's loop: a file of data left to read, and the `m`
bytes `buf` kept from the last pass, a piece of a line shorter than the buffer, with no
`NUL` in what is left and no line of it too long for the buffer. -/
structure Between (f : File) (buf : List UInt8) : Prop where
  wf : f.Wf
  readable : f.readable = true
  nul : 0 ∉ buf ++ fileBytes f
  kept : 10 ∉ buf
  kept_lt : buf.length < bufSize - 1
  lines_lt : ∀ l ∈ (Lines.split 10 (buf ++ fileBytes f)).1, l.length < bufSize - 1

section Loop

variable (devsw : Nat → Option Devsw) {pattern : List UInt8} (hpat : 0 ∉ pattern)

include hpat

/-- From any state between two passes, the loop writes the lines still to come that the
pattern matches: those of the bytes kept followed by those left in the file. -/
theorem grepLoop_spec (fuel : Nat) (f : File) (buf : List UInt8) (h : Between f buf)
    (hfuel : (fileBytes f).length < fuel) :
    grepLoop devsw pattern fuel f buf =
      .ok (matchingLines pattern (Lines.split 10 (buf ++ fileBytes f)).1) := by
  -- induction on the passes; each reads at least one byte
  induction fuel generalizing f buf with
  | zero => omega
  | succ fuel ih =>
    have hkept := h.kept_lt
    obtain ⟨f', dst, hread, hbytes, hwf', hr', hrest⟩ :=
      fileread_take devsw h.wf h.readable (show bufSize - buf.length - 1 ≤ bufSize by omega)
    rw [grepLoop, hread]
    dsimp only
    by_cases hn : min (bufSize - buf.length - 1) (fileBytes f).length = 0
    · -- the file is at its end: the bytes kept are a piece of a line, which grep drops
      have hB : fileBytes f = [] := List.eq_nil_of_length_eq_zero (by omega)
      rw [if_pos (by omega), hB, List.append_nil, Lines.split_of_not_mem h.kept]
      rfl
    · rw [if_neg (by omega)]
      simp only [Int.toNat_natCast, hbytes]
      -- the buffer after the read, and the bytes left in the file
      have hsplit : buf ++ fileBytes f =
          (buf ++ (fileBytes f).take (bufSize - buf.length - 1)) ++ fileBytes f' := by
        rw [hrest, List.append_assoc, List.take_append_drop]
      have hnul' : 0 ∉ buf ++ (fileBytes f).take (bufSize - buf.length - 1) := fun h0 =>
        h.nul (by rw [hsplit]; exact List.mem_append_left _ h0)
      have hrest0 : 0 ∉ fileBytes f' := fun h0 =>
        h.nul (by rw [hsplit]; exact List.mem_append_right _ h0)
      have hlen' : (buf ++ (fileBytes f).take (bufSize - buf.length - 1)).length ≤ bufSize - 1 := by
        simp
        omega
      have hfuel' : (fileBytes f').length < fuel := by
        rw [hrest, List.length_drop]
        omega
      rw [lineLoop_spec pattern hpat _ _ hnul' (Nat.lt_succ_self _), Run.ok_bind]
      dsimp only
      generalize hbuf' : buf ++ (fileBytes f).take (bufSize - buf.length - 1) = buf' at *
      by_cases hline : (Lines.split 10 buf').1 = []
      · -- no line in the buffer: it is full with a piece of a line too long, or the file
        -- has ended; either way no line is left
        have htail := Lines.split_tail_of_lines_nil hline
        have hnl : 10 ∉ buf' := Lines.lines_eq_nil_iff.1 hline
        have hnone : (Lines.split 10 (fileBytes f')).1 = [] ∧ (Lines.split 10 (buf ++ fileBytes f)).1 = [] := by
          by_cases hfull : bufSize - buf.length - 1 ≤ (fileBytes f).length
          · have hfull' : buf'.length = bufSize - 1 := by
              rw [← hbuf']
              simp
              omega
            have hall : (Lines.split 10 (buf ++ fileBytes f)).1 = [] := by
              rw [hsplit]
              refine Lines.lines_eq_nil_of_long_head hnl _ fun l hl => ?_
              rw [hfull']
              exact h.lines_lt l (by rw [hsplit]; exact hl)
            have hnl' : 10 ∉ fileBytes f' := fun h10 =>
              Lines.lines_eq_nil_iff.1 hall (by rw [hsplit]; exact List.mem_append_right _ h10)
            exact ⟨Lines.lines_eq_nil_iff.2 hnl', hall⟩
          · have hB' : fileBytes f' = [] := by
              rw [hrest]
              exact List.drop_eq_nil_of_le (by omega)
            rw [hsplit, hB', List.append_nil]
            exact ⟨rfl, hline⟩
        rw [htail, if_pos rfl, ih f' [] ⟨hwf', hr', by simpa using hrest0, by simp, by simp; omega,
          by simp [hnone.1]⟩ hfuel', List.nil_append, hnone.1, hnone.2, hline]
        rfl
      · -- lines found: grep keeps the tail after the last one, and the lines that follow
        -- are those of the tail continued by the file
        have htail_lt := Lines.length_split_tail_lt hline
        have hall := Lines.split_append (d := (10 : UInt8)) buf' (fileBytes f')
        have hsub : (Lines.split 10 buf').2 <:+ buf' := by
          have hj := Lines.join_split (d := (10 : UInt8)) buf'
          exact ⟨_, hj⟩
        have hbetween : Between f' (Lines.split 10 buf').2 := by
          refine ⟨hwf', hr', fun h0 => ?_, Lines.not_mem_split_tail buf', by omega, fun l hl => ?_⟩
          · rcases List.mem_append.1 h0 with h0 | h0
            · exact hnul' (hsub.subset h0)
            · exact hrest0 h0
          · exact h.lines_lt l (by rw [hsplit, hall]; exact List.mem_append_right _ hl)
        rw [if_neg (by omega), ih f' _ hbetween hfuel', Run.ok_bind, hsplit, hall, matchingLines_append]
        rfl

end Loop

/-- `grep(pattern, fd)` on a file of data writes, in order, each line of the file that the
pattern matches, with its `\n`, when neither holds a `NUL` and every line fits in the
buffer. -/
theorem grep_writes_matching_lines (devsw : Nat → Option Devsw) (pattern : List UInt8)
    (hpat : 0 ∉ pattern) (f : File) (hf : f.Wf) (hr : f.readable = true) (hnul : 0 ∉ fileBytes f)
    (hlines : ∀ l ∈ (Lines.split 10 (fileBytes f)).1, l.length < bufSize - 1) :
    grep devsw pattern f = .ok (matchingLines pattern (Lines.split 10 (fileBytes f)).1) := by
  have hstart : Between f [] := ⟨hf, hr, by simpa using hnul, by simp, by decide, by simpa using hlines⟩
  rw [grep, grepLoop_spec devsw hpat _ f [] hstart (by rw [length_fileBytes]; omega), List.nil_append]

/-- A file of ten bytes, `ab\ncd\nab\nx`. -/
def grepDemoFile : File :=
  ⟨true, false, ⟨.file, 10, fun i => [97, 98, 10, 99, 100, 10, 97, 98, 10, 120].getD i 0⟩, 0⟩

/-- grep `a` on it writes the lines the pattern `a` matches. -/
theorem grep_demo_writes_matching_lines :
    (0 : UInt8) ∉ [97] ∧ grepDemoFile.Wf ∧ grepDemoFile.readable = true ∧ 0 ∉ fileBytes grepDemoFile ∧
      (∀ l ∈ (Lines.split 10 (fileBytes grepDemoFile)).1, l.length < bufSize - 1) ∧
      grep (fun _ => none) [97] grepDemoFile =
        .ok (matchingLines [97] (Lines.split 10 (fileBytes grepDemoFile)).1) := by
  have hwf : grepDemoFile.Wf := ⟨trivial, by decide, by decide⟩
  have hnul : 0 ∉ fileBytes grepDemoFile := by decide
  have hlines : ∀ l ∈ (Lines.split 10 (fileBytes grepDemoFile)).1, l.length < bufSize - 1 := by decide
  exact ⟨by decide, hwf, rfl, hnul, hlines,
    grep_writes_matching_lines _ [97] (by decide) grepDemoFile hwf rfl hnul hlines⟩

example : grep (fun _ => none) [97] grepDemoFile = .ok [[97, 98, 10], [97, 98, 10]] := by
  decide +kernel

end Grep

end Xv6
