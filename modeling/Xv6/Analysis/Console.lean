import Xv6.Model.Console

/-!
# The console's line discipline across index wrap

The ring `input` holds, from `r` on, the committed bytes `buf[r..w)` that `consoleread`
may return and then the line being edited `buf[w..e)`.  Its representation invariant
is `(w - r) ≤ (e - r) ≤ INPUT_BUF` on the wrapped `uint` indices (`ConsInv`); under it
both parts are windows of the ring (`Input.committed`, `Input.editing`) and:

* the editing keys `^U`, `^H` and `DEL` only cut back the edited line (`Erased`,
  `consoleintrChar_erase`);
* any other character is stored at `e` and may commit the line, which appends the
  whole edited line to the committed bytes (`store_spec`, `commit_spec`);
* one iteration of `consoleread` either returns, sleeps on an empty ring, or pops the
  first committed byte (`consolereadStep_cases`);
* so over any interleaving the bytes committed are the bytes taken by readers, in
  order, followed by those still committed; the bytes copied to callers are the taken
  bytes without the `^D`s, and a `^D` is only taken by a call that returns `0`
  (`consRun_accounting`).
-/

set_option autoImplicit false

namespace Xv6

/-- The committed bytes `buf[r..w)`, oldest first. -/
def Input.committed (inp : Input) : List UInt8 :=
  RingBuf.window inp.buf inputBuf inp.r (RingBuf.dist uintMod inp.w inp.r)

/-- The line being edited, `buf[w..e)`. -/
def Input.editing (inp : Input) : List UInt8 :=
  RingBuf.window inp.buf inputBuf inp.w (RingBuf.dist uintMod inp.e inp.w)

/-- The representation invariant of `input`: `(w - r) ≤ (e - r) ≤ INPUT_BUF` modulo
`2^32`. -/
structure ConsInv (inp : Input) : Prop where
  r_lt : inp.r < uintMod
  w_lt : inp.w < uintMod
  e_lt : inp.e < uintMod
  w_le_e : RingBuf.dist uintMod inp.w inp.r ≤ RingBuf.dist uintMod inp.e inp.r
  e_le : RingBuf.dist uintMod inp.e inp.r ≤ inputBuf

/-- INTERNAL: `INPUT_BUF` divides the `uint` modulus. -/
theorem inputBuf_dvd : inputBuf ∣ uintMod := ⟨2 ^ 25, by norm_num [inputBuf, uintMod]⟩

/-- INTERNAL: two ring lengths fit below the modulus. -/
theorem two_mul_inputBuf_lt : 2 * inputBuf < uintMod := by norm_num [inputBuf, uintMod]

/-- INTERNAL: the ring is not empty. -/
theorem inputBuf_pos : 0 < inputBuf := by norm_num [inputBuf]

theorem ConsInv.init : ConsInv Input.init where
  r_lt := by norm_num [Input.init, uintMod]
  w_lt := by norm_num [Input.init, uintMod]
  e_lt := by norm_num [Input.init, uintMod]
  w_le_e := le_rfl
  e_le := by simp [Input.init]

section Ring

variable {inp inp' : Input}

/-- INTERNAL: the edited line and the committed bytes together reach from `r` to `e`. -/
theorem ConsInv.dist_add (h : ConsInv inp) :
    RingBuf.dist uintMod inp.e inp.w + RingBuf.dist uintMod inp.w inp.r =
      RingBuf.dist uintMod inp.e inp.r :=
  RingBuf.dist_add h.e_lt h.w_lt h.r_lt h.w_le_e

/-- The bytes from `r` to `e` are the committed bytes followed by the edited line. -/
theorem ConsInv.line (h : ConsInv inp) :
    RingBuf.window inp.buf inputBuf inp.r (RingBuf.dist uintMod inp.e inp.r) =
      inp.committed ++ inp.editing :=
  RingBuf.window_split inp.buf inputBuf_dvd h.r_lt h.e_lt h.w_lt h.w_le_e

/-- With `r = w` nothing is committed. -/
theorem committed_eq_nil (h : inp.r = inp.w) : inp.committed = [] := by
  simp [Input.committed, h]

/-- `inp'` is `inp` with its edited line cut back: only `e` moved, and not past `w`. -/
structure Erased (inp inp' : Input) : Prop where
  buf_eq : inp'.buf = inp.buf
  r_eq : inp'.r = inp.r
  w_eq : inp'.w = inp.w
  e_lt : inp'.e < uintMod
  dist_le : RingBuf.dist uintMod inp'.e inp.w ≤ RingBuf.dist uintMod inp.e inp.w

theorem Erased.refl (h : ConsInv inp) : Erased inp inp := ⟨rfl, rfl, rfl, h.e_lt, le_rfl⟩

theorem Erased.trans {a b c : Input} (h₁ : Erased a b) (h₂ : Erased b c) : Erased a c := by
  refine ⟨h₂.buf_eq.trans h₁.buf_eq, h₂.r_eq.trans h₁.r_eq, h₂.w_eq.trans h₁.w_eq, h₂.e_lt, ?_⟩
  have h₂le := h₂.dist_le
  rw [h₁.w_eq] at h₂le
  exact h₂le.trans h₁.dist_le

/-- Cutting back the edited line keeps the invariant. -/
theorem Erased.inv (h : ConsInv inp) (he : Erased inp inp') : ConsInv inp' := by
  have hsum := h.dist_add
  have hle := he.dist_le
  have hbound := h.e_le
  have hm := two_mul_inputBuf_lt
  -- the new `e - r` is again the edited length plus the committed length
  have hadd : RingBuf.dist uintMod inp'.e inp.w + RingBuf.dist uintMod inp.w inp.r =
      RingBuf.dist uintMod inp'.e inp.r :=
    RingBuf.dist_add_of_lt he.e_lt h.w_lt h.r_lt (by omega)
  refine ⟨by rw [he.r_eq]; exact h.r_lt, by rw [he.w_eq]; exact h.w_lt, he.e_lt, ?_, ?_⟩
  · rw [he.w_eq, he.r_eq]
    omega
  · rw [he.r_eq]
    omega

theorem Erased.committed_eq (he : Erased inp inp') : inp'.committed = inp.committed := by
  unfold Input.committed
  rw [he.buf_eq, he.r_eq, he.w_eq]

theorem Erased.editing_prefix (he : Erased inp inp') : inp'.editing <+: inp.editing := by
  unfold Input.editing
  rw [he.buf_eq, he.w_eq]
  exact RingBuf.window_prefix inp.buf inputBuf inp.w he.dist_le

/-- Backspace (console.c:211-215): moving `e` back, when it is not at `w`, erases the
last byte of the edited line. -/
theorem backspace_erased (h : ConsInv inp) (hne : inp.e ≠ inp.w) :
    Erased inp { inp with e := RingBuf.dec uintMod inp.e } := by
  have hpos : 0 < RingBuf.dist uintMod inp.e inp.w := by
    have := (RingBuf.dist_eq_zero_iff h.w_lt).not.mpr hne
    omega
  refine ⟨rfl, rfl, rfl, RingBuf.dec_lt h.e_lt, ?_⟩
  dsimp only
  rw [RingBuf.dist_dec_left h.e_lt h.w_lt hpos]
  omega

/-- Kill-line (console.c:204-208) only erases, whatever its fuel: every iteration is a
backspace. -/
theorem killLine_erased (fuel : Nat) : ∀ inp, ConsInv inp → Erased inp (killLine inp fuel) := by
  induction fuel with
  | zero =>
      intro inp h
      exact Erased.refl h
  | succ fuel ih =>
      intro inp h
      rw [killLine]
      split_ifs with hgo
      · have h₁ := backspace_erased h hgo.1
        exact h₁.trans (ih _ (h₁.inv h))
      · exact Erased.refl h

/-- The editing keys `^U`, `^H` and `DEL` only cut back the edited line.
SOURCE: console.c:203-215 -/
theorem consoleintrChar_erase (h : ConsInv inp) {c : UInt8}
    (hc : c = ctrl 'U' ∨ c = ctrl 'H' ∨ c = delKey) : Erased inp (consoleintrChar inp c) := by
  have hback : Erased inp
      (if inp.e ≠ inp.w then { inp with e := RingBuf.dec uintMod inp.e } else inp) := by
    split_ifs with hne
    · exact backspace_erased h hne
    · exact Erased.refl h
  rcases hc with rfl | rfl | rfl
  · rw [consoleintrChar, if_neg (by decide), if_pos rfl]
    exact killLine_erased _ inp h
  · rw [consoleintrChar, if_neg (by decide), if_neg (by decide), if_pos (Or.inl rfl)]
    exact hback
  · rw [consoleintrChar, if_neg (by decide), if_neg (by decide), if_pos (Or.inr rfl)]
    exact hback

/-- Storing a byte at `e` when the ring has room keeps the invariant, leaves the committed
bytes alone and appends the byte to the edited line.
SOURCE: console.c:217-219 -/
theorem store_spec (h : ConsInv inp) (hroom : RingBuf.dist uintMod inp.e inp.r < inputBuf)
    (x : UInt8) :
    ConsInv (inp.store x) ∧ (inp.store x).committed = inp.committed ∧
      (inp.store x).editing = inp.editing ++ [x] := by
  have hsum := h.dist_add
  have hm := two_mul_inputBuf_lt
  have her : RingBuf.dist uintMod (RingBuf.inc uintMod inp.e) inp.r =
      RingBuf.dist uintMod inp.e inp.r + 1 :=
    RingBuf.dist_inc_left h.e_lt h.r_lt (by omega)
  have hew : RingBuf.dist uintMod (RingBuf.inc uintMod inp.e) inp.w =
      RingBuf.dist uintMod inp.e inp.w + 1 :=
    RingBuf.dist_inc_left h.e_lt h.w_lt (by omega)
  -- the slot of `e`, seen from `r` and from `w`
  have hslot_r : inp.e % inputBuf = (inp.r + RingBuf.dist uintMod inp.e inp.r) % inputBuf :=
    (RingBuf.slot_add_dist inputBuf_dvd h.e_lt h.r_lt).symm
  have hslot_w : inp.e % inputBuf = (inp.w + RingBuf.dist uintMod inp.e inp.w) % inputBuf :=
    (RingBuf.slot_add_dist inputBuf_dvd h.e_lt h.w_lt).symm
  refine ⟨⟨h.r_lt, h.w_lt, RingBuf.inc_lt (by omega) _, ?_, ?_⟩, ?_, ?_⟩
  · simp only [Input.store]
    rw [her]
    have := h.w_le_e
    omega
  · simp only [Input.store]
    rw [her]
    omega
  · simp only [Input.committed, Input.store]
    rw [hslot_r]
    exact RingBuf.window_write_out inp.buf inputBuf inp.r x h.w_le_e hroom
  · simp only [Input.editing, Input.store]
    rw [hew, hslot_w]
    exact RingBuf.window_push inp.buf inputBuf inp.w _ x (by omega)

/-- Committing (console.c:221) appends the edited line to the committed bytes.
SOURCE: console.c:220-223 -/
theorem commit_spec (h : ConsInv inp) :
    ConsInv inp.commit ∧ inp.commit.committed = inp.committed ++ inp.editing ∧
      inp.commit.editing = [] := by
  refine ⟨⟨h.r_lt, h.e_lt, h.e_lt, le_rfl, h.e_le⟩, ?_, ?_⟩
  · simp only [Input.committed, Input.commit]
    exact h.line
  · simp [Input.editing, Input.commit]

/-- What one character does to the ring: it only cuts back the edited line, or it
stores a byte (the ring having room) and then may commit the line.
SOURCE: console.c:198-228 -/
theorem consoleintrChar_cases (h : ConsInv inp) (c : UInt8) :
    Erased inp (consoleintrChar inp c) ∨
      ∃ x, RingBuf.dist uintMod inp.e inp.r < inputBuf ∧
        (consoleintrChar inp c = inp.store x ∨ consoleintrChar inp c = (inp.store x).commit) := by
  by_cases hedit : c = ctrl 'U' ∨ c = ctrl 'H' ∨ c = delKey
  · exact .inl (consoleintrChar_erase h hedit)
  have hU : c ≠ ctrl 'U' := fun hc => hedit (.inl hc)
  have hH : ¬ (c = ctrl 'H' ∨ c = delKey) := fun hc => hedit (.inr hc)
  by_cases hP : c = ctrl 'P'
  · rw [consoleintrChar, if_pos hP]
    exact .inl (Erased.refl h)
  rw [consoleintrChar, if_neg hP, if_neg hU, if_neg hH]
  by_cases hins : c ≠ 0 ∧ RingBuf.dist uintMod inp.e inp.r < inputBuf
  · -- the byte stored is `c`, or `'\n'` for `'\r'`; whether it commits depends on it
    rw [if_pos hins]
    refine .inr ⟨if c = '\r'.toUInt8 then '\n'.toUInt8 else c, hins.2, ?_⟩
    generalize (if c = '\r'.toUInt8 then '\n'.toUInt8 else c) = x
    dsimp only
    split_ifs
    · exact .inr rfl
    · exact .inl rfl
  · rw [if_neg hins]
    exact .inl (Erased.refl h)

/-- Taking the byte at `r` off a ring with committed bytes keeps the invariant and pops
the first committed byte; `r` moves by one.
SOURCE: console.c:252 -/
theorem pop_spec (h : ConsInv inp) (hne : inp.r ≠ inp.w) :
    ConsInv inp.pop ∧ inp.committed = inp.front :: inp.pop.committed ∧
      RingBuf.dist uintMod inp.pop.r inp.r = 1 := by
  have hpos : 0 < RingBuf.dist uintMod inp.w inp.r := by
    have := (RingBuf.dist_eq_zero_iff h.r_lt).not.mpr (Ne.symm hne)
    omega
  obtain ⟨k, hk⟩ : ∃ k, RingBuf.dist uintMod inp.w inp.r = k + 1 := ⟨_, (Nat.succ_pred_eq_of_pos hpos).symm⟩
  have hw : RingBuf.dist uintMod inp.w (RingBuf.inc uintMod inp.r) = k := by
    rw [RingBuf.dist_inc_right h.w_lt h.r_lt hpos, hk, Nat.add_sub_cancel]
  have he : RingBuf.dist uintMod inp.e (RingBuf.inc uintMod inp.r) =
      RingBuf.dist uintMod inp.e inp.r - 1 :=
    RingBuf.dist_inc_right h.e_lt h.r_lt (by have := h.w_le_e; omega)
  have hm := two_mul_inputBuf_lt
  have hbuf := inputBuf_pos
  refine ⟨⟨RingBuf.inc_lt (by omega) _, h.w_lt, h.e_lt, ?_, ?_⟩, ?_, ?_⟩
  · simp only [Input.pop]
    rw [hw, he]
    have := h.w_le_e
    omega
  · simp only [Input.pop]
    rw [he]
    have := h.e_le
    omega
  · simp only [Input.committed, Input.front, Input.pop]
    rw [hk, hw]
    exact RingBuf.window_pop inp.buf inputBuf_dvd h.r_lt k
  · simp only [Input.pop]
    rw [RingBuf.dist_inc_left h.r_lt h.r_lt (by rw [RingBuf.dist_self]; omega),
      RingBuf.dist_self]

/-- Pushing a `^D` back (`input.r--`) undoes the pop. -/
theorem pushback_pop (h : ConsInv inp) :
    { inp.pop with r := RingBuf.dec uintMod inp.pop.r } = inp := by
  simp only [Input.pop]
  rw [RingBuf.dec_inc h.r_lt]

end Ring

section Read

variable {inp : Input} {call : ReadCall} {killed : Bool}

/-- What one iteration of `consoleread` can do: return at once (no byte wanted); find
the ring empty and sleep or fail; find a `^D` and return, pushing it back if bytes were
copied; or pop the first committed byte into `dst` and return after a newline.
SOURCE: console.c:244-266 -/
theorem consolereadStep_cases (h : ConsInv inp) :
    (call.n ≤ 0 ∧ consolereadStep inp call killed = .done inp (call.target - call.n) call.dst) ∨
    (0 < call.n ∧ inp.r = inp.w ∧
      (consolereadStep inp call killed = .sleep ∨ consolereadStep inp call killed = .fail)) ∨
    (0 < call.n ∧ inp.r ≠ inp.w ∧ inp.front = ctrl 'D' ∧ call.n < call.target ∧
      consolereadStep inp call killed = .done inp (call.target - call.n) call.dst) ∨
    (0 < call.n ∧ inp.r ≠ inp.w ∧ inp.front = ctrl 'D' ∧ call.target ≤ call.n ∧
      consolereadStep inp call killed = .done inp.pop (call.target - call.n) call.dst) ∨
    (0 < call.n ∧ inp.r ≠ inp.w ∧ inp.front ≠ ctrl 'D' ∧ inp.front = '\n'.toUInt8 ∧
      consolereadStep inp call killed =
        .done inp.pop (call.target - (call.n - 1)) (call.dst ++ [inp.front])) ∨
    (0 < call.n ∧ inp.r ≠ inp.w ∧ inp.front ≠ ctrl 'D' ∧ inp.front ≠ '\n'.toUInt8 ∧
      consolereadStep inp call killed =
        .next inp.pop { call with n := call.n - 1, dst := call.dst ++ [inp.front] }) := by
  by_cases hn : call.n ≤ 0
  · exact .inl ⟨hn, by rw [consolereadStep, if_pos hn]⟩
  have hpos : 0 < call.n := by omega
  by_cases hempty : inp.r = inp.w
  · refine .inr (.inl ⟨hpos, hempty, ?_⟩)
    rw [consolereadStep, if_neg hn, if_pos hempty]
    cases killed
    · exact .inl rfl
    · exact .inr rfl
  refine .inr (.inr ?_)
  by_cases heof : inp.front = ctrl 'D'
  · by_cases hsome : call.n < call.target
    · refine .inl ⟨hpos, hempty, heof, hsome, ?_⟩
      rw [consolereadStep, if_neg hn, if_neg hempty]
      simp only [if_pos heof, if_pos hsome]
      rw [pushback_pop h]
    · refine .inr (.inl ⟨hpos, hempty, heof, by omega, ?_⟩)
      rw [consolereadStep, if_neg hn, if_neg hempty]
      simp only [if_pos heof, if_neg hsome]
  · refine .inr (.inr ?_)
    by_cases hnl : inp.front = '\n'.toUInt8
    · refine .inl ⟨hpos, hempty, heof, hnl, ?_⟩
      rw [consolereadStep, if_neg hn, if_neg hempty]
      simp only [if_neg heof, if_pos hnl]
    · refine .inr ⟨hpos, hempty, heof, hnl, ?_⟩
      rw [consolereadStep, if_neg hn, if_neg hempty]
      simp only [if_neg heof, if_neg hnl]

/-- The bytes a `consoleread` call has copied so far: `target - n` of them, none of them a
newline or a `^D`; `n` stays non-negative once a byte was copied. -/
structure CallInv (call : ReadCall) : Prop where
  len : (call.dst.length : Int) = call.target - call.n
  progress : 0 ≤ call.n ∨ call.dst = []
  no_newline : '\n'.toUInt8 ∉ call.dst
  no_eof : ctrl 'D' ∉ call.dst

theorem CallInv.start (n : Int) : CallInv (consolereadStart n) :=
  ⟨by simp [consolereadStart], .inr rfl, by simp [consolereadStart], by simp [consolereadStart]⟩

/-- Copying one more byte, neither a newline nor a `^D`, keeps the call's invariant. -/
theorem CallInv.push (hc : CallInv call) (hn : 0 < call.n) {x : UInt8} (hD : x ≠ ctrl 'D')
    (hnl : x ≠ '\n'.toUInt8) :
    CallInv { call with n := call.n - 1, dst := call.dst ++ [x] } := by
  refine ⟨?_, .inl (by dsimp only; omega), ?_, ?_⟩
  · simp only [List.length_append, List.length_singleton, Nat.cast_add, Nat.cast_one, hc.len]
    omega
  · simp only [List.mem_append, List.mem_singleton, not_or]
    exact ⟨hc.no_newline, Ne.symm hnl⟩
  · simp only [List.mem_append, List.mem_singleton, not_or]
    exact ⟨hc.no_eof, Ne.symm hD⟩

/-- What one iteration of a `consoleread` call guarantees.  A return gives back as many
bytes as it reports, at most the `n` asked for, with a newline only as the last byte and
no `^D`; it stops because `n` bytes were copied, after a newline, or at a `^D` first in
the committed bytes.  That `^D` is taken by a call that copied nothing, which returns
`0`, and is left in the ring by a call that copied bytes.  A call goes on only after
copying the first committed byte, and sleeps or fails only on an empty ring. -/
def ReadContract (inp : Input) (call : ReadCall) : ConsReadStep → Prop
  | .done inp' ret dst =>
      ret = dst.length ∧ (dst.length : Int) ≤ max call.target 0 ∧
      '\n'.toUInt8 ∉ dst.dropLast ∧ ctrl 'D' ∉ dst ∧
      ((dst.length : Int) = max call.target 0 ∨ dst.getLast? = some '\n'.toUInt8 ∨
        inp.committed.head? = some (ctrl 'D')) ∧
      (inp.committed.head? = some (ctrl 'D') → 0 < call.n →
        (call.dst = [] ∧ ret = 0 ∧ inp.committed = ctrl 'D' :: inp'.committed) ∨
          (call.dst ≠ [] ∧ inp' = inp))
  | .next inp' call' =>
      inp.committed = inp.front :: inp'.committed ∧ call'.dst = call.dst ++ [inp.front] ∧
        CallInv call'
  | .sleep => inp.committed = []
  | .fail => inp.committed = []

/-- INTERNAL: a return that leaves the ring and `dst` alone, with `n` bytes copied or
the first committed byte a `^D`. -/
theorem contract_done_same (hc : CallInv call)
    (hstop : call.n ≤ 0 ∨ (0 < call.n ∧ call.n < call.target ∧
      inp.committed.head? = some (ctrl 'D'))) :
    ReadContract inp call (.done inp (call.target - call.n) call.dst) := by
  have hlen := hc.len
  have hnil : call.dst = [] → call.dst.length = 0 := fun h => by rw [h]; rfl
  refine ⟨hlen.symm, ?_, fun hm => hc.no_newline (List.dropLast_subset _ hm), hc.no_eof, ?_, ?_⟩
  · rcases hc.progress with hp | hp
    · omega
    · have := hnil hp
      omega
  · rcases hstop with hn | ⟨_, _, hD⟩
    · refine .inl ?_
      rcases hc.progress with hp | hp
      · omega
      · have := hnil hp
        omega
    · exact .inr (.inr hD)
  · intro _ hn
    rcases hstop with hn' | ⟨_, hlt, _⟩
    · omega
    · refine .inr ⟨fun hd => ?_, rfl⟩
      have := hnil hd
      omega

/-- Every iteration of a call keeps its contract.
SOURCE: console.c:244-266 -/
theorem consolereadStep_contract (h : ConsInv inp) (hc : CallInv call) :
    ReadContract inp call (consolereadStep inp call killed) := by
  have hlen := hc.len
  rcases @consolereadStep_cases inp call killed h with
    ⟨hn, heq⟩ | ⟨_, hempty, heq | heq⟩ | ⟨hn, _, _, hlt, heq⟩ | ⟨hn, hne, hD, hge, heq⟩ |
    ⟨hn, hne, hD, hnl, heq⟩ | ⟨hn, hne, hD, hnl, heq⟩
  · rw [heq]
    exact contract_done_same hc (.inl hn)
  · rw [heq]
    exact committed_eq_nil hempty
  · rw [heq]
    exact committed_eq_nil hempty
  · -- a `^D` after some bytes: pushed back
    obtain ⟨_, hpop, _⟩ := pop_spec h ‹inp.r ≠ inp.w›
    rw [heq]
    refine contract_done_same hc (.inr ⟨hn, hlt, ?_⟩)
    rw [hpop, ‹inp.front = ctrl 'D'›]
    rfl
  · -- a `^D` before any byte: taken, and the call returns `0`
    obtain ⟨_, hpop, _⟩ := pop_spec h hne
    have hdst : call.dst = [] := List.eq_nil_of_length_eq_zero (by omega)
    have hhead : inp.committed.head? = some (ctrl 'D') := by rw [hpop, hD]; rfl
    rw [heq]
    refine ⟨hlen.symm, by rw [hdst]; simp, fun hm => hc.no_newline (List.dropLast_subset _ hm),
      hc.no_eof, .inr (.inr hhead), fun _ _ => .inl ⟨hdst, by omega, by rw [hpop, hD]⟩⟩
  · -- a newline: copied, and the call returns
    obtain ⟨_, hpop, _⟩ := pop_spec h hne
    rw [heq]
    refine ⟨?_, ?_, ?_, ?_, .inr (.inl ?_), ?_⟩
    · simp only [List.length_append, List.length_singleton, Nat.cast_add, Nat.cast_one]
      omega
    · simp only [List.length_append, List.length_singleton, Nat.cast_add, Nat.cast_one]
      omega
    · rw [List.dropLast_concat]
      exact hc.no_newline
    · simp only [List.mem_append, List.mem_singleton, not_or]
      exact ⟨hc.no_eof, Ne.symm hD⟩
    · rw [List.getLast?_append, List.getLast?_singleton, hnl]
      rfl
    · intro hhead
      rw [hpop] at hhead
      exact absurd (Option.some.inj hhead) hD
  · -- any other byte: copied, and the loop goes on
    obtain ⟨_, hpop, _⟩ := pop_spec h hne
    rw [heq]
    exact ⟨hpop, rfl, hc.push hn hD hnl⟩

end Read

section System

variable {s : ConsSys}

/-- The console's invariant: the ring's, and every call's in flight. -/
structure ConsSysInv (s : ConsSys) : Prop where
  inp : ConsInv s.inp
  calls : ∀ i call, s.calls i = some call → CallInv call

theorem ConsSysInv.init : ConsSysInv ConsSys.init :=
  ⟨ConsInv.init, fun _ _ h => by simp [ConsSys.init] at h⟩

/-- INTERNAL: replacing one caller's call by one satisfying the invariant, or by none,
keeps every call's invariant. -/
theorem ConsSysInv.calls_setCall (h : ConsSysInv s) (i : Nat) (c : Option ReadCall)
    (hc : ∀ call, c = some call → CallInv call) :
    ∀ j call, (s.setCall i c).calls j = some call → CallInv call := by
  intro j call hj
  simp only [ConsSys.setCall] at hj
  split_ifs at hj
  · exact hc call hj
  · exact h.calls j call hj

/-- What one step of the console guarantees: the invariant, the accounting of committed
and taken bytes, the copied bytes as the taken ones without `^D`, and a `^D` taken only
by a call that returns `0`. -/
structure StepOk (s : ConsSys) (r : ConsSys × ConsOut) : Prop where
  inv : ConsSysInv r.1
  fifo : s.inp.committed ++ r.2.committed = r.2.taken ++ r.1.inp.committed
  copied : r.2.copied = r.2.taken.filter (· ≠ ctrl 'D')
  eof : ctrl 'D' ∈ r.2.taken → r.2.ret = some 0

@[simp] theorem ofMove_copied (inp inp' : Input) (copied : List UInt8) (ret : Option Int) :
    (ConsOut.ofMove inp inp' copied ret).copied = copied := rfl

@[simp] theorem ofMove_ret (inp inp' : Input) (copied : List UInt8) (ret : Option Int) :
    (ConsOut.ofMove inp inp' copied ret).ret = ret := rfl

/-- INTERNAL: a step that moves neither `w` nor `r` commits and takes nothing. -/
theorem ofMove_still {inp inp' : Input} (hw : inp'.w = inp.w) (hr : inp'.r = inp.r)
    (copied : List UInt8) (ret : Option Int) :
    (ConsOut.ofMove inp inp' copied ret).committed = [] ∧
      (ConsOut.ofMove inp inp' copied ret).taken = [] := by
  simp [ConsOut.ofMove, hw, hr]

/-- INTERNAL: a pop takes the front byte and commits nothing. -/
theorem ofMove_pop {inp : Input} (h : ConsInv inp) (hne : inp.r ≠ inp.w)
    (copied : List UInt8) (ret : Option Int) :
    (ConsOut.ofMove inp inp.pop copied ret).committed = [] ∧
      (ConsOut.ofMove inp inp.pop copied ret).taken = [inp.front] := by
  refine ⟨by simp [ConsOut.ofMove, Input.pop], ?_⟩
  simp only [ConsOut.ofMove]
  rw [(pop_spec h hne).2.2, RingBuf.window_one]
  rfl

/-- INTERNAL: a step that leaves the ring alone, copies nothing and does not return `0`
from a `^D` is accounted for. -/
theorem stepOk_still {s' : ConsSys} (o : ConsOut) (hinv : ConsSysInv s')
    (hinp : s'.inp = s.inp) (hc : o.committed = []) (ht : o.taken = []) (hcp : o.copied = []) :
    StepOk s (s', o) := by
  refine ⟨hinv, ?_, ?_, ?_⟩
  · simp [hinp, hc, ht]
  · simp [ht, hcp]
  · simp [ht]

/-- A character handled by `consoleintr` commits bytes only at the end of the committed
ones, and takes nothing. -/
theorem consStep_intr (h : ConsSysInv s) (c : UInt8) : StepOk s (consStep s (.intr c)) := by
  rw [consStep]
  rcases consoleintrChar_cases h.inp c with he | ⟨x, hroom, hres | hres⟩
  · obtain ⟨hc, ht⟩ := ofMove_still he.w_eq he.r_eq [] Option.none
    refine ⟨⟨he.inv h.inp, h.calls⟩, ?_, by simp [ht], by simp [ht]⟩
    simp only [hc, ht, List.append_nil, List.nil_append]
    exact he.committed_eq.symm
  · obtain ⟨hinv, hcomm, _⟩ := store_spec h.inp hroom x
    have hw : (consoleintrChar s.inp c).w = s.inp.w := by rw [hres]; rfl
    have hr : (consoleintrChar s.inp c).r = s.inp.r := by rw [hres]; rfl
    obtain ⟨hc, ht⟩ := ofMove_still hw hr [] Option.none
    refine ⟨⟨hres ▸ hinv, h.calls⟩, ?_, by simp [ht], by simp [ht]⟩
    simp only [hc, ht, List.append_nil, List.nil_append]
    rw [hres, hcomm]
  · -- a commit: the edited line and the new byte move below `w`
    obtain ⟨hinv, hcomm, hedit⟩ := store_spec h.inp hroom x
    obtain ⟨hinv', hcomm', _⟩ := commit_spec hinv
    have hr : (consoleintrChar s.inp c).r = s.inp.r := by rw [hres]; rfl
    have ht : (ConsOut.ofMove s.inp (consoleintrChar s.inp c) [] Option.none).taken = [] := by
      simp [ConsOut.ofMove, hr]
    have hc : (ConsOut.ofMove s.inp (consoleintrChar s.inp c) [] Option.none).committed =
        s.inp.editing ++ [x] := by
      rw [← hedit]
      simp only [ConsOut.ofMove, hres]
      rfl
    refine ⟨⟨hres ▸ hinv', h.calls⟩, ?_, by simp [ht], by simp [ht]⟩
    simp only [hc, ht, List.nil_append]
    rw [hres, hcomm', hcomm, hedit]

/-- Entering `consoleread` changes nothing but the caller's call. -/
theorem consStep_start (h : ConsSysInv s) (i : Nat) (n : Int) :
    StepOk s (consStep s (.start i n)) := by
  rw [consStep]
  split
  · exact stepOk_still _ h rfl rfl rfl rfl
  · exact stepOk_still _ ⟨h.inp, h.calls_setCall i _ (fun _ hc => Option.some.inj hc ▸
      CallInv.start n)⟩ rfl rfl rfl rfl

/-- One iteration of a call takes at most the first committed byte, copies it unless it
is a `^D`, and takes a `^D` only when returning `0`. -/
theorem consStep_read (h : ConsSysInv s) (i : Nat) (killed : Bool) :
    StepOk s (consStep s (.step i killed)) := by
  cases hcall : s.calls i with
  | none =>
      simp only [consStep, hcall]
      exact stepOk_still _ h rfl rfl rfl rfl
  | some call =>
      have hc := h.calls i call hcall
      have hlen := hc.len
      have hnone : ∀ call', Option.none = some call' → CallInv call' := fun _ h => nomatch h
      rcases @consolereadStep_cases s.inp call killed h.inp with
        ⟨_, heq⟩ | ⟨_, _, heq | heq⟩ | ⟨_, _, _, _, heq⟩ | ⟨hn, hne, hD, hge, heq⟩ |
        ⟨hn, hne, hD, _, heq⟩ | ⟨hn, hne, hD, hnl, heq⟩
      · simp only [consStep, hcall, heq]
        obtain ⟨hc', ht⟩ := @ofMove_still s.inp s.inp rfl rfl
          (call.dst.drop call.dst.length) (some (call.target - call.n))
        exact stepOk_still _ ⟨h.inp, h.calls_setCall i _ hnone⟩ rfl hc' ht (by simp)
      · simp only [consStep, hcall, heq]
        exact stepOk_still _ h rfl rfl rfl rfl
      · simp only [consStep, hcall, heq]
        exact stepOk_still _ ⟨h.inp, h.calls_setCall i _ hnone⟩ rfl rfl rfl rfl
      · simp only [consStep, hcall, heq]
        obtain ⟨hc', ht⟩ := @ofMove_still s.inp s.inp rfl rfl
          (call.dst.drop call.dst.length) (some (call.target - call.n))
        exact stepOk_still _ ⟨h.inp, h.calls_setCall i _ hnone⟩ rfl hc' ht (by simp)
      · -- a `^D` taken by a call that copied nothing
        simp only [consStep, hcall, heq]
        obtain ⟨hinv, hpop, _⟩ := pop_spec h.inp hne
        obtain ⟨hc', ht⟩ := ofMove_pop h.inp hne (call.dst.drop call.dst.length)
          (some (call.target - call.n))
        refine ⟨⟨hinv, h.calls_setCall i _ hnone⟩, ?_, ?_, fun _ => ?_⟩
        · simp only [hc', ht, List.append_nil, List.singleton_append]
          exact hpop
        · rw [ofMove_copied, ht]
          simp [hD]
        · simp only [ofMove_ret, Option.some.injEq]
          omega
      · -- a newline, copied, and the call returns
        simp only [consStep, hcall, heq]
        obtain ⟨hinv, hpop, _⟩ := pop_spec h.inp hne
        obtain ⟨hc', ht⟩ := ofMove_pop h.inp hne
          ((call.dst ++ [s.inp.front]).drop call.dst.length)
          (some (call.target - (call.n - 1)))
        refine ⟨⟨hinv, h.calls_setCall i _ hnone⟩, ?_, ?_, fun hm => ?_⟩
        · simp only [hc', ht, List.append_nil, List.singleton_append]
          exact hpop
        · rw [ofMove_copied, ht]
          simp [hD]
        · rw [ht, List.mem_singleton] at hm
          exact absurd hm.symm hD
      · -- any other byte, copied, and the call goes on
        simp only [consStep, hcall, heq]
        obtain ⟨hinv, hpop, _⟩ := pop_spec h.inp hne
        obtain ⟨hc', ht⟩ := ofMove_pop h.inp hne
          ((call.dst ++ [s.inp.front]).drop call.dst.length) Option.none
        have hsome : ∀ call', some { call with n := call.n - 1, dst := call.dst ++ [s.inp.front] } =
            some call' → CallInv call' := fun _ hc' => Option.some.inj hc' ▸ hc.push hn hD hnl
        refine ⟨⟨hinv, h.calls_setCall i _ hsome⟩, ?_, ?_, fun hm => ?_⟩
        · simp only [hc', ht, List.append_nil, List.singleton_append]
          exact hpop
        · rw [ofMove_copied, ht]
          simp [hD]
        · rw [ht, List.mem_singleton] at hm
          exact absurd hm.symm hD

/-- Every step of the console is accounted for. -/
theorem consStep_ok (h : ConsSysInv s) : ∀ op, StepOk s (consStep s op)
  | .intr c => consStep_intr h c
  | .start i n => consStep_start h i n
  | .step i killed => consStep_read h i killed

/-- Over any interleaving from the initial console: the invariant holds; the bytes
committed are the bytes taken by readers, in order, followed by those still committed;
the bytes copied to callers are the taken bytes without the `^D`s; and a `^D` is taken
only by a call that returns `0`. -/
theorem consRun_accounting (ops : List ConsOp) :
    ConsSysInv (consRun ConsSys.init ops).1 ∧
    ((consRun ConsSys.init ops).2.map ConsOut.committed).flatten =
      ((consRun ConsSys.init ops).2.map ConsOut.taken).flatten ++
        (consRun ConsSys.init ops).1.inp.committed ∧
    ((consRun ConsSys.init ops).2.map ConsOut.copied).flatten =
      ((consRun ConsSys.init ops).2.map ConsOut.taken).flatten.filter (· ≠ ctrl 'D') ∧
    ∀ o ∈ (consRun ConsSys.init ops).2, ctrl 'D' ∈ o.taken → o.ret = some 0 := by
  have hstep : ∀ s op, ConsSysInv s → ConsSysInv (consStep s op).1 :=
    fun _ op h => (consStep_ok h op).inv
  have hinit : ConsSys.init.inp.committed = [] := by
    simp [Input.committed, ConsSys.init, Input.init]
  refine ⟨Run.run_inv consStep ConsSysInv hstep _ ConsSysInv.init ops, ?_, ?_, ?_⟩
  · have h := Run.run_conserve_out consStep ConsSysInv (fun s => s.inp.committed)
      ConsOut.committed ConsOut.taken hstep (fun _ op h => (consStep_ok h op).fifo)
      _ ConsSysInv.init ops
    rwa [hinit, List.nil_append] at h
  · have hcopied := Run.run_outputs_inv consStep ConsSysInv hstep
      (fun o => o.copied = o.taken.filter (· ≠ ctrl 'D')) (fun _ op h => (consStep_ok h op).copied)
      _ ConsSysInv.init ops
    rw [List.filter_flatten, List.map_map]
    congr 1
    exact List.map_congr_left hcopied
  · exact Run.run_outputs_inv consStep ConsSysInv hstep
      (fun o => ctrl 'D' ∈ o.taken → o.ret = some 0) (fun _ op h => (consStep_ok h op).eof)
      _ ConsSysInv.init ops

/-- The console's line discipline over any interleaving of `consoleintr` characters and
`consoleread` iterations, whatever the indices have wrapped to: the ring invariant holds;
every committed byte is taken once, in order, and copied to a caller unless it is a
`^D`; a `^D` is taken only by a call returning `0`; the editing keys never touch a
committed byte; and every call in flight keeps its contract. -/
theorem console_line_discipline (ops : List ConsOp) :
    ConsInv (consRun ConsSys.init ops).1.inp ∧
    ((consRun ConsSys.init ops).2.map ConsOut.committed).flatten =
      ((consRun ConsSys.init ops).2.map ConsOut.taken).flatten ++
        (consRun ConsSys.init ops).1.inp.committed ∧
    ((consRun ConsSys.init ops).2.map ConsOut.copied).flatten =
      ((consRun ConsSys.init ops).2.map ConsOut.taken).flatten.filter (· ≠ ctrl 'D') ∧
    (∀ o ∈ (consRun ConsSys.init ops).2, ctrl 'D' ∈ o.taken → o.ret = some 0) ∧
    (∀ c, c = ctrl 'U' ∨ c = ctrl 'H' ∨ c = delKey →
      (consoleintrChar (consRun ConsSys.init ops).1.inp c).committed =
          (consRun ConsSys.init ops).1.inp.committed ∧
        (consoleintrChar (consRun ConsSys.init ops).1.inp c).editing <+:
          (consRun ConsSys.init ops).1.inp.editing) ∧
    (∀ i call killed, (consRun ConsSys.init ops).1.calls i = some call →
      ReadContract (consRun ConsSys.init ops).1.inp call
        (consolereadStep (consRun ConsSys.init ops).1.inp call killed)) := by
  obtain ⟨hinv, hfifo, hcopied, heof⟩ := consRun_accounting ops
  refine ⟨hinv.inp, hfifo, hcopied, heof, ?_, ?_⟩
  · intro c hc
    have he := consoleintrChar_erase hinv.inp hc
    exact ⟨he.committed_eq, he.editing_prefix⟩
  · intro i call killed hcall
    exact consolereadStep_contract hinv.inp (hinv.calls i call hcall)

end System

end Xv6
