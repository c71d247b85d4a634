import Mathlib.Data.Nat.Digits.Lemmas
import Xv6.Model.Printf

/-!
# What the printers write

Both `printint`s store the canonical digits of their argument, least significant first
(`printintLoop_digits`): the digit loop is Mathlib's `Nat.digits` read through the
digit table.  The kernel's buffer is `char buf[16]`.  A decimal or hexadecimal 32-bit
number has at most ten digits and a sign, but the binary conversion `%b` that this tree
added to `cprintf` stores one byte per bit: from `2^16` on it writes past `buf[15]`.

The user `printf` keeps the width of a conversion in `pad`, and each digit of the width
overwrites it with that digit's value (`pad = toInt(c)`).  So `pad` never exceeds 9,
and a width of two or more digits is cut to its last digit: `%12d` pads to at most
nine characters, and a 32-bit decimal is at most eleven, short of the twelve asked for.
-/

set_option autoImplicit false

namespace Xv6

/-! ## The digit loop -/

/-- INTERNAL: the digit loop stores the canonical digits of a positive number, given
as many passes as it has digits. -/
theorem printintLoop_digits (digits : List UInt8) {base : Nat} (hb : 1 < base) :
    ∀ (fuel x : Nat), 0 < x → (Nat.digits base x).length ≤ fuel →
      printintLoop digits base fuel x = (Nat.digits base x).map fun d => digits.getD d 0 := by
  intro fuel
  induction fuel with
  | zero =>
      intro x hx hlen
      have : Nat.digits base x ≠ [] := Nat.digits_ne_nil_iff_ne_zero.mpr (by omega)
      simp_all
  | succ fuel ih =>
      intro x hx hlen
      rw [Nat.digits_def' hb hx] at hlen ⊢
      rw [printintLoop, List.map_cons]
      by_cases hq : x / base = 0
      · rw [if_neg (fun h => h hq), hq, Nat.digits_zero, List.map_nil]
      · rw [if_pos hq, ih (x / base) (Nat.pos_of_ne_zero hq) (by simpa using hlen)]

/-- INTERNAL: the loop stores at least one byte and no more than the number has digits. -/
theorem printintLoop_length_le (digits : List UInt8) {base : Nat} (hb : 1 < base) :
    ∀ (fuel x : Nat), (printintLoop digits base fuel x).length ≤ max 1 (Nat.digits base x).length := by
  intro fuel
  induction fuel with
  | zero => intro x; simp [printintLoop]
  | succ fuel ih =>
      intro x
      rw [printintLoop]
      by_cases hq : x / base = 0
      · rw [if_neg (fun h => h hq)]
        simp
      · rw [if_pos hq, List.length_cons]
        have hx : 0 < x := Nat.pos_of_ne_zero fun h => hq (by rw [h, Nat.zero_div])
        have hrest := ih (x / base)
        have hlen : (Nat.digits base x).length = (Nat.digits base (x / base)).length + 1 := by
          rw [Nat.digits_def' hb hx, List.length_cons]
        have hpos : 0 < (Nat.digits base (x / base)).length :=
          List.length_pos_of_ne_nil (Nat.digits_ne_nil_iff_ne_zero.mpr hq)
        omega

/-- INTERNAL: the magnitude of a 32-bit word is a `uint`. -/
theorem signMagnitude_lt {xx : Nat} (hxx : xx < 2 ^ 32) (sign : Bool) :
    (signMagnitude xx sign).2 < 2 ^ 32 := by
  unfold signMagnitude
  split_ifs with h
  · simp only [Bool.and_eq_true, decide_eq_true_eq] at h
    rw [uintMod_eq]
    omega
  · exact hxx

/-- INTERNAL: the buffer of a 32-bit word in base `base`: as many bytes as `x` has
digits in it, and one more for the sign. -/
theorem buf_length_le (digits : List UInt8) {base k xx : Nat} (hb : 1 < base) (hxx : xx < 2 ^ 32)
    (hk : 2 ^ 32 ≤ base ^ k) (hk1 : 1 ≤ k) (sign : Bool) :
    (printintLoop digits base 32 (signMagnitude xx sign).2 ++
      if (signMagnitude xx sign).1 then [ascii '-'] else []).length ≤ k + 1 := by
  have hloop := printintLoop_length_le digits hb 32 (signMagnitude xx sign).2
  have hdig : (Nat.digits base (signMagnitude xx sign).2).length ≤ k :=
    (Nat.digits_length_le_iff hb _).mpr (lt_of_lt_of_le (signMagnitude_lt hxx sign) hk)
  rw [List.length_append]
  split_ifs <;> simp only [List.length_cons, List.length_nil] <;> omega

/-- **The kernel's buffer holds decimal and hexadecimal numbers.**  For `%d`, `%x` and
`%p` of a 32-bit word, `printint` stores at most eleven and nine bytes. -/
theorem printintBuf_length_le_of_dec_hex {xx : Nat} (hxx : xx < 2 ^ 32) (sign : Bool) :
    (printintBuf xx 10 sign).length ≤ 11 ∧ (printintBuf xx 16 sign).length ≤ 9 :=
  ⟨buf_length_le lowerDigits (k := 10) (by decide) hxx (by decide) (by decide) sign,
    buf_length_le lowerDigits (k := 8) (by decide) hxx (by decide) (by decide) sign⟩

/-- **`%b` overflows the kernel's buffer.**  For every 32-bit word `w` of `2^16` or more,
`cprintf("%b", w)` prints what `printint(w, 2, 0)` stores, which is the binary digits of
`w`, least significant first: more than the sixteen bytes of `buf`. -/
theorem cprintf_binary_overflows_buf (strAt : Nat → List UInt8) {w : Nat} (hlo : 2 ^ 16 ≤ w)
    (hhi : w < 2 ^ 32) :
    cprintf strAt [ascii '%', ascii 'b'] [w] = (printintBuf w 2 false).reverse ∧
      printintBuf w 2 false = (Nat.digits 2 w).map (fun d => lowerDigits.getD d 0) ∧
      16 < (printintBuf w 2 false).length := by
  have hbuf : printintBuf w 2 false = (Nat.digits 2 w).map (fun d => lowerDigits.getD d 0) := by
    have hloop := printintLoop_digits lowerDigits (by decide : 1 < 2) 32 w (by omega)
      ((Nat.digits_length_le_iff (by decide) w).mpr hhi)
    simp only [printintBuf, signMagnitude, Bool.false_and, Bool.false_eq_true, if_false, hloop,
      List.append_nil]
  refine ⟨?_, hbuf, ?_⟩
  · simp [cprintf, ascii]
  · rw [hbuf, List.length_map]
    exact (Nat.lt_digits_length_iff (by decide) w).mpr hlo

/-- `cprintf("%b", 0x10000)`: seventeen bytes in `buf`. -/
theorem cprintf_binary_0x10000 :
    2 ^ 16 ≤ 0x10000 ∧ 0x10000 < 2 ^ 32 ∧
      cprintf (fun _ => []) [ascii '%', ascii 'b'] [0x10000] = (printintBuf 0x10000 2 false).reverse ∧
      printintBuf 0x10000 2 false = (Nat.digits 2 0x10000).map (fun d => lowerDigits.getD d 0) ∧
      16 < (printintBuf 0x10000 2 false).length :=
  ⟨by decide, by decide, cprintf_binary_overflows_buf (fun _ => []) (by decide) (by decide)⟩

/-! ## Widths of the user `printf` -/

namespace Printf

/-- The bytes of `w` written in decimal, as a width in a format. -/
def decimal (w : Nat) : List UInt8 := (Nat.digits 10 w).reverse.map fun d => (d + 48).toUInt8

/-- INTERNAL: `printf` between `%` and the conversion: the state is `'%'` and `pad` a
single digit's value. -/
def PadInv (st : State) : Prop := st.state = ascii '%' ∧ 0 ≤ st.pad ∧ st.pad ≤ 9

theorem toInt_of_isdigit {c : UInt8} (hc : isdigit c = true) : 0 ≤ toInt c ∧ toInt c ≤ 9 := by
  simp only [isdigit, Bool.and_eq_true] at hc
  have h1 : (ascii '0').toNat ≤ c.toNat := UInt8.le_iff_toNat_le.mp (of_decide_eq_true hc.1)
  have h2 : c.toNat ≤ (ascii '9').toNat := UInt8.le_iff_toNat_le.mp (of_decide_eq_true hc.2)
  have h48 : (ascii '0').toNat = 48 := rfl
  have h57 : (ascii '9').toNat = 57 := rfl
  unfold toInt
  omega

/-- One digit of a width keeps `printf` reading the width, with `pad` a digit's value,
and writes nothing. -/
theorem step_digit (strAt : Nat → List UInt8) {st : State} (h : PadInv st) {c : UInt8}
    (hc : isdigit c = true) :
    ∃ st', step strAt st c = (st', []) ∧ PadInv st' ∧ st'.args = st.args := by
  obtain ⟨hs, hlo, hhi⟩ := h
  have hs0 : st.state ≠ 0 := by rw [hs]; decide
  by_cases h0 : (c = ascii '0' && !st.readdingPadding) = true
  · refine ⟨{ st with padChar := c, readdingPadding := true }, ?_, ⟨hs, hlo, hhi⟩, rfl⟩
    rw [step, if_neg hs0, if_pos hs, if_pos h0]
  · have hd := toInt_of_isdigit hc
    refine ⟨{ st with readdingPadding := false, pad := toInt c }, ?_, ⟨hs, hd.1, hd.2⟩, rfl⟩
    rw [step, if_neg hs0, if_pos hs, if_neg h0, if_pos hc]

/-- The digits of a width write nothing and leave `pad` a digit's value. -/
theorem loop_digits (strAt : Nat → List UInt8) (rest : List UInt8) :
    ∀ (ds : List UInt8) (st : State), (∀ c ∈ ds, isdigit c = true) → PadInv st →
      ∃ st', loop strAt st (ds ++ rest) = loop strAt st' rest ∧ PadInv st' ∧ st'.args = st.args := by
  intro ds
  induction ds with
  | nil => intro st _ h; exact ⟨st, rfl, h, rfl⟩
  | cons c ds ih =>
      intro st hds h
      have hc := hds c List.mem_cons_self
      obtain ⟨st₁, hstep, h₁, ha₁⟩ := step_digit strAt h hc
      obtain ⟨st₂, hloop, h₂, ha₂⟩ := ih st₁ (fun d hd => hds d (List.mem_cons_of_mem c hd)) h₁
      have hc0 : c ≠ 0 := by
        intro h0
        rw [h0] at hc
        exact absurd hc (by decide)
      refine ⟨st₂, ?_, h₂, by rw [ha₂, ha₁]⟩
      rw [List.cons_append, loop, if_neg hc0]
      simp only [hstep, List.nil_append]
      exact hloop

theorem decimal_isdigit (w : Nat) : ∀ c ∈ decimal w, isdigit c = true := by
  intro c hc
  simp only [decimal, List.mem_map, List.mem_reverse] at hc
  obtain ⟨d, hd, rfl⟩ := hc
  have hlt : d < 10 := Nat.digits_lt_base (by decide) hd
  interval_cases d <;> decide

/-- INTERNAL: the padded number is as long as the width or the buffer, whichever is
longer. -/
theorem printint_length_le (xx base : Nat) (sgn : Bool) {pad : Int} (padChar : UInt8) {k : Nat}
    (hpad : pad ≤ k) (hbuf : (printintLoop upperDigits base 32 (signMagnitude xx sgn).2 ++
      if (signMagnitude xx sgn).1 then [ascii '-'] else []).length ≤ k) :
    (printint xx base sgn pad padChar).length ≤ k := by
  rcases hsm : signMagnitude xx sgn with ⟨neg, x⟩
  rw [hsm] at hbuf
  simp only [printint, hsm]
  generalize (printintLoop upperDigits base 32 x ++ if neg then [ascii '-'] else []) = buf at hbuf ⊢
  split_ifs with hgt
  · rw [List.length_append, List.length_replicate, List.length_reverse]
    omega
  · rw [List.length_append, List.length_nil, List.length_reverse]
    omega

/-- **A width of two digits or more is cut to its last digit.**  For every width
`w ≥ 12` and every 32-bit argument, `printf("%<w>d", x)` writes fewer than `w` bytes,
where C right-justifies the number to at least `w`. -/
theorem printf_wide_width_truncated (strAt : Nat → List UInt8) {w x : Nat} (hw : 12 ≤ w)
    (hx : x < 2 ^ 32) :
    (printf strAt (ascii '%' :: decimal w ++ [ascii 'd']) [x]).length < w := by
  -- after `%`, the state reads the width
  have hpct : step strAt (State.init [x]) (ascii '%') = (⟨ascii '%', 0, false, ascii ' ', [x]⟩, []) := by
    simp [step, State.init]
  obtain ⟨st, hloop, ⟨hs, hlo, hhi⟩, hargs⟩ := loop_digits strAt [ascii 'd'] (decimal w)
    ⟨ascii '%', 0, false, ascii ' ', [x]⟩ (decimal_isdigit w) ⟨rfl, le_refl _, show (0 : Int) ≤ 9 by decide⟩
  -- then `d` prints the number with a pad of one digit
  have hconv : loop strAt st [ascii 'd'] = printint x 10 true st.pad st.padChar := by
    have hs0 : st.state ≠ 0 := by rw [hs]; decide
    have hd0 : ¬(ascii 'd' = ascii '0' && !st.readdingPadding) = true := by simp [ascii]
    have hdig : ¬isdigit (ascii 'd') = true := by decide
    rw [loop, if_neg (by decide), step, if_neg hs0, if_pos hs, if_neg hd0, if_neg hdig]
    simp only [convert, if_pos, hargs, List.headD_cons, loop, List.append_nil]
  have hlen := @printint_length_le x 10 true st.pad st.padChar 11 (by omega)
    (buf_length_le upperDigits (by decide) hx (by decide) (by decide) true)
  rw [printf, List.cons_append, loop, if_neg (by decide), hpct]
  dsimp only
  rw [List.nil_append, hloop, hconv]
  omega

/-- `printf("%12d", 7)` writes two bytes. -/
theorem printf_width_twelve :
    12 ≤ 12 ∧ 7 < 2 ^ 32 ∧
      (printf (fun _ => []) (ascii '%' :: decimal 12 ++ [ascii 'd']) [7]).length < 12 :=
  ⟨le_refl _, by decide, printf_wide_width_truncated (fun _ => []) (le_refl _) (by decide)⟩

end Printf

end Xv6
