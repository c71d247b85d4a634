import Xv6.Model.Param

/-!
# Formatted output (console.c, printf.c)

The kernel's `cprintf` and the user library's `printf` both turn a 32-bit argument into
digits with a `printint` that fills a local `char buf[16]` from the least significant
digit on, adds the sign, and emits the buffer backwards.  The user `printf` also reads a
flag `0` and a width between `%` and the conversion, kept in `pad`, `pad_char` and
`readding_padding` across the characters of the format.

Strings are the bytes before their `NUL`: a format is a `List UInt8`, and a zero byte in
it ends the format as the `NUL` does.  The arguments are the 32-bit words the variadic
pointer walks over, in order; a pointer argument of `%s` is read through `strAt`, the
bytes at that address before their `NUL`, with `0` for `NULL`.  Output is the list of
bytes passed to `consputc` or `putc`.
-/

set_option autoImplicit false

namespace Xv6

/-- The byte of an ASCII character. -/
def ascii (c : Char) : UInt8 := c.toNat.toUInt8

/-- `digits` of the kernel's `printint` (console.c:29), `"0123456789abcdef"`. -/
def lowerDigits : List UInt8 :=
  ['0', '1', '2', '3', '4', '5', '6', '7', '8', '9', 'a', 'b', 'c', 'd', 'e', 'f'].map ascii

/-- `digits` of the user `printint` (printf.c:14), `"0123456789ABCDEF"`. -/
def upperDigits : List UInt8 :=
  ['0', '1', '2', '3', '4', '5', '6', '7', '8', '9', 'A', 'B', 'C', 'D', 'E', 'F'].map ascii

/-- `"(null)"`, what both printers write for a `NULL` string. -/
def nullString : List UInt8 := ['(', 'n', 'u', 'l', 'l', ')'].map ascii

/-- The digit loop of both `printint`s (console.c:38-40, printf.c:28-30),
`do buf[i++] = digits[x % base]; while ((x /= base) != 0)`, with `fuel` passes: the
bytes it stores, from `buf[0]` on. -/
def printintLoop (digits : List UInt8) (base : Nat) : Nat → Nat → List UInt8
  | 0, _ => []
  | fuel + 1, x =>
      digits.getD (x % base) 0 :: if x / base ≠ 0 then printintLoop digits base fuel (x / base) else []

/-- The sign and magnitude `printint` takes from the 32-bit word `xx` (console.c:34-37,
printf.c:21-27): negative when the signed conversion is asked for and the word is
negative as an `int`, and then `x = -xx` as a `uint`. -/
def signMagnitude (xx : Nat) (sign : Bool) : Bool × Nat :=
  if sign && decide (2 ^ 31 ≤ xx) then (true, uintMod - xx) else (false, xx)

/-- What the kernel's `printint(xx, base, sign)` (console.c:27-49) stores in `buf`, from
`buf[0]` on: the digits, least significant first, then `'-'` for a negative number.
A `uint` has at most 32 digits in a base of at least 2, which bounds the loop. -/
def printintBuf (xx base : Nat) (sign : Bool) : List UInt8 :=
  let (neg, x) := signMagnitude xx sign
  printintLoop lowerDigits base 32 x ++ if neg then [ascii '-'] else []

/-- `cprintf(fmt, ...)` (console.c:52-106) of the format `fmt` with the argument words
`args`: the bytes it passes to `consputc`.  `%d` is signed decimal, `%b` unsigned binary,
`%x` and `%p` unsigned hexadecimal; `printint` emits its buffer backwards. -/
def cprintf (strAt : Nat → List UInt8) : List UInt8 → List Nat → List UInt8
  | [], _ => []
  | c :: fmt, args =>
      if c = 0 then []
      else if c ≠ ascii '%' then c :: cprintf strAt fmt args
      else
        match fmt with
        | [] => []
        | c :: fmt =>
            if c = 0 then []
            else if c = ascii 'd' then
              (printintBuf (args.headD 0) 10 true).reverse ++ cprintf strAt fmt args.tail
            else if c = ascii 'b' then
              (printintBuf (args.headD 0) 2 false).reverse ++ cprintf strAt fmt args.tail
            else if c = ascii 'x' ∨ c = ascii 'p' then
              (printintBuf (args.headD 0) 16 false).reverse ++ cprintf strAt fmt args.tail
            else if c = ascii 's' then
              let s := if args.headD 0 = 0 then nullString else strAt (args.headD 0)
              s ++ cprintf strAt fmt args.tail
            else if c = ascii '%' then ascii '%' :: cprintf strAt fmt args
            -- an unknown sequence is printed to draw attention
            else ascii '%' :: c :: cprintf strAt fmt args

/-! ## The user `printf` (printf.c) -/

namespace Printf

/-- The user `printint(fd, xx, base, sgn, pad, pad_char)` (printf.c:12-40): `pad - i`
copies of `pad_char` when the buffer's `i` characters are fewer than `pad`, then the
buffer backwards. -/
def printint (xx base : Nat) (sgn : Bool) (pad : Int) (padChar : UInt8) : List UInt8 :=
  let (neg, x) := signMagnitude xx sgn
  let buf := printintLoop upperDigits base 32 x ++ if neg then [ascii '-'] else []
  (if pad > buf.length then List.replicate (pad - buf.length).toNat padChar else []) ++ buf.reverse

/-- The variables of `printf`'s loop (printf.c:44-51). -/
structure State where
  /-- `state`: `0`, or `'%'` after a `%`. -/
  state : UInt8
  pad : Int
  readdingPadding : Bool
  padChar : UInt8
  /-- The argument words `ap` has not reached yet. -/
  args : List Nat

/-- `printf`'s variables before the first character. -/
def State.init (args : List Nat) : State :=
  { state := 0, pad := 0, readdingPadding := false, padChar := ascii ' ', args := args }

/-- `isdigit(c)` (printf.c:5). -/
def isdigit (c : UInt8) : Bool := ascii '0' ≤ c && c ≤ ascii '9'

/-- `toInt(c)` (printf.c:6). -/
def toInt (c : UInt8) : Int := (c.toNat : Int) - 48

/-- What one conversion character `c` after `%` emits (printf.c:73-111), and how many
argument words it takes. -/
def convert (strAt : Nat → List UInt8) (st : State) (c : UInt8) : List UInt8 × Nat :=
  let a := st.args.headD 0
  if c = ascii 'd' then (printint a 10 true st.pad st.padChar, 1)
  else if c = ascii 'u' then (printint a 10 false st.pad st.padChar, 1)
  else if c = ascii 'x' ∨ c = ascii 'p' then (printint a 16 false st.pad st.padChar, 1)
  else if c = ascii 's' then
    -- the width is written as `pad` copies of `pad_char`, whatever the string's length
    let padding := if st.pad ≠ 0 then List.replicate st.pad.toNat st.padChar else []
    let s := if a = 0 then nullString else strAt a
    (padding ++ s, 1)
  else if c = ascii 'c' then ([a.toUInt8], 1)
  else if c = ascii '%' then ([c], 0)
  else ([ascii '%', c], 0)

/-- One pass of `printf`'s loop (printf.c:52-118) on the format character `c`: the
variables after it and the bytes it writes. -/
def step (strAt : Nat → List UInt8) (st : State) (c : UInt8) : State × List UInt8 :=
  if st.state = 0 then
    if c = ascii '%' then ({ st with state := ascii '%' }, []) else (st, [c])
  else if st.state = ascii '%' then
    if c = ascii '0' && !st.readdingPadding then
      ({ st with padChar := c, readdingPadding := true }, [])
    else if isdigit c then ({ st with readdingPadding := false, pad := toInt c }, [])
    else
      let (out, used) := convert strAt st c
      -- the flag and width are dropped after the conversion unless a `0` was the last
      -- thing read
      let st := if !st.readdingPadding then { st with pad := 0, padChar := ascii ' ' } else st
      ({ st with state := 0, args := st.args.drop used }, out)
  else (st, [])

/-- `printf(fd, fmt, ...)` (printf.c:42-119) from the variables `st`: the bytes written
to `fd`. -/
def loop (strAt : Nat → List UInt8) : State → List UInt8 → List UInt8
  | _, [] => []
  | st, c :: fmt =>
      if c = 0 then []
      else
        let (st', out) := step strAt st c
        out ++ loop strAt st' fmt

/-- `printf(fd, fmt, ...)` with the argument words `args`. -/
def printf (strAt : Nat → List UInt8) (fmt : List UInt8) (args : List Nat) : List UInt8 :=
  loop strAt (State.init args) fmt

end Printf

end Xv6
