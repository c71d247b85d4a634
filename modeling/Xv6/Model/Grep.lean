import Xv6.Lib.Regex
import Xv6.Model.File

/-!
# grep (grep.c)

`match`, `matchhere` and `matchstar`, the regular-expression matcher of Kernighan and
Pike that grep runs on each line.  A string is the list of its bytes before the `NUL`;
`s.getD i 0` is `s[i]`, `0` past the end as the C reads the terminator, and `s.drop k`
is `s + k`.

The two do-while loops, of `match` over the start offsets and of `matchstar` over the
repetitions of its character, are `Regex.scan` with the loop's condition on the byte it
passes.  The mutual recursion of `matchhere` and `matchstar` counts its depth in `fuel`
and answers `none` when that runs out; `Xv6.Analysis.Grep` shows that it never does
once the fuel exceeds the length of the pattern.

`grep(pattern, fd)` reads the file into `buf`, `sizeof(buf) - m - 1` bytes at a time after
the `m` it kept, runs `match` on each line it finds with `strchr`, and writes the lines
that match to fd 1; the model returns those writes.  The file is an inode-backed `File`,
read by `fileread`; `main`'s opening of the files named and its messages are not
modelled.
-/

set_option autoImplicit false

namespace Xv6

namespace Grep

mutual

/-- `matchhere(re, text)` (grep.c:84-96): does `re` match at the beginning of `text`. -/
def matchhere : Nat → List UInt8 → List UInt8 → Option Bool
  | 0, _, _ => none
  | fuel + 1, re, text =>
      if re.getD 0 0 = 0 then some true
      -- `re[1] == '*'`
      else if re.getD 1 0 = 42 then matchstar fuel (re.getD 0 0) (re.drop 2) text
      -- `re[0] == '$' && re[1] == '\0'`
      else if re.getD 0 0 = 36 ∧ re.getD 1 0 = 0 then some (decide (text.getD 0 0 = 0))
      -- `*text != '\0' && (re[0] == '.' || re[0] == *text)`
      else if text.getD 0 0 ≠ 0 ∧ (re.getD 0 0 = 46 ∨ re.getD 0 0 = text.getD 0 0) then
        matchhere fuel (re.drop 1) (text.drop 1)
      else some false

/-- `matchstar(c, re, text)` (grep.c:98-106): does `c*re` match at the beginning of
`text`; the loop goes on while `*text != '\0' && (*text++ == c || c == '.')`. -/
def matchstar : Nat → UInt8 → List UInt8 → List UInt8 → Option Bool
  | 0, _, _, _ => none
  | fuel + 1, c, re, text =>
      Regex.scan (matchhere fuel re) (fun t => t != 0 && (t == c || c == 46)) text

end

/-- `match(re, text)` (grep.c:72-82): with a leading `^` only the beginning of the text
is tried, otherwise every offset up to the `NUL` (`while (*text++ != '\0')`). -/
def matchRe (fuel : Nat) (re text : List UInt8) : Option Bool :=
  if re.getD 0 0 = 94 then matchhere fuel (re.drop 1) text
  else Regex.scan (matchhere fuel re) (fun t => t != 0) text

/-- `sizeof(buf)` (grep.c:7). -/
def bufSize : Nat := 1024

/-- `strchr(s, c)` (ulib.c:43-50): the bytes before the first `c` and those from it on,
`none` (`0`) when the string ends first. -/
def strchr (c : UInt8) : List UInt8 → Option (List UInt8 × List UInt8)
  | [] => none
  | x :: s =>
      if x = 0 then none
      else if x = c then some ([], x :: s)
      else (strchr c s).map fun r => (x :: r.1, r.2)

/-- The inner loop of `grep` (grep.c:21-28) from `p`, with `fuel` passes: what it writes,
each line with its `\n`, and the bytes from `p` on once no `\n` is left.  `match` gets the
fuel its recursion needs, the length of the pattern plus one. -/
def lineLoop (pattern : List UInt8) : Nat → List UInt8 →
    Except String (List (List UInt8) × List UInt8)
  | 0, _ => throw "grep: out of fuel"
  | fuel + 1, p =>
      match strchr 10 p with
      | none => pure ([], p)
      | some (line, q) =>
          -- `*q = 0`: the line is the string at `p`
          match matchRe (pattern.length + 1) pattern line with
          | none => throw "match: out of fuel"
          | some found => do
              let (writes, p) ← lineLoop pattern fuel (q.drop 1)
              pure (if found then (line ++ [10]) :: writes else writes, p)

section Grep

variable (devsw : Nat → Option Devsw)

/-- The loop of `grep(pattern, fd)` (grep.c:17-35) on the file `fd` refers to, with `fuel`
passes and the `m` bytes `buf` kept from the pass before: what it writes to fd 1. -/
def grepLoop (pattern : List UInt8) : Nat → File → List UInt8 → Except String (List (List UInt8))
  | 0, _, _ => throw "grep: out of fuel"
  | fuel + 1, f, buf =>
      -- `n = read(fd, buf+m, sizeof(buf)-m-1)`
      let (f, n, dst) := f.fileread devsw (fun _ => 0) ((bufSize - buf.length - 1 : Nat) : Int)
      if n ≤ 0 then pure []
      else do
        let buf := buf ++ (List.range n.toNat).map dst
        let (writes, p) ← lineLoop pattern (buf.length + 1) buf
        -- `if (p == buf) m = 0`, else the bytes from `p` on move to the front
        let rest ← grepLoop pattern fuel f (if p.length = buf.length then [] else p)
        pure (writes ++ rest)

/-- `grep(pattern, fd)` (grep.c:10-36).  A pass of a file of data reads at least one byte,
so the bytes left in it, plus one, are passes enough; a device's bytes are not modelled. -/
def grep (pattern : List UInt8) (f : File) : Except String (List (List UInt8)) :=
  grepLoop devsw pattern (f.ip.size - f.off + 1) f []

end Grep

end Grep

end Xv6
