import Xv6.Model.Grep

/-!
# The shell's command parser (sh.c:274-508)

`parsecmd` and the recursive descent under it: `parseline`, `parsepipe`, `parseexec`,
`parseblock` and `parseredirs`, over the tokens of `gettoken` and the look-ahead of `peek`.
As in `Xv6.Model.Path`, the pointer `*ps` into the buffer is the text from it on, up to
`es`; the end of that list is `es`, where the C reads the `NUL`.  The loops
`while (s < es && ...) s++` are `List.dropWhile` on that text.  `gettoken` sets `*q` and
`*eq` to offsets into the buffer, `es` less the length of the text from them on.

A parsed command is the tree of the structs the constructors `malloc` (`Cmd`), whose
strings are the offsets `(q, eq)` of their tokens.  `parseexec` fills the `argv` of its
`execcmd` through `cmd` after `parseredirs` has wrapped `redircmd`s around it through
`ret`; the model gathers the words and the redirections and wraps them at the end
(`wrap`), which builds the same tree.  `nulterminate` then writes a `NUL` at the end of
every string, in the buffer.

The recursion of the four parsing functions, and the two loops over `&` and the words,
run on `fuel` and fail with `outOfFuel` when it runs out; `Xv6.Analysis.Shell` shows that
the fuel `parsecmd` gives never does.  `malloc` is not modelled (the shell would fault on
its `0`), nor is `runcmd`, which forks and execs.
-/

set_option autoImplicit false

namespace Xv6

namespace Shell

/-- `whitespace` (sh.c:277): `" \t\r\n\v"`. -/
def whitespace : List UInt8 := [32, 9, 13, 10, 11]

/-- `symbols` (sh.c:278): `"<|>&;()"`. -/
def symbols : List UInt8 := [60, 124, 62, 38, 59, 40, 41]

/-- `MAXARGS` (sh.c:14). -/
def maxargs : Nat := 10

/-- `O_RDONLY` (fcntl.h). -/
def oRdonly : Nat := 0

/-- `O_WRONLY` (fcntl.h). -/
def oWronly : Nat := 1

/-- `O_CREATE` (fcntl.h). -/
def oCreate : Nat := 0x200

/-- The failure of a parse that ran out of fuel; the C has none. -/
def outOfFuel : String := "sh: out of fuel"

/-- `strchr(s, c) != 0` (ulib.c:43-50) for a constant string `s`. -/
def hasChar (s : List UInt8) (c : UInt8) : Bool := (Grep.strchr c s).isSome

/-- `while(s < es && strchr(whitespace, *s)) s++` (sh.c:287-288, 319-320, 331-332). -/
def skipWhitespace (t : List UInt8) : List UInt8 := t.dropWhile (hasChar whitespace)

/-- `while(s < es && !strchr(whitespace, *s) && !strchr(symbols, *s)) s++` (sh.c:312-313). -/
def skipWord (t : List UInt8) : List UInt8 :=
  t.dropWhile fun c => !hasChar whitespace c && !hasChar symbols c

/-- The `switch(*s)` of `gettoken` (sh.c:292-316): the token at the pointer and the text
after it.  `>>` is the token `+`, and any other byte starts a word, `a`. -/
def gettokenSwitch : List UInt8 → UInt8 × List UInt8
  | [] => (0, [])
  | c :: u =>
      if c = 0 then (0, c :: u)
      else if c ∈ [124, 40, 41, 59, 38, 60] then (c, u)
      -- `s++; if(*s == '>') { ret = '+'; s++; }`
      else if c = 62 then if u.headD 0 = 62 then (43, u.drop 1) else (62, u)
      else (97, skipWord (c :: u))

/-- `gettoken(ps, es, q, eq)` (sh.c:280-323) on the text from `*ps`: the token, the offsets
`*q` and `*eq` of its first byte and of the byte after it, and the text from the new `*ps`. -/
def gettoken (es : Nat) (t : List UInt8) : UInt8 × Nat × Nat × List UInt8 :=
  let s := skipWhitespace t
  let (ret, s') := gettokenSwitch s
  (ret, es - s.length, es - s'.length, skipWhitespace s')

/-- `peek(ps, es, toks)` (sh.c:325-335): whether the byte after the whitespace is one of
`toks`, and the text from the new `*ps`. -/
def peek (t toks : List UInt8) : Bool × List UInt8 :=
  let s := skipWhitespace t
  (s.headD 0 != 0 && hasChar toks (s.headD 0), s)

/-- The fields of a `struct redircmd` (sh.c:26-33) other than `type` and `cmd`. -/
structure Redir where
  /-- `file`, the offset of the file's name. -/
  file : Nat
  /-- `efile`, the offset of the byte after it. -/
  efile : Nat
  mode : Nat
  fd : Nat
  deriving DecidableEq, Repr

/-- A parsed command (sh.c:16-50): its `type` is the constructor, and an `execcmd` holds
`argv[i]` and `eargv[i]` for the `i` before the terminating `0`. -/
inductive Cmd where
  | exec (argv : List (Nat × Nat))
  | redir (cmd : Cmd) (r : Redir)
  | pipe (left right : Cmd)
  | list (left right : Cmd)
  | back (cmd : Cmd)
  deriving DecidableEq, Repr

/-- The `redircmd`s of `rs` around `cmd`, the first of them innermost. -/
def wrap (cmd : Cmd) (rs : List Redir) : Cmd := rs.foldl Cmd.redir cmd

/-- The loop of `parseredirs(cmd, ps, es)` (sh.c:389-412), with at most `fuel` passes: the
redirections `rs` so far, then those it reads. -/
def parseredirs (es : Nat) : Nat → List Redir → List UInt8 → Except String (List Redir × List UInt8)
  | 0, _, _ => throw outOfFuel
  | fuel + 1, rs, t =>
      let (more, t) := peek t [60, 62]
      if more then
        let (tok, _, _, t) := gettoken es t
        let (ret, q, eq, t) := gettoken es t
        if ret ≠ 97 then throw "missing file for redirection"
        else
          -- `switch(tok)`: `>>` opens the file as `>` does
          let rs := if tok = 60 then rs ++ [⟨q, eq, oRdonly, 0⟩]
            else if tok = 62 ∨ tok = 43 then rs ++ [⟨q, eq, oWronly ||| oCreate, 1⟩]
            else rs
          parseredirs es fuel rs t
      else pure (rs, t)

/-- The loop `while(peek(ps, es, "&"))` of `parseline` (sh.c:365-368): a `backcmd` around
the command for each `&`. -/
def parselineBacks (es : Nat) : Nat → Cmd → List UInt8 → Except String (Cmd × List UInt8)
  | 0, _, _ => throw outOfFuel
  | fuel + 1, cmd, t =>
      let (more, t) := peek t [38]
      if more then
        let (_, _, _, t) := gettoken es t
        parselineBacks es fuel (.back cmd) t
      else pure (cmd, t)

/-- The loop `while(!peek(ps, es, "|)&;"))` of `parseexec` (sh.c:446-457): the words
`argv` so far and the redirections `rs` so far, then those it reads. -/
def parseexecLoop (es : Nat) : Nat → List (Nat × Nat) → List Redir → List UInt8 →
    Except String ((List (Nat × Nat) × List Redir) × List UInt8)
  | 0, _, _, _ => throw outOfFuel
  | fuel + 1, argv, rs, t =>
      let (stop, t) := peek t [124, 41, 38, 59]
      if stop then pure ((argv, rs), t)
      else
        let (tok, q, eq, t) := gettoken es t
        if tok = 0 then pure ((argv, rs), t)
        else if tok ≠ 97 then throw "syntax"
        else
          let argv := argv ++ [(q, eq)]
          if maxargs ≤ argv.length then throw "too many args"
          else do
            let (rs, t) ← parseredirs es fuel rs t
            parseexecLoop es fuel argv rs t

mutual

/-- `parseline(ps, es)` (sh.c:359-374). -/
def parseline (es : Nat) : Nat → List UInt8 → Except String (Cmd × List UInt8)
  | 0, _ => throw outOfFuel
  | fuel + 1, t => do
      let (cmd, t) ← parsepipe es fuel t
      let (cmd, t) ← parselineBacks es fuel cmd t
      let (more, t) := peek t [59]
      if more then
        let (_, _, _, t) := gettoken es t
        let (right, t) ← parseline es fuel t
        pure (.list cmd right, t)
      else pure (cmd, t)

/-- `parsepipe(ps, es)` (sh.c:376-387). -/
def parsepipe (es : Nat) : Nat → List UInt8 → Except String (Cmd × List UInt8)
  | 0, _ => throw outOfFuel
  | fuel + 1, t => do
      let (cmd, t) ← parseexec es fuel t
      let (more, t) := peek t [124]
      if more then
        let (_, _, _, t) := gettoken es t
        let (right, t) ← parsepipe es fuel t
        pure (.pipe cmd right, t)
      else pure (cmd, t)

/-- `parseblock(ps, es)` (sh.c:414-428). -/
def parseblock (es : Nat) : Nat → List UInt8 → Except String (Cmd × List UInt8)
  | 0, _ => throw outOfFuel
  | fuel + 1, t => do
      let (lp, t) := peek t [40]
      if !lp then throw "parseblock"
      else
        let (_, _, _, t) := gettoken es t
        let (cmd, t) ← parseline es fuel t
        let (rp, t) := peek t [41]
        if !rp then throw "syntax - missing )"
        else
          let (_, _, _, t) := gettoken es t
          let (rs, t) ← parseredirs es fuel [] t
          pure (wrap cmd rs, t)

/-- `parseexec(ps, es)` (sh.c:430-461). -/
def parseexec (es : Nat) : Nat → List UInt8 → Except String (Cmd × List UInt8)
  | 0, _ => throw outOfFuel
  | fuel + 1, t => do
      let (lp, t) := peek t [40]
      if lp then parseblock es fuel t
      else
        let (rs, t) ← parseredirs es fuel [] t
        let ((argv, rs), t) ← parseexecLoop es fuel [] rs t
        pure (wrap (.exec argv) rs, t)

end

/-- `nulterminate(cmd)` (sh.c:463-508): a `NUL` written in the buffer `m` at the end of
every string of the command. -/
def nulterminate : Cmd → List UInt8 → List UInt8
  | .exec argv, m => argv.foldl (fun m a => m.set a.2 0) m
  | .redir cmd r, m => (nulterminate cmd m).set r.efile 0
  | .pipe left right, m => nulterminate right (nulterminate left m)
  | .list left right, m => nulterminate right (nulterminate left m)
  | .back cmd, m => nulterminate cmd m

/-- `parsecmd(s)` (sh.c:342-357) on the buffer `buf`: the command and the buffer after
`nulterminate`.  The fuel is four passes for each byte of the string and four more.  The
`printf` of the leftovers before the panic prints only. -/
def parsecmd (buf : List UInt8) : Except String (Cmd × List UInt8) := do
  let s := buf.takeWhile (· ≠ 0)
  let es := s.length
  let (cmd, t) ← parseline es (4 * es + 4) s
  let (_, t) := peek t []
  if t = [] then pure (cmd, nulterminate cmd buf)
  else throw "syntax"

end Shell

end Xv6
