import Xv6.Model.Param
import Xv6.Lib.RingBuf
import Xv6.Lib.Run

/-!
# Console input (console.c)

The input ring `input` with its three free-running `uint` indices, the line
discipline of `consoleintr` and the copy loop of `consoleread`.  Every step runs
under `cons.lock`:

* `consoleintrChar` handles one character returned by `getc` in `consoleintr`'s loop;
* `consolereadStep` is one iteration of `consoleread`'s outer loop for one call: it
  either returns, or sleeps on an empty ring, or takes one character.

A call of `consoleread` keeps its own `n`, `target` and destination (`ReadCall`);
several calls may be in flight and interleave with the interrupt handler
(`ConsSys`, `consStep`).  Output to the screen (`consputc`) and `procdump` do not
touch the ring and are not modelled.
-/

set_option autoImplicit false

namespace Xv6

/-- `INPUT_BUF` (console.c:182). -/
def inputBuf : Nat := 128

/-- `C(x)`, the control character of `x` (console.c:190). -/
def ctrl (x : Char) : UInt8 := UInt8.ofNat (x.toNat - '@'.toNat)

/-- `BACKSPACE`-class keys, `\x7f`. -/
def delKey : UInt8 := 0x7f

/-- The input ring `input` (console.c:183-188). -/
structure Input where
  /-- `buf[INPUT_BUF]`, indexed by slot. -/
  buf : Nat → UInt8
  /-- `r`: read index. -/
  r : Nat
  /-- `w`: write index; bytes below it are committed. -/
  w : Nat
  /-- `e`: edit index; bytes in `[w, e)` are the line being edited. -/
  e : Nat

/-- The zero-initialised static `input`. -/
def Input.init : Input := { buf := fun _ => 0, r := 0, w := 0, e := 0 }

/-- The `^U` loop (console.c:204-208): erase back to the last newline, never below `w`.
The loop moves `e` one step towards `w` per iteration, so `fuel = (e - w) mod 2^32`
iterations always suffice. -/
def killLine (inp : Input) : Nat → Input
  | 0 => inp
  | fuel + 1 =>
      if inp.e ≠ inp.w ∧ inp.buf (RingBuf.dec uintMod inp.e % inputBuf) ≠ '\n'.toUInt8 then
        killLine { inp with e := RingBuf.dec uintMod inp.e } fuel
      else inp

/-- `input.buf[input.e++ % INPUT_BUF] = c` (console.c:218). -/
def Input.store (inp : Input) (c : UInt8) : Input :=
  { inp with buf := RingBuf.write inp.buf (inp.e % inputBuf) c, e := RingBuf.inc uintMod inp.e }

/-- `input.w = input.e` (console.c:221). -/
def Input.commit (inp : Input) : Input := { inp with w := inp.e }

/-- One character `c` of `consoleintr`'s loop (console.c:198-228). -/
def consoleintrChar (inp : Input) (c : UInt8) : Input :=
  if c = ctrl 'P' then inp
  else if c = ctrl 'U' then killLine inp (RingBuf.dist uintMod inp.e inp.w)
  else if c = ctrl 'H' ∨ c = delKey then
    if inp.e ≠ inp.w then { inp with e := RingBuf.dec uintMod inp.e } else inp
  else if c ≠ 0 ∧ RingBuf.dist uintMod inp.e inp.r < inputBuf then
    let c' := if c = '\r'.toUInt8 then '\n'.toUInt8 else c
    let inp' := inp.store c'
    if c' = '\n'.toUInt8 ∨ c' = ctrl 'D' ∨ inp'.e = (inp'.r + inputBuf) % uintMod then inp'.commit
    else inp'
  else inp

/-- The local state of one `consoleread` call (console.c:236-271). -/
structure ReadCall where
  /-- `n`: bytes still wanted. -/
  n : Int
  /-- `target`: the `n` the call started with. -/
  target : Int
  /-- The bytes copied to `dst` so far. -/
  dst : List UInt8

/-- A call of `consoleread(ip, dst, n)` as it enters its loop. -/
def consolereadStart (n : Int) : ReadCall := { n := n, target := n, dst := [] }

/-- What one iteration of `consoleread`'s loop does. -/
inductive ConsReadStep where
  /-- The call returns `target - n`; the ring may have moved. -/
  | done (inp : Input) (ret : Int) (dst : List UInt8)
  /-- One character was copied and the loop goes on. -/
  | next (inp : Input) (call : ReadCall)
  /-- The ring is empty: sleep on `input.r`. -/
  | sleep
  /-- The ring is empty and the caller was killed: `return -1`. -/
  | fail

/-- `input.buf[input.r % INPUT_BUF]`, the byte at the read index. -/
def Input.front (inp : Input) : UInt8 := inp.buf (inp.r % inputBuf)

/-- `input.r++`. -/
def Input.pop (inp : Input) : Input := { inp with r := RingBuf.inc uintMod inp.r }

/-- One iteration of `consoleread`'s loop (console.c:244-266). -/
def consolereadStep (inp : Input) (call : ReadCall) (killed : Bool) : ConsReadStep :=
  if call.n ≤ 0 then .done inp (call.target - call.n) call.dst
  else if inp.r = inp.w then (if killed then .fail else .sleep)
  else
    let c := inp.front
    let inp' := inp.pop
    if c = ctrl 'D' then
      -- a `^D` after some bytes is pushed back for the next call
      if call.n < call.target then
        .done { inp' with r := RingBuf.dec uintMod inp'.r } (call.target - call.n) call.dst
      else .done inp' (call.target - call.n) call.dst
    else
      let call' := { call with n := call.n - 1, dst := call.dst ++ [c] }
      if c = '\n'.toUInt8 then .done inp' (call'.target - call'.n) call'.dst
      else .next inp' call'

/-- The console: the ring and the `consoleread` calls in flight, by caller. -/
structure ConsSys where
  inp : Input
  calls : Nat → Option ReadCall

/-- The console before any input. -/
def ConsSys.init : ConsSys := { inp := Input.init, calls := fun _ => none }

/-- One atomic step on the console. -/
inductive ConsOp where
  /-- `consoleintr` handles the character `c`. -/
  | intr (c : UInt8)
  /-- Caller `i` enters `consoleread` for `n` bytes. -/
  | start (i : Nat) (n : Int)
  /-- Caller `i`'s call runs one iteration of its loop. -/
  | step (i : Nat) (killed : Bool)

/-- What a step shows: the bytes it moved below `w` (a line `consoleintr` commits),
the bytes it moved `r` past, the bytes it copied to a caller, and the value a call
returned. -/
structure ConsOut where
  committed : List UInt8
  taken : List UInt8
  copied : List UInt8
  ret : Option Int

/-- The output of a step that moves no index, copies nothing and returns nothing. -/
def ConsOut.none : ConsOut := { committed := [], taken := [], copied := [], ret := Option.none }

/-- The output of a step that takes the ring from `inp` to `inp'`: `w` and `r` only
move forwards, so what they passed over is a window of the ring. -/
def ConsOut.ofMove (inp inp' : Input) (copied : List UInt8) (ret : Option Int) : ConsOut :=
  { committed := RingBuf.window inp'.buf inputBuf inp.w (RingBuf.dist uintMod inp'.w inp.w)
    taken := RingBuf.window inp.buf inputBuf inp.r (RingBuf.dist uintMod inp'.r inp.r)
    copied := copied
    ret := ret }

/-- Set caller `i`'s call. -/
def ConsSys.setCall (s : ConsSys) (i : Nat) (c : Option ReadCall) : ConsSys :=
  { s with calls := fun j => if j = i then c else s.calls j }

/-- One step of the console. -/
def consStep (s : ConsSys) : ConsOp → ConsSys × ConsOut
  | .intr c =>
      ({ s with inp := consoleintrChar s.inp c },
        ConsOut.ofMove s.inp (consoleintrChar s.inp c) [] Option.none)
  | .start i n =>
      match s.calls i with
      | some _ => (s, ConsOut.none)
      | none => (s.setCall i (some (consolereadStart n)), ConsOut.none)
  | .step i killed =>
      match s.calls i with
      | none => (s, ConsOut.none)
      | some call =>
          match consolereadStep s.inp call killed with
          | .done inp' ret dst =>
              ({ s.setCall i Option.none with inp := inp' },
                ConsOut.ofMove s.inp inp' (dst.drop call.dst.length) (some ret))
          | .next inp' call' =>
              ({ s.setCall i (some call') with inp := inp' },
                ConsOut.ofMove s.inp inp' (call'.dst.drop call.dst.length) Option.none)
          | .sleep => (s, ConsOut.none)
          | .fail => (s.setCall i Option.none, { ConsOut.none with ret := some (-1) })

/-- Run a list of steps on the console. -/
def consRun (s : ConsSys) (ops : List ConsOp) : ConsSys × List ConsOut :=
  Run.run consStep s ops

end Xv6
