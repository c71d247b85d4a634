import Xv6.Analysis.Shrink

/-!
# The size of a process and the checks on user addresses

Every check of `fetchint`, `fetchstr` and `argptr` compares a user address with the size
`sz` of the calling process, so they keep the kernel's memory out of reach only while
`sz ≤ KERNBASE`.  `sys_sbrk` raises `sz` by any non-negative `n` without a check: from a
size at most `KERNBASE`, one call takes it past `KERNBASE`, and `fetchint` then accepts
the word at `KERNBASE`, the first byte of the kernel's own mapping
(`sysSbrk_passes_kernbase`).

`sys_state` checks, with `argptr`, only the two 4-byte cells that hold its destination
pointers.  `procdumpWrite` then stores a record for every process in use through the
pointer read from the first cell, wherever it points: into page 0, above `sz`, or into
the kernel (`sysState_stores_through_unchecked_pointer`).
-/

set_option autoImplicit false

namespace Xv6

section Sbrk

variable (kernEnd : Nat) (peek : Nat → Int)

/-- `sbrk` of a non-negative `n` adds it to `sz`, modulo `2^32`, and returns the old
size. -/
theorem sysSbrk_of_nonneg (s : Vm) (cur : Fin nproc) {n : Int} (h : 0 ≤ n) :
    sysSbrk kernEnd s cur n =
      .ok (s.setSz cur (((s.proc cur).sz + toUint n) % uintMod), toInt (s.proc cur).sz) := by
  simp [sysSbrk, h, pure, Except.pure]

/-- `fetchint` accepts exactly the words that end inside the process, below `2^32`. -/
theorem fetchint_eq_some {sz addr : Nat} (h : addr + 4 ≤ sz) (hsz : sz < uintMod) :
    fetchint peek sz addr = some (peek addr) := by
  have hlt : ¬(addr ≥ sz ∨ (addr + 4) % uintMod > sz) := by
    rw [Nat.mod_eq_of_lt (by omega)]
    omega
  simp [fetchint, hlt]

/-- **`sbrk` takes a process past `KERNBASE`.**  From a size at most `KERNBASE`, a
non-negative `int` that brings the size to at least `KERNBASE + 4` is added without a
check; the new size lies above `KERNBASE`, and `fetchint` accepts the `int` at
`KERNBASE`. -/
theorem sysSbrk_passes_kernbase (s : Vm) (cur : Fin nproc) (n : Int) (hn : n < 2 ^ 31)
    (hsz : (s.proc cur).sz ≤ kernbase) (hover : (kernbase : Int) + 4 ≤ (s.proc cur).sz + n) :
    ∃ s', sysSbrk kernEnd s cur n = .ok (s', toInt (s.proc cur).sz) ∧
      kernbase < (s'.proc cur).sz ∧ fetchint peek (s'.proc cur).sz kernbase = some (peek kernbase) := by
  unfold kernbase at hsz hover
  have hn0 : 0 ≤ n := by omega
  have hu : toUint n = n.toNat := toUint_of_nonneg hn0 (by rw [uintMod_eq]; omega)
  -- the sum does not wrap: both terms are below `2^31`
  have hnew : ((s.proc cur).sz + toUint n) % uintMod = (s.proc cur).sz + n.toNat := by
    rw [hu, Nat.mod_eq_of_lt (by rw [uintMod_eq]; omega)]
  refine ⟨_, sysSbrk_of_nonneg kernEnd s cur hn0, ?_, ?_⟩
  · rw [Vm.setSz_proc_self, hnew]
    unfold kernbase
    omega
  · rw [Vm.setSz_proc_self, hnew]
    exact fetchint_eq_some peek (by unfold kernbase; omega) (by rw [uintMod_eq]; omega)

end Sbrk

/-- A `uint` converted from an `int` is below `2^32`. -/
theorem toUint_lt_uintMod (x : Int) : toUint x < uintMod := by
  have hpos : (0 : Int) < uintMod := by rw [uintMod_eq]; decide
  have hlt := Int.emod_lt_of_pos x hpos
  have hnn := Int.emod_nonneg x hpos.ne'
  unfold toUint
  omega

section State

variable (peek : Nat → Int)

/-- The first process in use fills record 0 of `pi_arr`, whose `pid` is stored at
`pi_arr` itself. -/
theorem procinfoLoop_first (piArr : Nat) (procs : List (ProcState × (Nat → Bool)))
    (hlive : ∃ p ∈ procs, p.1 ≠ .unused) : (piArr % uintMod, 4) ∈ procinfoLoop piArr 0 procs := by
  induction procs with
  | nil => simp at hlive
  | cons p ps ih =>
      obtain ⟨st, isInode⟩ := p
      by_cases hst : st = .unused
      · -- an unused slot writes nothing and keeps the record index at 0
        have hlive' : ∃ q ∈ ps, q.1 ≠ .unused := by
          obtain ⟨q, hq, hqu⟩ := hlive
          rcases List.mem_cons.mp hq with rfl | hq
          · exact absurd hst hqu
          · exact ⟨q, hq, hqu⟩
        simpa [procinfoLoop, hst] using ih hlive'
      · simp [procinfoLoop, hst, procinfoStores]

/-- **`sys_state` stores through a pointer it never checked.**  Whenever the two pointer
cells pass `argptr` and some process is in use, the kernel stores the `pid` of the first
one at the address read from the first cell, also when that address lies outside
`[PGSIZE, sz)`. -/
theorem sysState_stores_through_unchecked_pointer (sz esp c0 c1 : Nat)
    (procs : List (ProcState × (Nat → Bool))) (cpus : List Bool)
    (h0 : argptr peek sz esp 0 4 = .ok c0) (h1 : argptr peek sz esp 1 4 = .ok c1)
    (hlive : ∃ p ∈ procs, p.1 ≠ .unused)
    (hout : ¬(pgsize ≤ toUint (peek c0) ∧ toUint (peek c0) < sz)) :
    ∃ stores, sysState peek sz esp procs cpus = .ok stores ∧
      ∃ st ∈ stores, ¬(pgsize ≤ st.1 ∧ st.1 < sz) := by
  have hpid := procinfoLoop_first (toUint (peek c0)) procs hlive
  rw [Nat.mod_eq_of_lt (toUint_lt_uintMod _)] at hpid
  refine ⟨procdumpWrite (toUint (peek c0)) (toUint (peek c1)) procs cpus, by simp [sysState, h0, h1],
    (toUint (peek c0), 4), List.mem_append_left _ hpid, hout⟩

end State

/-- A process of three pages whose first argument cell holds a pointer to `KERNLINK`,
the start of the kernel's code. -/
def statePeek : Nat → Int := fun a =>
  if a = 0x2ff4 then 0x2000 else if a = 0x2ff8 then 0x2004
  else if a = 0x2000 then 0x80100000 - 2 ^ 32 else 0x1000

/-- `state` from that process, one process running: the kernel writes its record at
`KERNLINK`. -/
theorem sys_state_writes_kernel_code :
    ∃ stores, sysState statePeek 0x3000 0x2ff0 [(.running, fun _ => false)] [true] = .ok stores ∧
      ∃ st ∈ stores, ¬(pgsize ≤ st.1 ∧ st.1 < 0x3000) :=
  sysState_stores_through_unchecked_pointer statePeek 0x3000 0x2ff0 0x2000 0x2004
    [(.running, fun _ => false)] [true]
    (by unfold argptr argint fetchint toUint; rw [uintMod_eq]; decide)
    (by unfold argptr argint fetchint toUint; rw [uintMod_eq]; decide)
    ⟨_, List.mem_singleton_self _, by decide⟩
    (by unfold toUint; rw [uintMod_eq]; decide)

/-- A process of one page calls `sbrk(INT_MAX)`. -/
theorem sbrk_int_max_of_one_page_passes_kernbase :
    ∃ s', sysSbrk 0 (faultDemo 0x1000 0 0) ⟨0, by decide⟩ 0x7fffffff = .ok (s', toInt 0x1000) ∧
      kernbase < (s'.proc ⟨0, by decide⟩).sz ∧
      fetchint (fun _ => 0) (s'.proc ⟨0, by decide⟩).sz kernbase = some 0 :=
  (sysSbrk_passes_kernbase 0 (fun _ => 0) (faultDemo 0x1000 0 0) ⟨0, by decide⟩ 0x7fffffff
    (by decide) (by decide) (by decide) :)

end Xv6
