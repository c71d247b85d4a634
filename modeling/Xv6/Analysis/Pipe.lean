import Xv6.Model.Pipe

/-!
# Pipes are lossless FIFOs across counter wrap

The representation invariant of `struct pipe` is that both counters are `uint`s and
that their machine difference `(nwrite - nread) mod 2^32` is at most `PIPESIZE`.
Under it the bytes in the pipe are the window of `count p` slots from `nread` on
(`Pipe.contents`), and the pipe refines a FIFO queue of bytes:

* a stored byte is appended to the window (`pipewriteByte_stored`);
* `piperead`'s copy loop hands out a prefix of the window and keeps the rest
  (`pipereadCopy_spec`);
* so over any interleaving of steps, the bytes accepted by `pipewrite` are exactly the
  bytes returned by `piperead`, in order, followed by the bytes still in the pipe
  (`pipeRun_accounting`).

The full test `nwrite == nread + PIPESIZE` and the empty test `nread == nwrite` are
evaluated on wrapped counters; they are exact because `PIPESIZE` divides `2^32`
(`full_iff`, `empty_iff`).  `piperead` returns `0` on a non-empty pipe when it is
asked for `0` bytes (`piperead_zero_of_nonempty`), so the claim that it returns `0`
only on an empty, write-closed pipe holds for requests of at least one byte
(`piperead_zero_iff_eof`, `pipe_lossless_fifo`).
-/

set_option autoImplicit false

namespace Xv6

/-- The number of bytes in the pipe: `(nwrite - nread) mod 2^32`. -/
def Pipe.count (p : Pipe) : Nat := RingBuf.dist uintMod p.nwrite p.nread

/-- The bytes in the pipe, oldest first. -/
def Pipe.contents (p : Pipe) : List UInt8 := RingBuf.window p.data pipeSize p.nread p.count

/-- The representation invariant of `struct pipe`. -/
structure PipeInv (p : Pipe) : Prop where
  nread_lt : p.nread < uintMod
  nwrite_lt : p.nwrite < uintMod
  count_le : p.count ≤ pipeSize

/-- INTERNAL: `PIPESIZE` divides the `uint` modulus. -/
theorem pipeSize_dvd : pipeSize ∣ uintMod := ⟨2 ^ 23, by norm_num [pipeSize, uintMod]⟩

/-- INTERNAL: the full test on wrapped counters holds exactly when the pipe holds
`PIPESIZE` bytes.
SOURCE: pipe.c:85 -/
theorem full_iff {p : Pipe} (h : PipeInv p) :
    p.nwrite = (p.nread + pipeSize) % uintMod ↔ p.count = pipeSize := by
  have hr := h.nread_lt
  have hw := h.nwrite_lt
  unfold Pipe.count
  unfold RingBuf.dist
  simp only [pipeSize, uintMod] at *
  constructor
  · intro heq
    by_cases hlt : p.nread + 512 < 2 ^ 32
    · rw [Nat.mod_eq_of_lt hlt] at heq
      split_ifs <;> omega
    · rw [show p.nread + 512 = (p.nread + 512 - 2 ^ 32) + 2 ^ 32 by omega, Nat.add_mod_right,
        Nat.mod_eq_of_lt (by omega)] at heq
      split_ifs <;> omega
  · intro hc
    split_ifs at hc with hle
    · rw [Nat.mod_eq_of_lt (by omega)]
      omega
    · rw [show p.nread + 512 = (p.nread + 512 - 2 ^ 32) + 2 ^ 32 by omega, Nat.add_mod_right,
        Nat.mod_eq_of_lt (by omega)]
      omega

/-- INTERNAL: the empty test holds exactly when the pipe holds no byte.
SOURCE: pipe.c:106, pipe.c:114 -/
theorem empty_iff {p : Pipe} (h : PipeInv p) : p.nread = p.nwrite ↔ p.count = 0 := by
  unfold Pipe.count
  rw [RingBuf.dist_eq_zero_iff h.nread_lt]
  exact eq_comm

/-- Storing a byte into a pipe that is not full keeps the invariant and appends the
byte to the contents.
SOURCE: pipe.c:85-93 -/
theorem pipewriteByte_stored {p p' : Pipe} {b : UInt8} {killed : Bool} (h : PipeInv p)
    (hs : pipewriteByte p b killed = .stored p') :
    PipeInv p' ∧ p'.contents = p.contents ++ [b] := by
  unfold pipewriteByte at hs
  split_ifs at hs with hfull
  cases hs
  have hcount : p.count < pipeSize := by
    have := h.count_le
    have := (full_iff h).not.mp hfull
    omega
  have hcount' : RingBuf.dist uintMod (RingBuf.inc uintMod p.nwrite) p.nread = p.count + 1 :=
    RingBuf.dist_inc_left h.nwrite_lt h.nread_lt (by unfold Pipe.count pipeSize uintMod at *; omega)
  have hslot : p.nwrite % pipeSize = (p.nread + p.count) % pipeSize :=
    (RingBuf.slot_add_dist pipeSize_dvd h.nwrite_lt h.nread_lt).symm
  refine ⟨⟨h.nread_lt, RingBuf.inc_lt (by norm_num [uintMod]) _, ?_⟩, ?_⟩
  · show RingBuf.dist uintMod (RingBuf.inc uintMod p.nwrite) p.nread ≤ pipeSize
    omega
  · unfold Pipe.contents Pipe.count
    simp only
    rw [hcount', hslot]
    exact RingBuf.window_push p.data pipeSize p.nread p.count b hcount

/-- The copy loop of `piperead` for at most `k` bytes keeps the invariant, hands out
the first `min k (count p)` bytes of the contents and leaves the rest; it changes
neither the data nor the open flags.
SOURCE: pipe.c:113-117 -/
theorem pipereadCopy_spec (k : Nat) :
    ∀ p : Pipe, PipeInv p →
      PipeInv (pipereadCopy p k).1 ∧
      p.contents = (pipereadCopy p k).2 ++ (pipereadCopy p k).1.contents ∧
      (pipereadCopy p k).2.length = min k p.count ∧
      (pipereadCopy p k).1.data = p.data ∧
      (pipereadCopy p k).1.nwrite = p.nwrite ∧
      (pipereadCopy p k).1.writeopen = p.writeopen := by
  induction k with
  | zero =>
      intro p h
      rw [pipereadCopy]
      exact ⟨h, (List.nil_append _).symm, (Nat.zero_min _).symm, rfl, rfl, rfl⟩
  | succ k ih =>
      intro p h
      by_cases hempty : p.nread = p.nwrite
      · have h0 : p.count = 0 := (empty_iff h).mp hempty
        rw [pipereadCopy, if_pos hempty, h0, Nat.min_zero]
        exact ⟨h, (List.nil_append _).symm, rfl, rfl, rfl, rfl⟩
      · have hpos : 0 < p.count := by
          have := (empty_iff h).not.mp hempty
          omega
        obtain ⟨c, hc⟩ : ∃ c, p.count = c + 1 := ⟨p.count - 1, by omega⟩
        have hqcount : Pipe.count { p with nread := RingBuf.inc uintMod p.nread } = c := by
          have := RingBuf.dist_inc_right h.nwrite_lt h.nread_lt hpos
          unfold Pipe.count at hc
          rw [hc] at this
          exact this
        have hqinv : PipeInv { p with nread := RingBuf.inc uintMod p.nread } :=
          ⟨RingBuf.inc_lt (by norm_num [uintMod]) _, h.nwrite_lt, by
            have := h.count_le
            omega⟩
        obtain ⟨hinv, hcont, hlen, hdata, hnw, hwo⟩ := ih _ hqinv
        rw [pipereadCopy, if_neg hempty]
        refine ⟨hinv, ?_, ?_, hdata, hnw, hwo⟩
        · -- the front byte is the slot of `nread`; the rest is the window one further on
          have hfront : p.contents = p.data (p.nread % pipeSize) ::
              Pipe.contents { p with nread := RingBuf.inc uintMod p.nread } := by
            unfold Pipe.contents
            rw [hqcount, hc]
            exact RingBuf.window_pop p.data pipeSize_dvd h.nread_lt c
          rw [hfront, hcont, List.cons_append]
        · rw [List.length_cons, hlen, hqcount, hc]
          omega

/-- A `piperead` attempt that returns keeps the invariant and hands out a prefix of
the contents, leaving the rest.
SOURCE: pipe.c:100-121 -/
theorem piperead_done {p p' : Pipe} {n : Int} {killed : Bool} {bytes : List UInt8}
    (h : PipeInv p) (hd : piperead p n killed = .done p' bytes) :
    PipeInv p' ∧ p.contents = bytes ++ p'.contents := by
  unfold piperead at hd
  split_ifs at hd
  cases hd
  obtain ⟨hinv, hcont, -⟩ := pipereadCopy_spec n.toNat p h
  exact ⟨hinv, hcont⟩

/-- INTERNAL: closing an end changes neither the counters nor the data. -/
theorem pipeclose_inv {p : Pipe} (h : PipeInv p) (writable : Bool) :
    PipeInv (pipeclose p writable) ∧ (pipeclose p writable).contents = p.contents := by
  unfold pipeclose
  cases writable
  · exact ⟨⟨h.nread_lt, h.nwrite_lt, h.count_le⟩, rfl⟩
  · exact ⟨⟨h.nread_lt, h.nwrite_lt, h.count_le⟩, rfl⟩

/-- Every step keeps the invariant, and moves bytes through the pipe as a FIFO: the
contents before, followed by what the step accepts, is what it returns followed by
the contents after. -/
theorem pipeStep_spec (p : Pipe) (op : PipeOp) (h : PipeInv p) :
    PipeInv (pipeStep p op).1 ∧
    p.contents ++ (pipeStep p op).2.accepted? =
      (pipeStep p op).2.returned? ++ (pipeStep p op).1.contents := by
  cases op with
  | write b killed =>
      cases hw : pipewriteByte p b killed with
      | stored p' =>
          obtain ⟨hinv, hcont⟩ := pipewriteByte_stored h hw
          simp only [pipeStep, hw, PipeOut.accepted?, PipeOut.returned?, List.nil_append]
          exact ⟨hinv, hcont.symm⟩
      | sleep => simp [pipeStep, hw, PipeOut.accepted?, PipeOut.returned?, h]
      | fail => simp [pipeStep, hw, PipeOut.accepted?, PipeOut.returned?, h]
  | read n killed =>
      cases hr : piperead p n killed with
      | done p' bytes =>
          obtain ⟨hinv, hcont⟩ := piperead_done h hr
          simp only [pipeStep, hr, PipeOut.accepted?, PipeOut.returned?, List.append_nil]
          exact ⟨hinv, hcont⟩
      | sleep => simp [pipeStep, hr, PipeOut.accepted?, PipeOut.returned?, h]
      | fail => simp [pipeStep, hr, PipeOut.accepted?, PipeOut.returned?, h]
  | close writable =>
      obtain ⟨hinv, hcont⟩ := pipeclose_inv h writable
      simp only [pipeStep, PipeOut.accepted?, PipeOut.returned?, List.nil_append, List.append_nil]
      exact ⟨hinv, hcont.symm⟩

/-- INTERNAL: a freshly allocated pipe satisfies the invariant and is empty. -/
theorem pipealloc_inv (junk : Nat → UInt8) :
    PipeInv (pipealloc junk) ∧ (pipealloc junk).contents = [] := by
  refine ⟨⟨by norm_num [pipealloc, uintMod], by norm_num [pipealloc, uintMod], ?_⟩, ?_⟩
  · simp [Pipe.count, pipealloc, RingBuf.dist]
  · simp [Pipe.contents, Pipe.count, pipealloc, RingBuf.dist]

/-- All bytes accepted by `pipewrite` iterations of a run, in order. -/
def acceptedBytes (ops : List PipeOp) (outs : List PipeOut) : List UInt8 :=
  ((ops.zip outs).map fun e => e.2.accepted?).flatten

/-- All bytes returned by `piperead` calls of a run, in order. -/
def returnedBytes (ops : List PipeOp) (outs : List PipeOut) : List UInt8 :=
  ((ops.zip outs).map fun e => e.2.returned?).flatten

/-- Over every run from `pipealloc`, the invariant holds and the bytes accepted are
exactly the bytes returned followed by the bytes still in the pipe. -/
theorem pipeRun_accounting (junk : Nat → UInt8) (ops : List PipeOp) :
    PipeInv (pipeRun (pipealloc junk) ops).1 ∧
    acceptedBytes ops (pipeRun (pipealloc junk) ops).2 =
      returnedBytes ops (pipeRun (pipealloc junk) ops).2 ++
        (pipeRun (pipealloc junk) ops).1.contents := by
  obtain ⟨hinit, hempty⟩ := pipealloc_inv junk
  have hstep : ∀ p op, PipeInv p → PipeInv (pipeStep p op).1 := fun p op h =>
    (pipeStep_spec p op h).1
  refine ⟨Run.run_inv pipeStep PipeInv hstep _ hinit ops, ?_⟩
  have hcons := Run.run_conserve pipeStep PipeInv Pipe.contents
    (fun _ out => out.accepted?) (fun _ out => out.returned?) hstep
    (fun p op h => (pipeStep_spec p op h).2) _ hinit ops
  rw [hempty, List.nil_append] at hcons
  exact hcons

/-- With at least one byte requested, a `piperead` attempt on a pipe satisfying the
invariant returns `0` only when the pipe is empty and its write end is closed.
SOURCE: pipe.c:106-120 -/
theorem piperead_zero_iff_eof {p p' : Pipe} {n : Int} {killed : Bool} (h : PipeInv p)
    (hn : 1 ≤ n) (hd : piperead p n killed = .done p' []) :
    p.nread = p.nwrite ∧ p.writeopen = false := by
  unfold piperead at hd
  split_ifs at hd with hwait
  simp only [ReadStep.done.injEq] at hd
  obtain ⟨-, hbytes⟩ := hd
  obtain ⟨-, -, hlen, -⟩ := pipereadCopy_spec n.toNat p h
  have hcount : p.count = 0 := by
    rw [hbytes, List.length_nil] at hlen
    omega
  have hempty : p.nread = p.nwrite := (empty_iff h).mpr hcount
  refine ⟨hempty, ?_⟩
  cases hwo : p.writeopen
  · rfl
  · exact absurd ⟨hempty, hwo⟩ hwait

/-- Pipes are lossless FIFOs across counter wrap, for every interleaving of steps from
`pipealloc`: `(nwrite - nread) mod 2^32` stays in `[0, PIPESIZE]`; the bytes returned
by `piperead`, in order, followed by the bytes still in the pipe, are exactly the
bytes accepted by `pipewrite`, so the bytes returned are a prefix of the bytes
accepted; and a `piperead` for at least one byte returns `0` only when the pipe is
empty and the write end closed. -/
theorem pipe_lossless_fifo (junk : Nat → UInt8) (ops : List PipeOp) :
    (pipeRun (pipealloc junk) ops).1.count ≤ pipeSize ∧
    acceptedBytes ops (pipeRun (pipealloc junk) ops).2 =
      returnedBytes ops (pipeRun (pipealloc junk) ops).2 ++
        (pipeRun (pipealloc junk) ops).1.contents ∧
    returnedBytes ops (pipeRun (pipealloc junk) ops).2 <+:
      acceptedBytes ops (pipeRun (pipealloc junk) ops).2 ∧
    ∀ (n : Int) (killed : Bool) (p' : Pipe), 1 ≤ n →
      piperead (pipeRun (pipealloc junk) ops).1 n killed = .done p' [] →
        (pipeRun (pipealloc junk) ops).1.nread = (pipeRun (pipealloc junk) ops).1.nwrite ∧
        (pipeRun (pipealloc junk) ops).1.writeopen = false := by
  obtain ⟨hinv, hacc⟩ := pipeRun_accounting junk ops
  refine ⟨hinv.count_le, hacc, ?_, ?_⟩
  · rw [hacc]
    exact List.prefix_append _ _
  · intro n killed p' hn hd
    exact piperead_zero_iff_eof hinv hn hd

/-- A zero-length `piperead` on a pipe holding one byte returns `0`: the pipe is
not empty and its write end is open. -/
theorem piperead_zero_of_nonempty :
    piperead (pipeRun (pipealloc fun _ => 0) [.write 7 false]).1 0 false =
        .done (pipeRun (pipealloc fun _ => 0) [.write 7 false]).1 [] ∧
      (pipeRun (pipealloc fun _ => 0) [.write 7 false]).1.nread ≠
        (pipeRun (pipealloc fun _ => 0) [.write 7 false]).1.nwrite ∧
      (pipeRun (pipealloc fun _ => 0) [.write 7 false]).1.writeopen = true := by
  refine ⟨?_, ?_, ?_⟩ <;>
    simp [piperead, pipeRun, Run.run, pipeStep, pipewriteByte, pipealloc, pipereadCopy, pipeSize,
      uintMod, RingBuf.inc]

end Xv6
