import Xv6.Model.Log
import Xv6.Lib.Store
import Xv6.Lib.Run

/-!
# The log makes transactions crash-atomic

Every `bwrite` of `write_log` and `install_trans` copies one cached block to another
(`copyBlock`).  As long as no copy reads a block that an earlier copy of the same loop
wrote, a loop of copies writes the values its sources held when it started
(`foldl_copyBlock`), so the disk after any prefix of `commit` has a closed form
(`commitCrash_logging`, `commitCrash_installing`, `commitCrash_done`), and so does
recovery (`recoverFromLog_eq`).

With the transaction's blocks outside the log area, the on-disk header is the commit
point: a crash before `write_head` leaves a header with `n = 0`, and recovery leaves
every home block as it was; a crash after it leaves the header of the transaction, and
recovery installs the logged copies, which hold the new contents (`recover_commitCrash`).
Recovery writes the same values whatever prefix of it ran before
(`recoverFromLog_recoverCrash`), so any number of interrupted recoveries end as one.

`log_write`'s absorption keeps the header's block numbers distinct and exactly the
blocks written, within the log area (`logWrites_absorbed`).
-/

set_option autoImplicit false

namespace Xv6

open Store

variable {α : Type}

/-- Block `b` lies outside the log area of `n` blocks from `start`: below the header, or
past the last log block. -/
def OutsideLog (start n b : Nat) : Prop := b < start ∨ start + n < b

instance (start n b : Nat) : Decidable (OutsideLog start n b) :=
  inferInstanceAs (Decidable (b < start ∨ start + n < b))

/-- One `bwrite` that copies the cached block `src` into block `dst`. -/
def copyBlock (st : LogMachine α) (dst src : Nat) : LogMachine α :=
  { mem := Function.update st.mem dst (st.mem src)
    disk := { st.disk with blk := Function.update st.disk.blk dst (st.mem src) } }

/-- The writes of `t` copies from `src i` to `dst i`, with the sources' values in `m`. -/
def copies (dst src : Nat → Nat) (m : Nat → α) (t : Nat) : List (Nat × α) :=
  (List.range t).map fun i => (dst i, m (src i))

theorem logStep_head (start : Nat) (lh : LogHeader) (st : LogMachine α) (n : Nat) :
    logStep start lh st (.head n) = { st with disk := writeHead lh n st.disk } := rfl

theorem mem_copies_fst {dst src : Nat → Nat} {m : Nat → α} {t b : Nat} :
    b ∈ (copies dst src m t).map Prod.fst ↔ ∃ i < t, dst i = b := by
  simp [copies]

/-- A loop of copies whose sources are never its destinations writes the values the
sources held when it started. -/
theorem foldl_copyBlock (dst src : Nat → Nat) (st : LogMachine α) (t : Nat)
    (h : ∀ i < t, ∀ j < t, src i ≠ dst j) :
    (List.range t).foldl (fun st i => copyBlock st (dst i) (src i)) st =
      ⟨updates st.mem (copies dst src st.mem t),
        ⟨st.disk.head, updates st.disk.blk (copies dst src st.mem t)⟩⟩ := by
  induction t with
  | zero => rfl
  | succ t ih =>
      have ih' := ih (fun i hi j hj => h i (by omega) j (by omega))
      rw [List.range_succ, List.foldl_append, ih', List.foldl_cons, List.foldl_nil]
      -- the source of copy `t` was not written by the copies before it
      have hsrc : updates st.mem (copies dst src st.mem t) (src t) = st.mem (src t) := by
        apply updates_of_not_mem
        rw [mem_copies_fst]
        rintro ⟨j, hj, hjt⟩
        exact h t (by omega) j (by omega) hjt.symm
      have happ : copies dst src st.mem (t + 1) =
          copies dst src st.mem t ++ [(dst t, st.mem (src t))] := by
        simp [copies, List.range_succ]
      simp only [copyBlock, hsrc, happ, updates_append, updates_cons, updates_nil]

/-- The log blocks of the first `t` iterations of `write_log`. -/
theorem runLog_logs (start : Nat) (lh : LogHeader) (st : LogMachine α) (t : Nat)
    (h : ∀ i < t, ∀ j < t, lh.block i ≠ start + j + 1) :
    runLog start lh st ((List.range t).map .log) =
      ⟨updates st.mem (copies (fun i => start + i + 1) lh.block st.mem t),
        ⟨st.disk.head, updates st.disk.blk (copies (fun i => start + i + 1) lh.block st.mem t)⟩⟩ := by
  rw [runLog, List.foldl_map]
  exact foldl_copyBlock (fun i => start + i + 1) lh.block st t h

/-- The home blocks of the first `t` iterations of `install_trans`. -/
theorem runLog_installs (start : Nat) (lh : LogHeader) (st : LogMachine α) (t : Nat)
    (h : ∀ i < t, ∀ j < t, start + i + 1 ≠ lh.block j) :
    runLog start lh st ((List.range t).map .install) =
      ⟨updates st.mem (copies lh.block (fun i => start + i + 1) st.mem t),
        ⟨st.disk.head, updates st.disk.blk (copies lh.block (fun i => start + i + 1) st.mem t)⟩⟩ := by
  rw [runLog, List.foldl_map]
  exact foldl_copyBlock lh.block (fun i => start + i + 1) st t h

theorem runLog_append (start : Nat) (lh : LogHeader) (st : LogMachine α) (w₁ w₂ : List LogWrite) :
    runLog start lh st (w₁ ++ w₂) = runLog start lh (runLog start lh st w₁) w₂ := by
  simp [runLog, List.foldl_append]

/-- INTERNAL: a header's block numbers below `n` are no log block of the first `n`. -/
theorem homes_ne_logs {start n : Nat} {block : Nat → Nat}
    (hout : ∀ i < n, OutsideLog start n (block i)) :
    ∀ i < n, ∀ j < n, block i ≠ start + j + 1 := by
  intro i hi j hj heq
  rcases hout i hi with h | h <;> omega

/-- Recovery on a disk whose header names blocks outside the log area installs each
logged copy into its home block and clears the header. -/
theorem recoverFromLog_eq (start : Nat) (d : Disk α)
    (hout : ∀ i < d.head.n, OutsideLog start d.head.n (d.head.block i)) :
    recoverFromLog start d =
      writeHead d.head 0
        ⟨d.head, updates d.blk (copies d.head.block (fun i => start + i + 1) d.blk d.head.n)⟩ := by
  have hne := homes_ne_logs hout
  rw [recoverFromLog, recoverWrites, runLog_append,
    runLog_installs start d.head _ _ (fun i hi j hj => (hne j hj i hi).symm)]
  rfl

/-- The header `recover_from_log` leaves has `n = 0`. -/
theorem recoverFromLog_head (start : Nat) (d : Disk α) : (recoverFromLog start d).head.n = 0 := by
  simp [recoverFromLog, recoverWrites, runLog, logStep_head, writeHead]

/-- Recovery on a disk whose header is empty leaves it as it is. -/
theorem recoverFromLog_of_clean (start : Nat) (d : Disk α) (h0 : d.head.n = 0) :
    recoverFromLog start d = d := by
  rw [recoverFromLog_eq start d (by rw [h0]; intro i hi; omega)]
  obtain ⟨⟨n, block⟩, blk⟩ := d
  simp only at h0
  subst h0
  simp [writeHead, copies]

/-- Recovering twice is recovering once. -/
theorem recoverFromLog_recoverFromLog (start : Nat) (d : Disk α) :
    recoverFromLog start (recoverFromLog start d) = recoverFromLog start d :=
  recoverFromLog_of_clean start _ (recoverFromLog_head start d)

/-- A crash inside the `install_trans` of recovery leaves the header, and the first `j`
home blocks installed. -/
theorem recoverCrash_installing (start : Nat) (d : Disk α)
    (hout : ∀ i < d.head.n, OutsideLog start d.head.n (d.head.block i)) {j : Nat}
    (hj : j ≤ d.head.n) :
    recoverCrash start d j =
      ⟨d.head, updates d.blk (copies d.head.block (fun i => start + i + 1) d.blk j)⟩ := by
  have hne := homes_ne_logs hout
  have htake : (recoverWrites d.head.n).take j = (List.range j).map .install := by
    rw [recoverWrites, List.take_append_of_le_length (by simp; omega), ← List.map_take,
      List.take_range, Nat.min_eq_left hj]
  rw [recoverCrash, htake,
    runLog_installs start d.head _ j (fun i hi k hk => (hne k (by omega) i (by omega)).symm)]

/-- A crash after the cleared header is no crash. -/
theorem recoverCrash_of_lt (start : Nat) (d : Disk α) {j : Nat} (hj : d.head.n < j) :
    recoverCrash start d j = recoverFromLog start d := by
  rw [recoverCrash, List.take_of_length_le (by simp [recoverWrites]; omega), recoverFromLog]

/-- Recovery is idempotent under interruption: after any prefix of it, recovering again
gives the disk of one whole recovery. -/
theorem recoverFromLog_recoverCrash (start : Nat) (d : Disk α)
    (hout : ∀ i < d.head.n, OutsideLog start d.head.n (d.head.block i)) (j : Nat) :
    recoverFromLog start (recoverCrash start d j) = recoverFromLog start d := by
  rcases Nat.lt_or_ge d.head.n j with hj | hj
  · -- the crash fell after the cleared header: the disk is already recovered
    rw [recoverCrash_of_lt start d hj, recoverFromLog_recoverFromLog]
  -- the crash fell inside `install_trans`: the header is intact
  have hcrash := recoverCrash_installing start d hout hj
  have hne := homes_ne_logs hout
  set n := d.head.n with hn
  set w := copies d.head.block (fun i => start + i + 1) d.blk n with hw
  have hfirst : copies d.head.block (fun i => start + i + 1) d.blk j = w.take j := by
    rw [hw, copies, copies, ← List.map_take, List.take_range, Nat.min_eq_left hj]
  -- the logged copies are read back unchanged: the installs never write the log
  have hlog : ∀ i < n, updates d.blk (w.take j) (start + i + 1) = d.blk (start + i + 1) := by
    intro i hi
    apply updates_of_not_mem
    intro hm
    rw [List.map_take] at hm
    obtain ⟨k, hk, hki⟩ := mem_copies_fst.mp (List.mem_of_mem_take hm)
    exact hne k hk i hi hki
  have hsame : copies d.head.block (fun i => start + i + 1) (updates d.blk (w.take j)) n = w := by
    conv_rhs => rw [hw]
    unfold copies
    apply List.map_congr_left
    intro i hi
    rw [hlog i (List.mem_range.mp hi)]
  rw [recoverFromLog_eq start _ (by rw [hcrash]; exact hout), recoverFromLog_eq start d hout,
    hcrash]
  simp only [← hn]
  rw [hfirst, hsame, updates_take]

/-- INTERNAL: an interrupted recovery leaves a header whose blocks are outside the log. -/
theorem recoverCrash_outside (start : Nat) (d : Disk α)
    (hout : ∀ i < d.head.n, OutsideLog start d.head.n (d.head.block i)) (j : Nat) :
    ∀ i < (recoverCrash start d j).head.n,
      OutsideLog start (recoverCrash start d j).head.n ((recoverCrash start d j).head.block i) := by
  rcases Nat.lt_or_ge d.head.n j with hj | hj
  · rw [recoverCrash_of_lt start d hj, recoverFromLog_head]
    intro i hi
    exact absurd hi (Nat.not_lt_zero i)
  · rw [recoverCrash_installing start d hout hj]
    exact hout

/-- Recovery interrupted any number of times, and rerun after each crash, leaves the disk
of one uninterrupted recovery. -/
theorem recoverFromLog_foldl_recoverCrash (start : Nat) (js : List Nat) :
    ∀ d : Disk α, (∀ i < d.head.n, OutsideLog start d.head.n (d.head.block i)) →
      recoverFromLog start (js.foldl (recoverCrash start) d) = recoverFromLog start d := by
  induction js with
  | nil => intro d _; rfl
  | cons j js ih =>
      intro d hout
      rw [List.foldl_cons, ih _ (recoverCrash_outside start d hout j),
        recoverFromLog_recoverCrash start d hout j]

/-! ## The disk after a crash inside `commit` -/

section Commit

variable (start : Nat) (lh : LogHeader) (st : LogMachine α)

/-- The writes of `write_log`, of which the log blocks hold copies. -/
def logCopies (m : Nat → α) (t : Nat) : List (Nat × α) :=
  copies (fun i => start + i + 1) lh.block m t

/-- The writes of `install_trans` in `commit`, from the cache as `write_log` left it. -/
def homeCopies (t : Nat) : List (Nat × α) :=
  copies lh.block (fun i => start + i + 1) (updates st.mem (logCopies start lh st.mem lh.n)) t

theorem commitWrites_take_logging {k : Nat} (hk : k ≤ lh.n) :
    (commitWrites lh.n).take k = (List.range k).map .log := by
  unfold commitWrites
  split_ifs with hN
  · rw [List.append_assoc, List.append_assoc, List.take_append_of_le_length (by simpa using hk),
      ← List.map_take, List.take_range, Nat.min_eq_left hk]
  · have hk0 : k = 0 := by omega
    simp [hk0]

theorem commitWrites_take_installing {k : Nat} (hN : 0 < lh.n) (hk : lh.n < k)
    (hk' : k ≤ 2 * lh.n + 1) :
    (commitWrites lh.n).take k =
      (List.range lh.n).map .log ++ [.head lh.n] ++ (List.range (k - lh.n - 1)).map .install := by
  -- `k` reaches past `write_log` and the first `write_head` by `t` installs
  obtain ⟨t, rfl⟩ : ∃ t, k = ((List.range lh.n).map LogWrite.log ++ [LogWrite.head lh.n]).length + t :=
    ⟨k - lh.n - 1, by simp; omega⟩
  have ht : t ≤ lh.n := by simp at hk'; omega
  rw [commitWrites, if_pos hN, List.append_assoc _ ((List.range lh.n).map _),
    List.take_length_add_append, List.take_append_of_le_length (by simpa using ht),
    ← List.map_take, List.take_range, Nat.min_eq_left ht]
  congr 3
  simp only [List.length_append, List.length_map, List.length_range, List.length_singleton]
  omega

/-- A crash inside `write_log`: the header is untouched and some log blocks are written. -/
theorem commitCrash_logging {k : Nat} (hk : k ≤ lh.n)
    (hout : ∀ i < lh.n, OutsideLog start lh.n (lh.block i)) :
    commitCrash start lh st k = ⟨st.disk.head, updates st.disk.blk (logCopies start lh st.mem k)⟩ := by
  have hne := homes_ne_logs hout
  rw [commitCrash, commitWrites_take_logging lh hk,
    runLog_logs start lh st k (fun i hi j hj => hne i (by omega) j (by omega))]
  rfl

/-- The cache and disk once `write_log` and the first `write_head` are done. -/
theorem runLog_logged (hout : ∀ i < lh.n, OutsideLog start lh.n (lh.block i)) :
    runLog start lh st ((List.range lh.n).map .log ++ [.head lh.n]) =
      ⟨updates st.mem (logCopies start lh st.mem lh.n),
        writeHead lh lh.n ⟨st.disk.head, updates st.disk.blk (logCopies start lh st.mem lh.n)⟩⟩ := by
  rw [runLog_append, runLog_logs start lh st lh.n (homes_ne_logs hout)]
  rfl

/-- A crash inside `install_trans`: the header names the transaction and some home
blocks hold the logged copies. -/
theorem commitCrash_installing {k : Nat} (hN : 0 < lh.n) (hk : lh.n < k) (hk' : k ≤ 2 * lh.n + 1)
    (hout : ∀ i < lh.n, OutsideLog start lh.n (lh.block i)) :
    commitCrash start lh st k =
      ⟨(writeHead lh lh.n st.disk).head,
        updates (updates st.disk.blk (logCopies start lh st.mem lh.n))
          (homeCopies start lh st (k - lh.n - 1))⟩ := by
  have hne := homes_ne_logs hout
  rw [commitCrash, commitWrites_take_installing lh hN hk hk', runLog_append, runLog_logged start lh st hout,
    runLog_installs start lh _ _ (fun i hi j hj => (hne j (by omega) i (by omega)).symm)]
  rfl

/-- A crash after the last write: every home block holds its logged copy and the header
is cleared. -/
theorem commitCrash_done {k : Nat} (hN : 0 < lh.n) (hk : 2 * lh.n + 1 < k)
    (hout : ∀ i < lh.n, OutsideLog start lh.n (lh.block i)) :
    commitCrash start lh st k =
      writeHead lh 0 ⟨(writeHead lh lh.n st.disk).head,
        updates (updates st.disk.blk (logCopies start lh st.mem lh.n)) (homeCopies start lh st lh.n)⟩ := by
  have hne := homes_ne_logs hout
  have htake : (commitWrites lh.n).take k = commitWrites lh.n :=
    List.take_of_length_le (by simp [commitWrites, hN]; omega)
  rw [commitCrash, htake, commitWrites, if_pos hN, runLog_append, runLog_append,
    runLog_logged start lh st hout, runLog_installs start lh _ _ (fun i hi j hj => (hne j hj i hi).symm)]
  rfl

/-- INTERNAL: the log block of slot `i < n` holds the copy of the home block of slot `i`. -/
theorem updates_logCopies_log (m : Nat → α) (X : Nat → α) {i : Nat} (hi : i < lh.n) :
    updates X (logCopies start lh m lh.n) (start + i + 1) = m (lh.block i) := by
  apply updates_of_forall
  · exact mem_copies_fst.mpr ⟨i, hi, rfl⟩
  · intro p hp hpi
    simp only [logCopies, copies, List.mem_map, List.mem_range] at hp
    obtain ⟨j, _, rfl⟩ := hp
    have hji : j = i := by simp at hpi; omega
    rw [hji]

/-- INTERNAL: when each log block holds the new contents of its home block, the installs
write the new contents of every home block they reach. -/
theorem updates_installs (X Y m : Nat → α) (hX : ∀ j < lh.n, X (start + j + 1) = m (lh.block j))
    {t b : Nat} (ht : t ≤ lh.n) (hb : ∃ i < t, lh.block i = b) :
    updates Y (copies lh.block (fun i => start + i + 1) X t) b = m b := by
  apply updates_of_forall (mem_copies_fst.mpr hb)
  intro p hp hpb
  simp only [copies, List.mem_map, List.mem_range] at hp
  obtain ⟨j, hj, rfl⟩ := hp
  simp only at hpb ⊢
  rw [hX j (by omega), hpb]

/-- INTERNAL: every install of a home block `b` in `commit` writes the new contents of `b`. -/
theorem updates_homeCopies_home (X : Nat → α) (t : Nat) {b : Nat} (hb : ∃ i < t, lh.block i = b)
    (ht : t ≤ lh.n) :
    updates X (homeCopies start lh st t) b = st.mem b :=
  updates_installs start lh _ X st.mem
    (fun _ hj => updates_logCopies_log start lh st.mem st.mem hj) ht hb

@[simp] theorem writeHead_blk (n : Nat) (d : Disk α) : (writeHead lh n d).blk = d.blk := rfl

@[simp] theorem writeHead_n (n : Nat) (d : Disk α) : (writeHead lh n d).head.n = n := rfl

theorem writeHead_block {n i : Nat} (d : Disk α) (hi : i < n) :
    (writeHead lh n d).head.block i = lh.block i := by
  simp [writeHead, hi]

/-- INTERNAL: `write_log` writes no block outside the log area. -/
theorem not_mem_logCopies {b : Nat} (hb : OutsideLog start lh.n b) (m : Nat → α) {t : Nat}
    (ht : t ≤ lh.n) : b ∉ (logCopies start lh m t).map Prod.fst := by
  rw [logCopies, mem_copies_fst]
  rintro ⟨i, hi, rfl⟩
  rcases hb with h | h <;> omega

/-- INTERNAL: `install_trans` writes no block the header does not name. -/
theorem not_mem_homeCopies {b : Nat} (hb : ∀ i < lh.n, lh.block i ≠ b) {t : Nat} (ht : t ≤ lh.n) :
    b ∉ (homeCopies start lh st t).map Prod.fst := by
  rw [homeCopies, mem_copies_fst]
  rintro ⟨i, hi, hib⟩
  exact hb i (by omega) hib

/-- Recovery after a crash past the commit point replays the transaction's header. -/
theorem recoverFromLog_blk_committed (d : Disk α) (hN : d.head.n = lh.n) (hblock : ∀ i < lh.n, d.head.block i = lh.block i)
    (hout : ∀ i < lh.n, OutsideLog start lh.n (lh.block i)) :
    (recoverFromLog start d).blk = updates d.blk (copies lh.block (fun i => start + i + 1) d.blk lh.n) := by
  have hout' : ∀ i < d.head.n, OutsideLog start d.head.n (d.head.block i) := by
    intro i hi
    rw [hN] at hi ⊢
    rw [hblock i hi]
    exact hout i hi
  rw [recoverFromLog_eq start d hout', writeHead_blk]
  simp only [hN]
  congr 1
  apply List.map_congr_left
  intro i hi
  rw [hblock i (List.mem_range.mp hi)]

/-! ### Recovery after each kind of crash -/

theorem commitCrash_empty (hN : lh.n = 0) (k : Nat) : commitCrash start lh st k = st.disk := by
  simp [commitCrash, commitWrites, hN, runLog]

/-- INTERNAL: the installs of `commit` leave the log blocks as `write_log` wrote them. -/
theorem installed_log (hout : ∀ i < lh.n, OutsideLog start lh.n (lh.block i)) {t j : Nat}
    (ht : t ≤ lh.n) (hj : j < lh.n) :
    updates (updates st.disk.blk (logCopies start lh st.mem lh.n)) (homeCopies start lh st t)
      (start + j + 1) = st.mem (lh.block j) := by
  rw [updates_of_not_mem, updates_logCopies_log start lh st.mem _ hj]
  rw [homeCopies, mem_copies_fst]
  rintro ⟨i, hi, hij⟩
  exact homes_ne_logs hout i (by omega) j hj hij

/-- INTERNAL: `commit` leaves a block outside the log that the header does not name as
it was. -/
theorem installed_frame {b : Nat} (hb : OutsideLog start lh.n b) (hnot : ∀ i < lh.n, lh.block i ≠ b)
    {t : Nat} (ht : t ≤ lh.n) :
    updates (updates st.disk.blk (logCopies start lh st.mem lh.n)) (homeCopies start lh st t) b =
      st.disk.blk b := by
  rw [updates_of_not_mem (not_mem_homeCopies start lh st hnot ht),
    updates_of_not_mem (not_mem_logCopies start lh hb st.mem le_rfl)]

/-- A crash before the header write: recovery finds an empty header, and every block
outside the log holds its old contents. -/
theorem recover_commitCrash_before (h0 : st.disk.head.n = 0)
    (hout : ∀ i < lh.n, OutsideLog start lh.n (lh.block i)) {k b : Nat} (hk : k ≤ lh.n)
    (hb : OutsideLog start lh.n b) :
    (recoverFromLog start (commitCrash start lh st k)).blk b = st.disk.blk b := by
  rw [commitCrash_logging start lh st hk hout, recoverFromLog_of_clean start
    ⟨st.disk.head, updates st.disk.blk (logCopies start lh st.mem k)⟩ h0]
  exact updates_of_not_mem (not_mem_logCopies start lh hb st.mem hk)

/-- A crash inside `install_trans`: recovery finds the transaction's header and installs
the logged copies over the partly installed home blocks. -/
theorem recover_commitCrash_installing (hout : ∀ i < lh.n, OutsideLog start lh.n (lh.block i))
    {k b : Nat} (hN : 0 < lh.n) (hk : lh.n < k) (hk' : k ≤ 2 * lh.n + 1)
    (hb : OutsideLog start lh.n b) :
    (recoverFromLog start (commitCrash start lh st k)).blk b =
      if ∃ i < lh.n, lh.block i = b then st.mem b else st.disk.blk b := by
  have ht : k - lh.n - 1 ≤ lh.n := by omega
  rw [commitCrash_installing start lh st hN hk hk' hout,
    recoverFromLog_blk_committed start lh _ ?hN ?hblock hout]
  case hN => exact writeHead_n lh lh.n st.disk
  case hblock => exact fun i hi => writeHead_block lh st.disk hi
  split_ifs with hmem
  · exact updates_installs start lh _ _ st.mem (fun j hj => installed_log start lh st hout ht hj)
      le_rfl hmem
  · simp only [not_exists, not_and] at hmem
    rw [updates_of_not_mem (by rw [mem_copies_fst]; rintro ⟨i, hi, hib⟩; exact hmem i hi hib)]
    exact installed_frame start lh st hb hmem ht

/-- A crash after the last write of `commit`: the header is clear and the home blocks are
installed. -/
theorem recover_commitCrash_done (hout : ∀ i < lh.n, OutsideLog start lh.n (lh.block i))
    {k b : Nat} (hN : 0 < lh.n) (hk : 2 * lh.n + 1 < k) (hb : OutsideLog start lh.n b) :
    (recoverFromLog start (commitCrash start lh st k)).blk b =
      if ∃ i < lh.n, lh.block i = b then st.mem b else st.disk.blk b := by
  rw [commitCrash_done start lh st hN hk hout, recoverFromLog_of_clean start _ (writeHead_n lh 0 _),
    writeHead_blk]
  split_ifs with hmem
  · exact updates_homeCopies_home start lh st _ lh.n hmem le_rfl
  · simp only [not_exists, not_and] at hmem
    exact installed_frame start lh st hb hmem le_rfl

/-- Recovery after a crash at any point of `commit`: a block outside the log holds the
transaction's new contents if the header write (write `n + 1`) got through, and its old
contents otherwise. -/
theorem recover_commitCrash (h0 : st.disk.head.n = 0)
    (hout : ∀ i < lh.n, OutsideLog start lh.n (lh.block i)) (k : Nat) {b : Nat}
    (hb : OutsideLog start lh.n b) :
    (recoverFromLog start (commitCrash start lh st k)).blk b =
      if lh.n < k ∧ ∃ i < lh.n, lh.block i = b then st.mem b else st.disk.blk b := by
  rcases Nat.eq_zero_or_pos lh.n with hN | hN
  · -- an empty transaction writes nothing
    rw [commitCrash_empty start lh st hN, recoverFromLog_of_clean start _ h0, if_neg]
    rintro ⟨-, i, hi, -⟩
    omega
  rcases Nat.lt_or_ge lh.n k with hk | hk
  · simp only [hk, true_and]
    rcases Nat.lt_or_ge (2 * lh.n + 1) k with hk' | hk'
    · exact recover_commitCrash_done start lh st hout hN hk' hb
    · exact recover_commitCrash_installing start lh st hout hN hk hk' hb
  · rw [if_neg (fun h => absurd h.1 (by omega))]
    exact recover_commitCrash_before start lh st h0 hout hk hb

/-- INTERNAL: the header after a crash inside `commit` names only blocks outside the log:
it is the old, empty one, the transaction's, or the cleared one. -/
theorem commitCrash_outside (h0 : st.disk.head.n = 0)
    (hout : ∀ i < lh.n, OutsideLog start lh.n (lh.block i)) (k : Nat) :
    ∀ i < (commitCrash start lh st k).head.n,
      OutsideLog start (commitCrash start lh st k).head.n ((commitCrash start lh st k).head.block i) := by
  rcases Nat.eq_zero_or_pos lh.n with hN | hN
  · rw [commitCrash_empty start lh st hN, h0]
    intro i hi
    exact absurd hi (Nat.not_lt_zero i)
  rcases Nat.lt_or_ge lh.n k with hk | hk
  · rcases Nat.lt_or_ge (2 * lh.n + 1) k with hk' | hk'
    · rw [commitCrash_done start lh st hN hk' hout, writeHead_n]
      intro i hi
      exact absurd hi (Nat.not_lt_zero i)
    · rw [commitCrash_installing start lh st hN hk hk' hout]
      intro i hi
      simp only [writeHead_n] at hi ⊢
      rw [writeHead_block lh st.disk hi]
      exact hout i hi
  · rw [commitCrash_logging start lh st hk hout]
    intro i hi
    simp only [h0] at hi
    exact absurd hi (Nat.not_lt_zero i)

end Commit

/-! ## Absorption in `log_write` -/

/-- The header lists the blocks of `ws`, each once, in at most `LOGSIZE` slots, and its
log blocks fit in a log area of `size` blocks. -/
structure Absorbed (size : Nat) (lh : LogHeader) (ws : List Nat) : Prop where
  le : lh.n ≤ logSize
  room : lh.n ≤ size - 1
  mem : ∀ i < lh.n, lh.block i ∈ ws
  cover : ∀ b ∈ ws, ∃ i < lh.n, lh.block i = b
  nodup : ((List.range lh.n).map lh.block).Nodup

theorem Absorbed.empty {size : Nat} {lh : LogHeader} (h0 : lh.n = 0) : Absorbed size lh [] where
  le := by rw [h0]; exact Nat.zero_le _
  room := by rw [h0]; exact Nat.zero_le _
  mem := by rw [h0]; intro i hi; exact absurd hi (Nat.not_lt_zero i)
  cover := by simp
  nodup := by simp [h0]

/-- The absorption loop finds the slot holding the block, or stops at `n` when there is
none. -/
theorem logAbsorb_spec (lh : LogHeader) (b : Nat) :
    (logAbsorb lh b < lh.n ∧ lh.block (logAbsorb lh b) = b) ∨
      (logAbsorb lh b = lh.n ∧ ∀ i < lh.n, lh.block i ≠ b) := by
  unfold logAbsorb
  cases hf : (List.range lh.n).find? (fun i => lh.block i == b) with
  | none =>
      refine .inr ⟨rfl, fun i hi hib => ?_⟩
      have := List.find?_eq_none.mp hf i (List.mem_range.mpr hi)
      simp [hib] at this
  | some i =>
      refine .inl ⟨List.mem_range.mp (List.mem_of_find?_eq_some hf), ?_⟩
      simpa using List.find?_some hf

/-- INTERNAL: a block already in the header leaves it as it is. -/
theorem Absorbed.absorb {size : Nat} {lh : LogHeader} {ws : List Nat} {b i : Nat}
    (h : Absorbed size lh ws) (hi : i < lh.n) (hbi : lh.block i = b) :
    Absorbed size lh (ws ++ [b]) := by
  refine ⟨h.le, h.room, fun j hj => List.mem_append_left _ (h.mem j hj), ?_, h.nodup⟩
  intro b' hb'
  rcases List.mem_append.mp hb' with hb' | hb'
  · exact h.cover b' hb'
  · rw [List.mem_singleton] at hb'
    exact ⟨i, hi, hbi.trans hb'.symm⟩

/-- INTERNAL: a block not yet in the header takes slot `n`. -/
theorem Absorbed.push {size : Nat} {lh : LogHeader} {ws : List Nat} {b : Nat}
    (h : Absorbed size lh ws) (hlt : lh.n < logSize) (hroom : lh.n + 1 < size)
    (hnew : ∀ i < lh.n, lh.block i ≠ b) :
    Absorbed size ⟨lh.n + 1, Function.update lh.block lh.n b⟩ (ws ++ [b]) := by
  have hupd : ∀ i < lh.n, Function.update lh.block lh.n b i = lh.block i :=
    fun i hi' => Function.update_of_ne (by omega) _ _
  refine ⟨by dsimp only; omega, by dsimp only; omega, ?_, ?_, ?_⟩
  · dsimp only
    intro i hi'
    by_cases hin : i = lh.n
    · subst hin
      simp
    · rw [hupd i (by omega)]
      exact List.mem_append_left _ (h.mem i (by omega))
  · dsimp only
    intro b' hb'
    rcases List.mem_append.mp hb' with hb' | hb'
    · obtain ⟨i, hi', hib⟩ := h.cover b' hb'
      exact ⟨i, by omega, by rw [hupd i hi']; exact hib⟩
    · rw [List.mem_singleton] at hb'
      exact ⟨lh.n, by omega, by simp [hb']⟩
  · dsimp only
    have hmap : (List.range (lh.n + 1)).map (Function.update lh.block lh.n b) =
        (List.range lh.n).map lh.block ++ [b] := by
      rw [List.range_succ, List.map_append, List.map_singleton, Function.update_self]
      congr 1
      exact List.map_congr_left fun i hi' => hupd i (List.mem_range.mp hi')
    rw [hmap, List.nodup_append]
    refine ⟨h.nodup, List.nodup_singleton _, ?_⟩
    intro x hx y hy hxy
    rw [List.mem_singleton] at hy
    obtain ⟨i, hi', rfl⟩ := List.mem_map.mp hx
    exact hnew i (List.mem_range.mp hi') (hxy.trans hy)

/-- One `log_write` records its block once.
SOURCE: log.c:213-233 -/
theorem logWrite_absorbed {size : Nat} {lh lh' : LogHeader} {ws : List Nat} {b : Nat}
    (h : Absorbed size lh ws) (hw : logWrite size lh b = some lh') :
    Absorbed size lh' (ws ++ [b]) := by
  unfold logWrite at hw
  split_ifs at hw with hfull
  simp only [Option.some.injEq] at hw
  subst hw
  rcases logAbsorb_spec lh b with ⟨hi, hbi⟩ | ⟨hi, hnew⟩
  · -- absorbed: the slot already holds `b`, nothing changes
    have hblock : Function.update lh.block (logAbsorb lh b) b = lh.block := by
      funext j
      by_cases hj : j = logAbsorb lh b
      · rw [hj, Function.update_self, hbi]
      · rw [Function.update_of_ne hj]
    rw [if_neg (by omega), hblock]
    exact h.absorb hi hbi
  · rw [if_pos hi, hi]
    exact h.push (by omega) (by omega) hnew

/-- The `log_write`s of a transaction record each of its blocks once. -/
theorem logWrites_absorbed {size : Nat} :
    ∀ (bs : List Nat) (lh lh' : LogHeader) (ws : List Nat), Absorbed size lh ws →
      logWrites size lh bs = some lh' → Absorbed size lh' (ws ++ bs)
  | [], lh, lh', ws, h, hw => by
      simp only [logWrites, Option.some.injEq] at hw
      subst hw
      simpa using h
  | b :: bs, lh, lh', ws, h, hw => by
      simp only [logWrites, Option.bind_eq_some_iff] at hw
      obtain ⟨lh₁, h₁, hrest⟩ := hw
      have := logWrites_absorbed bs lh₁ lh' (ws ++ [b]) (logWrite_absorbed h h₁) hrest
      simpa using this

/-! ## Crash atomicity of a transaction -/

/-- A transaction whose `log_write`s succeed, with its blocks outside the log area of
`size` blocks from `start`, is committed from the cache `mem0` onto a disk `d0` whose
header is clear, and the machine crashes after any `k` writes of `commit`.  Recovery
clears the header; every block of the transaction holds its new contents if the header
write got through and its old contents if not; every other block outside the log keeps
its old contents; and recovery interrupted any number of times and rerun leaves the
disk of one recovery. -/
theorem log_commit_crash_atomic (start size : Nat) (lh0 : LogHeader) (hlh0 : lh0.n = 0)
    (bs : List Nat) (lh : LogHeader) (hwrites : logWrites size lh0 bs = some lh)
    (hlayout : ∀ b ∈ bs, OutsideLog start (size - 1) b)
    (mem0 : Nat → α) (d0 : Disk α) (hd0 : d0.head.n = 0) (k : Nat) :
    (recoverFromLog start (commitCrash start lh ⟨mem0, d0⟩ k)).head.n = 0 ∧
    (∀ b ∈ bs, (recoverFromLog start (commitCrash start lh ⟨mem0, d0⟩ k)).blk b =
        if lh.n < k then mem0 b else d0.blk b) ∧
    (∀ b, b ∉ bs → OutsideLog start (size - 1) b →
        (recoverFromLog start (commitCrash start lh ⟨mem0, d0⟩ k)).blk b = d0.blk b) ∧
    ∀ js : List Nat,
      recoverFromLog start (js.foldl (recoverCrash start) (commitCrash start lh ⟨mem0, d0⟩ k)) =
        recoverFromLog start (commitCrash start lh ⟨mem0, d0⟩ k) := by
  have habs : Absorbed size lh bs := by
    simpa using logWrites_absorbed bs lh0 lh [] (Absorbed.empty hlh0) hwrites
  -- the header's log blocks lie inside the log area
  have hwide : ∀ b, OutsideLog start (size - 1) b → OutsideLog start lh.n b := by
    intro b hb
    have := habs.room
    rcases hb with hb | hb
    · exact .inl hb
    · exact .inr (by omega)
  have hout : ∀ i < lh.n, OutsideLog start lh.n (lh.block i) :=
    fun i hi => hwide _ (hlayout _ (habs.mem i hi))
  refine ⟨recoverFromLog_head start _, ?_, ?_, ?_⟩
  · intro b hb
    rw [recover_commitCrash start lh ⟨mem0, d0⟩ hd0 hout k (hwide b (hlayout b hb))]
    by_cases hk : lh.n < k
    · rw [if_pos ⟨hk, habs.cover b hb⟩, if_pos hk]
    · rw [if_neg (fun h => hk h.1), if_neg hk]
  · intro b hb hb'
    rw [recover_commitCrash start lh ⟨mem0, d0⟩ hd0 hout k (hwide b hb'), if_neg]
    rintro ⟨-, i, hi, rfl⟩
    exact hb (habs.mem i hi)
  · intro js
    exact recoverFromLog_foldl_recoverCrash start js _
      (commitCrash_outside start lh ⟨mem0, d0⟩ hd0 hout k)

/-- A one-block transaction, crashed right after its header write, is recovered with the
block's new contents. -/
theorem log_commit_crash_atomic_one_block :
    logWrites 31 ⟨0, fun _ => 0⟩ [40] = some ⟨1, Function.update (fun _ => 0) 0 40⟩ ∧
      (recoverFromLog 2 (commitCrash 2 ⟨1, Function.update (fun _ => 0) 0 40⟩
        ⟨fun _ => 1, ⟨⟨0, fun _ => 0⟩, fun _ => 0⟩⟩ 2)).blk 40 = 1 := by
  have h := log_commit_crash_atomic 2 31 ⟨0, fun _ => 0⟩ rfl [40]
    ⟨1, Function.update (fun _ => 0) 0 40⟩ rfl (by decide) (fun _ => 1)
    ⟨⟨0, fun _ => 0⟩, fun _ => 0⟩ rfl 2
  refine ⟨rfl, ?_⟩
  rw [h.2.1 40 (List.mem_singleton_self 40)]
  decide

/-! ## Admission: three full operations overflow the log

`begin_op` reserves `MAXOPBLOCKS` header slots for each outstanding operation against
`LOGSIZE`, so it admits three operations into an empty log.  `log_write` keeps one of
the `log.size` log blocks for the header as well: it refuses a header that already has
`log.size - 1` blocks.  `mkfs` writes `nlog = LOGSIZE`, so `log.size = LOGSIZE`, and
three admitted operations of ten distinct blocks each reach that refusal at their
thirtieth block. -/

/-- INTERNAL: a block not yet in the header is appended to it. -/
theorem logWrite_fresh {size : Nat} {lh : LogHeader} {b : Nat} (hnew : ∀ i < lh.n, lh.block i ≠ b)
    (hlt : lh.n < logSize) (hroom : lh.n + 1 < size) :
    logWrite size lh b = some ⟨lh.n + 1, Function.update lh.block lh.n b⟩ := by
  unfold logWrite
  rw [if_neg (by omega)]
  rcases logAbsorb_spec lh b with ⟨hi, hbi⟩ | ⟨hi, -⟩
  · exact absurd hbi (hnew _ hi)
  · rw [hi]
    dsimp only
    rw [if_pos rfl]

/-- Distinct blocks not yet in the header each take a new slot. -/
theorem logWrites_fresh {size : Nat} : ∀ (bs : List Nat) (lh : LogHeader), bs.Nodup →
    (∀ b ∈ bs, ∀ i < lh.n, lh.block i ≠ b) → lh.n + bs.length ≤ logSize →
    lh.n + bs.length < size → ∃ lh', logWrites size lh bs = some lh' ∧ lh'.n = lh.n + bs.length
  | [], lh, _, _, _, _ => ⟨lh, rfl, rfl⟩
  | b :: bs, lh, hnd, hfresh, hle, hroom => by
      rw [List.length_cons] at hle hroom
      obtain ⟨hb, hnd'⟩ := List.nodup_cons.mp hnd
      have hw := @logWrite_fresh size lh b (hfresh b List.mem_cons_self) (by omega) (by omega)
      -- the rest of the blocks are fresh against the header with `b` appended
      have hfresh' : ∀ c ∈ bs, ∀ i < lh.n + 1, Function.update lh.block lh.n b i ≠ c := by
        intro c hc i hi
        by_cases hin : i = lh.n
        · rw [hin, Function.update_self]
          exact fun h => hb (h ▸ hc)
        · rw [Function.update_of_ne hin]
          exact hfresh c (List.mem_cons_of_mem b hc) i (by omega)
      obtain ⟨lh', hws, hn⟩ := @logWrites_fresh size bs ⟨lh.n + 1, Function.update lh.block lh.n b⟩ hnd'
        hfresh' (by dsimp only; omega) (by dsimp only; omega)
      refine ⟨lh', ?_, by simp only [hn, List.length_cons]; omega⟩
      simp only [logWrites, hw, Option.bind_some]
      exact hws

/-- INTERNAL: inside an operation, the `log_write`s that fit go through. -/
theorem foldlM_logWriteOp : ∀ (bs : List Nat) (st : LogCtl) (lh' : LogHeader), 1 ≤ st.outstanding →
    logWrites st.size st.lh bs = some lh' → bs.foldlM logWriteOp st = .ok { st with lh := lh' }
  | [], st, lh', _, hw => by
      simp only [logWrites, Option.some.injEq] at hw
      subst hw
      rfl
  | b :: bs, st, lh', h1, hw => by
      simp only [logWrites, Option.bind_eq_some_iff] at hw
      obtain ⟨lh₁, h₁, hrest⟩ := hw
      have hstep : logWriteOp st b = .ok { st with lh := lh₁ } := by
        simp only [logWriteOp, h₁, if_neg (show ¬st.outstanding < 1 by omega)]
        rfl
      rw [List.foldlM_cons, hstep, Run.ok_bind]
      exact foldlM_logWriteOp bs { st with lh := lh₁ } lh' h1 hrest

/-- **Three admitted operations overflow the log.**  From an empty, idle log of
`log.size = LOGSIZE` blocks, as `mkfs` lays it out, `begin_op` admits three operations.
Their `log_write`s of 29 distinct blocks go through (ten, ten and nine, each within
`MAXOPBLOCKS`), and the next `log_write`, of any block, panics. -/
theorem begin_op_admits_log_overflow (st : LogCtl) (h0 : st.lh.n = 0) (hout : st.outstanding = 0)
    (hc : st.committing = false) (hsize : st.size = logSize) {bs : List Nat} (hlen : bs.length = 29)
    (hnd : bs.Nodup) (b : Nat) :
    ∃ st₁ st₂ st₃ st₄, beginOp st = some st₁ ∧ beginOp st₁ = some st₂ ∧ beginOp st₂ = some st₃ ∧
      bs.foldlM logWriteOp st₃ = .ok st₄ ∧ logWriteOp st₄ b = .error "too big a transaction" := by
  have hls : logSize = 30 := rfl
  have hmo : maxOpBlocks = 10 := rfl
  -- each `begin_op` fits its reservation: `0 + 10 k ≤ 30` for `k ≤ 3`
  have hb₁ : beginOp st = some { st with outstanding := 1 } := by
    rw [beginOp, if_neg (by rw [hc]; decide), if_neg (by rw [h0, hout, hmo, hls]; decide), hout]
  have hb₂ : beginOp { st with outstanding := 1 } = some { st with outstanding := 2 } := by
    rw [beginOp, if_neg (by dsimp only; rw [hc]; decide), if_neg (by dsimp only; rw [h0, hmo, hls]; decide)]
  have hb₃ : beginOp { st with outstanding := 2 } = some { st with outstanding := 3 } := by
    rw [beginOp, if_neg (by dsimp only; rw [hc]; decide), if_neg (by dsimp only; rw [h0, hmo, hls]; decide)]
  -- the 29 blocks take 29 slots of the header
  obtain ⟨lh', hws, hn⟩ := @logWrites_fresh st.size bs st.lh hnd (by rw [h0]; simp) (by omega)
    (by omega)
  have hfold := foldlM_logWriteOp bs { st with outstanding := 3 } lh' (show 1 ≤ 3 by decide) hws
  refine ⟨_, _, _, _, hb₁, hb₂, hb₃, hfold, ?_⟩
  -- the header now has `log.size - 1` blocks
  have hfull : logWrite st.size lh' b = none := by
    rw [logWrite, if_pos (.inr (by omega))]
  show logWriteOp { st with outstanding := 3, lh := lh' } b = _
  rw [logWriteOp, hfull]
  rfl

/-- Three operations in the log `mkfs` lays out, writing blocks `100 … 128` and then
block `200`. -/
theorem begin_op_admits_log_overflow_demo :
    (⟨30, 0, false, ⟨0, fun _ => 0⟩⟩ : LogCtl).lh.n = 0 ∧ (List.range' 100 29).length = 29 ∧
      (List.range' 100 29).Nodup ∧
      ∃ st₁ st₂ st₃ st₄, beginOp ⟨30, 0, false, ⟨0, fun _ => 0⟩⟩ = some st₁ ∧ beginOp st₁ = some st₂ ∧
        beginOp st₂ = some st₃ ∧ (List.range' 100 29).foldlM logWriteOp st₃ = .ok st₄ ∧
        logWriteOp st₄ 200 = .error "too big a transaction" :=
  ⟨rfl, List.length_range', List.nodup_range',
    begin_op_admits_log_overflow ⟨30, 0, false, ⟨0, fun _ => 0⟩⟩ rfl rfl rfl rfl List.length_range'
      List.nodup_range' 200⟩

end Xv6
