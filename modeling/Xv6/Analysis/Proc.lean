import Xv6.Model.Proc

/-!
# The process table: pids, parents and the killed flag

Over every run from `userinit`, the table keeps `ProcInv`: the pids of the slots in use
are positive, below `nextpid` and pairwise distinct; an `UNUSED` slot has no parent;
`initproc` stays in use and is the only slot in use without a parent; and every parent
is a slot in use that has not exited.  Most steps only move processes between
`SLEEPING`, `RUNNABLE` and `RUNNING` (`Ptable.Frame`); `fork`, `exit` and `wait` are
checked one by one.

What the table does not keep is a clear `killed` flag on its `UNUSED` slots.  `kill`
stops at the first slot whose pid matches, whatever its state, and at boot every
`UNUSED` slot has pid `0`; `allocproc` hands a slot out with the flag it had
(`kill_marks_unused`, `allocproc_killed`).
-/

set_option autoImplicit false

namespace Xv6

/-! ## Slot updates -/

namespace Ptable

@[simp] theorem set_proc_self (t : Ptable) (i : Fin nproc) (p : Proc) : (t.set i p).proc i = p := by
  simp [set]

@[simp] theorem set_proc_ne (t : Ptable) {i j : Fin nproc} (p : Proc) (h : j ≠ i) :
    (t.set i p).proc j = t.proc j := by
  simp [set, h]

end Ptable

/-- A slot is in use when it is not `UNUSED`. -/
def Ptable.Live (t : Ptable) (i : Fin nproc) : Prop := (t.proc i).state ≠ .unused

theorem Ptable.live_of_eq {t t' : Ptable} {i j : Fin nproc} (h : t'.proc i = t.proc j) :
    t'.Live i ↔ t.Live j := by
  simp only [Ptable.Live, h]

/-- A process that can be scheduled or is waiting: `SLEEPING`, `RUNNABLE` or `RUNNING`. -/
def ProcState.Active (s : ProcState) : Prop := s = .sleeping ∨ s = .runnable ∨ s = .running

/-! ## What a step can change

Most steps change a slot's state only between `SLEEPING`, `RUNNABLE` and `RUNNING`, and
leave every pid, `nextpid` and `initproc` as they are. -/

/-- `t'` differs from `t` at most by moves between active states, in its parents and in
its flags. -/
structure Ptable.Frame (t t' : Ptable) : Prop where
  nextpid : t'.nextpid = t.nextpid
  initproc : t'.initproc = t.initproc
  pid : ∀ i, (t'.proc i).pid = (t.proc i).pid
  state : ∀ i, (t'.proc i).state = (t.proc i).state ∨
    ((t.proc i).state.Active ∧ (t'.proc i).state.Active)

namespace Ptable.Frame

variable {t t' t'' : Ptable}

theorem refl (t : Ptable) : Frame t t :=
  ⟨rfl, rfl, fun _ => rfl, fun _ => .inl rfl⟩

theorem trans (h₁ : Frame t t') (h₂ : Frame t' t'') : Frame t t'' := by
  refine ⟨h₂.nextpid.trans h₁.nextpid, h₂.initproc.trans h₁.initproc,
    fun i => (h₂.pid i).trans (h₁.pid i), fun i => ?_⟩
  rcases h₁.state i with h | ⟨ha, ha'⟩ <;> rcases h₂.state i with h' | ⟨hb, hb'⟩
  · exact .inl (h'.trans h)
  · exact .inr ⟨h ▸ hb, hb'⟩
  · exact .inr ⟨ha, h' ▸ ha'⟩
  · exact .inr ⟨ha, hb'⟩

/-- INTERNAL: an active state is neither `UNUSED` nor `ZOMBIE`. -/
theorem active_ne {s : ProcState} (h : s.Active) : s ≠ .unused ∧ s ≠ .zombie := by
  rcases h with h | h | h <;> subst h <;> exact ⟨by decide, by decide⟩

theorem state_eq_iff (h : Frame t t') (i : Fin nproc) {s : ProcState}
    (hs : s = .unused ∨ s = .zombie) : (t'.proc i).state = s ↔ (t.proc i).state = s := by
  rcases h.state i with h | ⟨ha, ha'⟩
  · rw [h]
  · have h₁ := active_ne ha
    have h₂ := active_ne ha'
    rcases hs with rfl | rfl
    · exact ⟨fun e => absurd e h₂.1, fun e => absurd e h₁.1⟩
    · exact ⟨fun e => absurd e h₂.2, fun e => absurd e h₁.2⟩

theorem live_iff (h : Frame t t') (i : Fin nproc) : t'.Live i ↔ t.Live i :=
  not_congr (h.state_eq_iff i (.inl rfl))

end Ptable.Frame

/-- `t'` differs from `t` at most by moves between active states and in its flags. -/
structure Ptable.Moves (t t' : Ptable) : Prop extends Ptable.Frame t t' where
  parent : ∀ i, (t'.proc i).parent = (t.proc i).parent

theorem Ptable.Moves.trans {t t' t'' : Ptable} (h₁ : Ptable.Moves t t') (h₂ : Ptable.Moves t' t'') :
    Ptable.Moves t t'' :=
  ⟨h₁.toFrame.trans h₂.toFrame, fun i => (h₂.parent i).trans (h₁.parent i)⟩

theorem wakeup1_proc (t : Ptable) (chan : Option Chan) (i : Fin nproc) :
    (wakeup1 t chan).proc i =
      if (t.proc i).state = .sleeping ∧ (t.proc i).chan = chan then
        { t.proc i with state := .runnable }
      else t.proc i := rfl

/-- `wakeup1` only turns sleeping processes runnable. -/
theorem wakeup1_moves (t : Ptable) (chan : Option Chan) : Ptable.Moves t (wakeup1 t chan) := by
  refine ⟨⟨rfl, rfl, fun i => ?_, fun i => ?_⟩, fun i => ?_⟩
  all_goals rw [wakeup1_proc]
  · split_ifs <;> rfl
  · split_ifs with h
    · exact .inr ⟨.inl h.1, .inr (.inl rfl)⟩
    · exact .inl rfl
  · split_ifs <;> rfl

/-- INTERNAL: replacing one slot by one with the same pid whose state moves between
active states, or stays, is a move. -/
theorem set_moves (t : Ptable) (i : Fin nproc) (p : Proc) (hpid : p.pid = (t.proc i).pid)
    (hparent : p.parent = (t.proc i).parent)
    (hstate : p.state = (t.proc i).state ∨ ((t.proc i).state.Active ∧ p.state.Active)) :
    Ptable.Moves t (t.set i p) := by
  refine ⟨⟨rfl, rfl, fun j => ?_, fun j => ?_⟩, fun j => ?_⟩ <;>
  · by_cases hj : j = i
    · subst hj
      simpa using ‹_›
    · simp [hj]

theorem kill_moves (t : Ptable) (pid : Int) : Ptable.Moves t (kill t pid).1 := by
  unfold kill
  cases hf : (List.finRange nproc).find? (fun j => (t.proc j).pid = pid) with
  | none => exact ⟨Ptable.Frame.refl t, fun _ => rfl⟩
  | some i =>
      dsimp only
      refine set_moves t i _ rfl rfl ?_
      -- a sleeping process is woken, any other keeps its state
      by_cases hs : (t.proc i).state = .sleeping
      · exact .inr ⟨.inl hs, by simp [hs, ProcState.Active]⟩
      · exact .inl (by simp [hs])

theorem running_active {t : Ptable} {i : Fin nproc} (h : t.running i = true) :
    (t.proc i).state.Active := by
  simp only [Ptable.running, decide_eq_true_eq] at h
  exact .inr (.inr h)

theorem schedule_moves (t : Ptable) (i : Fin nproc) : Ptable.Moves t (schedule t i) := by
  unfold schedule
  split_ifs with h
  · exact set_moves t i _ rfl rfl (.inr ⟨.inr (.inl h), .inr (.inr rfl)⟩)
  · exact ⟨Ptable.Frame.refl t, fun _ => rfl⟩

/-! ## The invariant -/

/-- What every table reachable from `userinit` satisfies. -/
structure ProcInv (t : Ptable) : Prop where
  nextpid_pos : 0 < t.nextpid
  pid_pos : ∀ i, t.Live i → 0 < (t.proc i).pid
  pid_lt : ∀ i, t.Live i → (t.proc i).pid < t.nextpid
  pid_inj : ∀ i j, t.Live i → t.Live j → (t.proc i).pid = (t.proc j).pid → i = j
  unused_parent : ∀ i, ¬ t.Live i → (t.proc i).parent = none
  init : ∃ r, t.initproc = some r ∧ t.Live r ∧ (t.proc r).state ≠ .zombie ∧
    (t.proc r).parent = none
  parent_ok : ∀ i j, (t.proc i).parent = some j →
    i ≠ j ∧ t.Live j ∧ (t.proc j).state ≠ .zombie
  orphan : ∀ i, t.Live i → (t.proc i).parent = none → t.initproc = some i

namespace ProcInv

variable {t t' : Ptable}

/-- A move keeps the invariant. -/
theorem moves (h : ProcInv t) (hm : Ptable.Moves t t') : ProcInv t' := by
  have hlive := hm.live_iff
  have hzombie : ∀ i, (t'.proc i).state ≠ .zombie ↔ (t.proc i).state ≠ .zombie :=
    fun i => not_congr (hm.state_eq_iff i (.inr rfl))
  refine ⟨?_, fun i hi => ?_, fun i hi => ?_, fun i j hi hj hij => ?_, fun i hi => ?_, ?_,
    fun i j hij => ?_, fun i hi hp => ?_⟩
  · rw [hm.nextpid]
    exact h.nextpid_pos
  · rw [hm.pid]
    exact h.pid_pos i ((hlive i).mp hi)
  · rw [hm.pid, hm.nextpid]
    exact h.pid_lt i ((hlive i).mp hi)
  · rw [hm.pid, hm.pid] at hij
    exact h.pid_inj i j ((hlive i).mp hi) ((hlive j).mp hj) hij
  · rw [hm.parent]
    exact h.unused_parent i (fun hl => hi ((hlive i).mpr hl))
  · obtain ⟨r, hr, hl, hz, hp⟩ := h.init
    exact ⟨r, hm.initproc ▸ hr, (hlive r).mpr hl, (hzombie r).mpr hz, (hm.parent r).trans hp⟩
  · rw [hm.parent] at hij
    obtain ⟨hne, hl, hz⟩ := h.parent_ok i j hij
    exact ⟨hne, (hlive j).mpr hl, (hzombie j).mpr hz⟩
  · rw [hm.parent] at hp
    rw [hm.initproc]
    exact h.orphan i ((hlive i).mp hi) hp

/-- A failed `fork` uses up a pid: its slot stays `UNUSED` and `nextpid` grows. -/
theorem burn (h : ProcInv t) {np : Fin nproc} (hnp : ¬ t.Live np)
    (hnext : t'.nextpid = t.nextpid + 1) (hinit : t'.initproc = t.initproc)
    (hother : ∀ j, j ≠ np → t'.proc j = t.proc j)
    (hstate : (t'.proc np).state = .unused) (hpar : (t'.proc np).parent = none) :
    ProcInv t' := by
  have hold : ∀ j, j ≠ np → (t'.Live j ↔ t.Live j) := fun j hj => Ptable.live_of_eq (hother j hj)
  -- a slot in use is not the one that was burnt
  have hne : ∀ j, t'.Live j → j ≠ np := fun j hj e => hj (e ▸ hstate)
  refine ⟨by rw [hnext]; linarith [h.nextpid_pos], fun i hi => ?_, fun i hi => ?_,
    fun i j hi hj hij => ?_, fun i hi => ?_, ?_, fun i j hij => ?_, fun i hi hp => ?_⟩
  · rw [hother i (hne i hi)]
    exact h.pid_pos i ((hold i (hne i hi)).mp hi)
  · rw [hother i (hne i hi), hnext]
    linarith [h.pid_lt i ((hold i (hne i hi)).mp hi)]
  · rw [hother i (hne i hi), hother j (hne j hj)] at hij
    exact h.pid_inj i j ((hold i (hne i hi)).mp hi) ((hold j (hne j hj)).mp hj) hij
  · by_cases hi' : i = np
    · subst hi'
      exact hpar
    · rw [hother i hi']
      exact h.unused_parent i (fun hl => hi ((hold i hi').mpr hl))
  · obtain ⟨r, hr, hl, hz, hp⟩ := h.init
    have hrn : r ≠ np := fun e => hnp (e ▸ hl)
    exact ⟨r, hinit ▸ hr, (hold r hrn).mpr hl, by rw [hother r hrn]; exact hz,
      by rw [hother r hrn]; exact hp⟩
  · have hi' : i ≠ np := by
      rintro rfl
      rw [hpar] at hij
      cases hij
    rw [hother i hi'] at hij
    obtain ⟨hij', hl, hz⟩ := h.parent_ok i j hij
    have hjn : j ≠ np := fun e => hnp (e ▸ hl)
    exact ⟨hij', (hold j hjn).mpr hl, by rw [hother j hjn]; exact hz⟩
  · rw [hother i (hne i hi)] at hp
    rw [hinit]
    exact h.orphan i ((hold i (hne i hi)).mp hi) hp

/-- A successful `fork` puts a runnable child with the next pid into an `UNUSED` slot,
as a child of the running caller. -/
theorem spawn (h : ProcInv t) {np cur : Fin nproc} (hnp : ¬ t.Live np)
    (hcur : (t.proc cur).state = .running)
    (hnext : t'.nextpid = t.nextpid + 1) (hinit : t'.initproc = t.initproc)
    (hother : ∀ j, j ≠ np → t'.proc j = t.proc j)
    (hstate : (t'.proc np).state = .runnable) (hpid : (t'.proc np).pid = t.nextpid)
    (hpar : (t'.proc np).parent = some cur) : ProcInv t' := by
  have hcurl : t.Live cur := by simp [Ptable.Live, hcur]
  have hcn : cur ≠ np := fun e => hnp (e ▸ hcurl)
  have hold : ∀ j, j ≠ np → (t'.Live j ↔ t.Live j) := fun j hj => Ptable.live_of_eq (hother j hj)
  have hnew : t'.Live np := by simp [Ptable.Live, hstate]
  -- the child's pid is above every pid in use before
  have hfresh : ∀ j, j ≠ np → t'.Live j → (t'.proc j).pid < t.nextpid := by
    intro j hj hl
    rw [hother j hj]
    exact h.pid_lt j ((hold j hj).mp hl)
  refine ⟨by rw [hnext]; linarith [h.nextpid_pos], fun i hi => ?_, fun i hi => ?_,
    fun i j hi hj hij => ?_, fun i hi => ?_, ?_, fun i j hij => ?_, fun i hi hp => ?_⟩
  · by_cases hi' : i = np
    · rw [hi', hpid]
      exact h.nextpid_pos
    · rw [hother i hi']
      exact h.pid_pos i ((hold i hi').mp hi)
  · rw [hnext]
    by_cases hi' : i = np
    · rw [hi', hpid]
      linarith
    · linarith [hfresh i hi' hi]
  · by_cases hi' : i = np <;> by_cases hj' : j = np
    · rw [hi', hj']
    · have := hfresh j hj' hj
      rw [hi', hpid] at hij
      omega
    · have := hfresh i hi' hi
      rw [hj', hpid] at hij
      omega
    · rw [hother i hi', hother j hj'] at hij
      exact h.pid_inj i j ((hold i hi').mp hi) ((hold j hj').mp hj) hij
  · have hi' : i ≠ np := fun e => hi (e ▸ hnew)
    rw [hother i hi']
    exact h.unused_parent i (fun hl => hi ((hold i hi').mpr hl))
  · obtain ⟨r, hr, hl, hz, hp⟩ := h.init
    have hrn : r ≠ np := fun e => hnp (e ▸ hl)
    exact ⟨r, hinit ▸ hr, (hold r hrn).mpr hl, by rw [hother r hrn]; exact hz,
      by rw [hother r hrn]; exact hp⟩
  · by_cases hi' : i = np
    · -- the child's parent is the caller, which is running
      rw [hi', hpar, Option.some.injEq] at hij
      subst hij
      refine ⟨hi' ▸ hcn.symm, (hold cur hcn).mpr hcurl, ?_⟩
      rw [hother cur hcn, hcur]
      decide
    · rw [hother i hi'] at hij
      obtain ⟨hij', hl, hz⟩ := h.parent_ok i j hij
      have hjn : j ≠ np := fun e => hnp (e ▸ hl)
      exact ⟨hij', (hold j hjn).mpr hl, by rw [hother j hjn]; exact hz⟩
  · have hi' : i ≠ np := by
      rintro rfl
      rw [hpar] at hp
      cases hp
    rw [hother i hi'] at hp
    rw [hinit]
    exact h.orphan i ((hold i hi').mp hi) hp

/-- `wait` reaps a zombie child of the caller: its slot becomes `UNUSED` with no
parent. -/
theorem reap (h : ProcInv t) {c cur : Fin nproc} (hc : (t.proc c).parent = some cur)
    (hz : (t.proc c).state = .zombie)
    (hnext : t'.nextpid = t.nextpid) (hinit : t'.initproc = t.initproc)
    (hother : ∀ j, j ≠ c → t'.proc j = t.proc j)
    (hstate : (t'.proc c).state = .unused) (hpar : (t'.proc c).parent = none) :
    ProcInv t' := by
  -- nobody is a child of an exited process, so nobody loses a parent
  have hnochild : ∀ i, (t.proc i).parent ≠ some c := fun i hi => (h.parent_ok i c hi).2.2 hz
  have hold : ∀ j, j ≠ c → (t'.Live j ↔ t.Live j) := fun j hj => Ptable.live_of_eq (hother j hj)
  have hne : ∀ j, t'.Live j → j ≠ c := fun j hj e => hj (e ▸ hstate)
  refine ⟨by rw [hnext]; exact h.nextpid_pos, fun i hi => ?_, fun i hi => ?_,
    fun i j hi hj hij => ?_, fun i hi => ?_, ?_, fun i j hij => ?_, fun i hi hp => ?_⟩
  · rw [hother i (hne i hi)]
    exact h.pid_pos i ((hold i (hne i hi)).mp hi)
  · rw [hother i (hne i hi), hnext]
    exact h.pid_lt i ((hold i (hne i hi)).mp hi)
  · rw [hother i (hne i hi), hother j (hne j hj)] at hij
    exact h.pid_inj i j ((hold i (hne i hi)).mp hi) ((hold j (hne j hj)).mp hj) hij
  · by_cases hi' : i = c
    · subst hi'
      exact hpar
    · rw [hother i hi']
      exact h.unused_parent i (fun hl => hi ((hold i hi').mpr hl))
  · obtain ⟨r, hr, hl, hrz, hp⟩ := h.init
    have hrc : r ≠ c := by
      rintro rfl
      rw [hc] at hp
      cases hp
    exact ⟨r, hinit ▸ hr, (hold r hrc).mpr hl, by rw [hother r hrc]; exact hrz,
      by rw [hother r hrc]; exact hp⟩
  · have hi' : i ≠ c := by
      rintro rfl
      rw [hpar] at hij
      cases hij
    rw [hother i hi'] at hij
    have hjc : j ≠ c := fun e => hnochild i (e ▸ hij)
    obtain ⟨hij', hl, hjz⟩ := h.parent_ok i j hij
    exact ⟨hij', (hold j hjc).mpr hl, by rw [hother j hjc]; exact hjz⟩
  · rw [hother i (hne i hi)] at hp
    rw [hinit]
    exact h.orphan i ((hold i (hne i hi)).mp hi) hp

/-- `exit` leaves the caller a zombie and hands its children to `initproc`; the rest of
the table moves only between active states. -/
theorem exit_zombie (h : ProcInv t) {cur : Fin nproc} {t₂ : Ptable}
    (hcur : (t.proc cur).state = .running) (hne : t.initproc ≠ some cur)
    (hf : Ptable.Frame t t₂)
    (hpar : ∀ i, (t₂.proc i).parent =
      if (t.proc i).parent = some cur then t.initproc else (t.proc i).parent) :
    ProcInv (t₂.set cur { t₂.proc cur with state := .zombie }) := by
  set t' := t₂.set cur { t₂.proc cur with state := .zombie } with ht'
  have hcurl : t.Live cur := by simp [Ptable.Live, hcur]
  have hlive : ∀ i, t'.Live i ↔ t.Live i := by
    intro i
    by_cases hi : i = cur
    · subst hi
      simp only [ht', Ptable.Live, Ptable.set_proc_self]
      exact ⟨fun _ => hcurl, fun _ => by decide⟩
    · rw [Ptable.live_of_eq (Ptable.set_proc_ne t₂ _ hi)]
      exact hf.live_iff i
  have hzom : ∀ i, i ≠ cur → ((t'.proc i).state = .zombie ↔ (t.proc i).state = .zombie) := by
    intro i hi
    rw [Ptable.set_proc_ne t₂ _ hi]
    exact hf.state_eq_iff i (.inr rfl)
  have hpid : ∀ i, (t'.proc i).pid = (t.proc i).pid := by
    intro i
    by_cases hi : i = cur
    · subst hi
      simp [ht', hf.pid]
    · rw [Ptable.set_proc_ne t₂ _ hi, hf.pid]
  have hpar' : ∀ i, (t'.proc i).parent =
      if (t.proc i).parent = some cur then t.initproc else (t.proc i).parent := by
    intro i
    by_cases hi : i = cur
    · subst hi
      simp only [ht', Ptable.set_proc_self]
      exact hpar i
    · rw [Ptable.set_proc_ne t₂ _ hi, hpar]
  obtain ⟨r, hr, hrl, hrz, hrp⟩ := h.init
  have hrc : r ≠ cur := fun e => hne (e ▸ hr)
  have hnext : t'.nextpid = t.nextpid := hf.nextpid
  have hinit : t'.initproc = t.initproc := hf.initproc
  refine ⟨by rw [hnext]; exact h.nextpid_pos, fun i hi => ?_, fun i hi => ?_,
    fun i j hi hj hij => ?_, fun i hi => ?_, ?_, fun i j hij => ?_, fun i hi hp => ?_⟩
  · rw [hpid]
    exact h.pid_pos i ((hlive i).mp hi)
  · rw [hpid, hnext]
    exact h.pid_lt i ((hlive i).mp hi)
  · rw [hpid, hpid] at hij
    exact h.pid_inj i j ((hlive i).mp hi) ((hlive j).mp hj) hij
  · have hp := h.unused_parent i (fun hl => hi ((hlive i).mpr hl))
    rw [hpar', hp]
    simp
  · refine ⟨r, hinit ▸ hr, (hlive r).mpr hrl, fun hz => hrz ((hzom r hrc).mp hz), ?_⟩
    rw [hpar', hrp]
    simp
  · rw [hpar'] at hij
    by_cases hc : (t.proc i).parent = some cur
    · -- a child of the caller now has `initproc` for its parent
      rw [if_pos hc, hr, Option.some.injEq] at hij
      subst hij
      have hir : i ≠ r := by
        rintro rfl
        rw [hrp] at hc
        cases hc
      exact ⟨hir, (hlive r).mpr hrl, fun hz => hrz ((hzom r hrc).mp hz)⟩
    · rw [if_neg hc] at hij
      obtain ⟨hij', hl, hz⟩ := h.parent_ok i j hij
      have hjc : j ≠ cur := fun e => hc (e ▸ hij)
      exact ⟨hij', (hlive j).mpr hl, fun hz' => hz ((hzom j hjc).mp hz')⟩
  · rw [hpar'] at hp
    rw [hinit]
    by_cases hc : (t.proc i).parent = some cur
    · rw [if_pos hc, hr] at hp
      cases hp
    · rw [if_neg hc] at hp
      exact h.orphan i ((hlive i).mp hi) hp

end ProcInv

/-! ## Each operation keeps the invariant -/

theorem findUnused_some {t : Ptable} {i : Fin nproc} (h : t.findUnused = some i) :
    ¬ t.Live i := by
  have := List.find?_some h
  simpa [Ptable.Live] using this

theorem fork_inv {t : Ptable} (h : ProcInv t) {cur : Fin nproc}
    (hcur : (t.proc cur).state = .running) (kstackOk copyOk : Bool) :
    ProcInv (fork t cur kstackOk copyOk).1 := by
  unfold fork allocproc
  cases hf : t.findUnused with
  | none => exact h
  | some np =>
      have hnp := findUnused_some hf
      cases kstackOk <;> cases copyOk <;> dsimp only
      · -- the kernel stack could not be allocated
        refine h.burn hnp rfl rfl (fun j hj => ?_) (by simp) (by simp [h.unused_parent np hnp])
        simp [hj]
      · refine h.burn hnp rfl rfl (fun j hj => ?_) (by simp) (by simp [h.unused_parent np hnp])
        simp [hj]
      · -- `copyuvm` failed
        refine h.burn hnp rfl rfl (fun j hj => ?_) (by simp) (by simp [h.unused_parent np hnp])
        simp [hj]
      · refine h.spawn hnp hcur rfl rfl (fun j hj => ?_) (by simp) (by simp) (by simp)
        simp [hj]

/-- INTERNAL: one iteration of the reparenting loop gives the slot to `initproc` if it was
a child of `cur`, and may wake `initproc`. -/
theorem reparentStep_spec (cur : Fin nproc) (t : Ptable) (j : Fin nproc) :
    Ptable.Frame t (reparentStep cur t j) ∧
      ∀ i, ((reparentStep cur t j).proc i).parent =
        if i = j ∧ (t.proc i).parent = some cur then t.initproc else (t.proc i).parent := by
  -- the new parent is written into slot `j` alone
  have hset : Ptable.Frame t (t.set j { t.proc j with parent := t.initproc }) ∧
      ∀ i, ((t.set j { t.proc j with parent := t.initproc }).proc i).parent =
        if i = j then t.initproc else (t.proc i).parent := by
    refine ⟨⟨rfl, rfl, fun i => ?_, fun i => ?_⟩, fun i => ?_⟩ <;>
    · by_cases hi : i = j
      · subst hi
        simp
      · simp [hi]
  unfold reparentStep
  dsimp only
  split_ifs with hj hz
  · obtain ⟨hf, hp⟩ := hset
    have hw := wakeup1_moves (t.set j { t.proc j with parent := t.initproc })
      ((t.set j { t.proc j with parent := t.initproc }).initproc.map Chan.proc)
    refine ⟨hf.trans hw.toFrame, fun i => ?_⟩
    rw [hw.parent, hp]
    by_cases hi : i = j
    · subst hi
      simp [hj]
    · simp [hi]
  · obtain ⟨hf, hp⟩ := hset
    refine ⟨hf, fun i => ?_⟩
    rw [hp]
    by_cases hi : i = j
    · subst hi
      simp [hj]
    · simp [hi]
  · refine ⟨Ptable.Frame.refl t, fun i => ?_⟩
    by_cases hi : i = j
    · subst hi
      simp [hj]
    · simp [hi]

/-- The reparenting loop of `exit`: every child of `cur` among the slots visited gets
`initproc` for its parent. -/
theorem reparent_spec (cur : Fin nproc) :
    ∀ (l : List (Fin nproc)) (t : Ptable), t.initproc ≠ some cur →
      Ptable.Frame t (l.foldl (reparentStep cur) t) ∧
      ∀ i, ((l.foldl (reparentStep cur) t).proc i).parent =
        if i ∈ l ∧ (t.proc i).parent = some cur then t.initproc else (t.proc i).parent
  | [], t, _ => ⟨Ptable.Frame.refl t, fun i => by simp⟩
  | j :: l, t, hinit => by
      obtain ⟨hf₁, hp₁⟩ := reparentStep_spec cur t j
      have hinit₁ : (reparentStep cur t j).initproc ≠ some cur := hf₁.initproc ▸ hinit
      obtain ⟨hf₂, hp₂⟩ := reparent_spec cur l (reparentStep cur t j) hinit₁
      refine ⟨hf₁.trans hf₂, fun i => ?_⟩
      rw [List.foldl_cons, hp₂ i, hp₁ i, hf₁.initproc]
      by_cases hij : i = j
      · -- slot `j` was given its new parent by this iteration, and the rest of the loop
        -- leaves it, since `initproc` is not `cur`
        subst hij
        by_cases hc : (t.proc i).parent = some cur <;> simp [hc, hinit]
      · simp [hij]

theorem exit_inv {t t' : Ptable} (h : ProcInv t) {cur : Fin nproc}
    (hcur : (t.proc cur).state = .running) (hexit : exit t cur = some t') : ProcInv t' := by
  unfold exit at hexit
  split_ifs at hexit with hne
  simp only [Option.some.injEq] at hexit
  subst hexit
  have hw := wakeup1_moves t ((t.proc cur).parent.map Chan.proc)
  obtain ⟨hf, hp⟩ := reparent_spec cur (List.finRange nproc)
    (wakeup1 t ((t.proc cur).parent.map Chan.proc)) hne
  refine h.exit_zombie hcur hne (hw.toFrame.trans hf) (fun i => ?_)
  rw [hp i, hw.parent, hw.initproc]
  simp

theorem wait_inv {t : Ptable} (h : ProcInv t) {cur : Fin nproc}
    (hcur : (t.proc cur).state = .running) : ProcInv (wait t cur).1 := by
  unfold wait
  cases hf : (List.finRange nproc).find? (fun i =>
      (t.proc i).parent = some cur ∧ (t.proc i).state = .zombie) with
  | some c =>
      have hc := List.find?_some hf
      simp only [decide_eq_true_eq] at hc
      dsimp only
      refine h.reap hc.1 hc.2 rfl rfl (fun j hj => ?_) (by simp [Proc.reaped])
        (by simp [Proc.reaped])
      simp [hj]
  | none =>
      dsimp only
      split_ifs
      · exact h
      · -- the caller goes to sleep in its own slot
        exact h.moves (set_moves t cur _ rfl rfl (.inr ⟨.inr (.inr hcur), .inl rfl⟩))

/-- Every step keeps the invariant. -/
theorem procStep_inv {t : Ptable} (h : ProcInv t) (op : ProcOp) : ProcInv (procStep t op).1 := by
  cases op with
  | fork cur kstackOk copyOk =>
      simp only [procStep]
      split_ifs with hr
      · exact fork_inv h (by simpa [Ptable.running] using hr) kstackOk copyOk
      · exact h
  | exit cur =>
      simp only [procStep]
      split_ifs with hr
      · cases he : exit t cur with
        | none => exact h
        | some t' => exact exit_inv h (by simpa [Ptable.running] using hr) he
      · exact h
  | wait cur =>
      simp only [procStep]
      split_ifs with hr
      · have hw : ProcInv (wait t cur).1 := wait_inv h (by simpa [Ptable.running] using hr)
        cases hwt : wait t cur with
        | mk t' v => cases v <;> simpa [hwt] using hw
      · exact h
  | kill cur pid =>
      simp only [procStep]
      split_ifs
      · exact h.moves (kill_moves t pid)
      · exact h
  | sleep cur chan =>
      simp only [procStep]
      split_ifs with hr
      · exact h.moves (set_moves t cur _ rfl rfl (.inr ⟨running_active hr, .inl rfl⟩))
      · exact h
  | wakeup chan => exact h.moves (wakeup1_moves t (some chan))
  | yield cur =>
      simp only [procStep]
      split_ifs with hr
      · exact h.moves (set_moves t cur _ rfl rfl (.inr ⟨running_active hr, .inr (.inl rfl)⟩))
      · exact h
  | schedule i => exact h.moves (schedule_moves t i)

/-- The table after `userinit`: `initproc` runnable in slot `0` with pid `1`, every
other slot still zero. -/
theorem userinit_zero : ∃ t, userinit Ptable.zero = some t ∧ t.nextpid = 2 ∧
    t.initproc = some 0 ∧ (t.proc 0).state = .runnable ∧ (t.proc 0).pid = 1 ∧
    (t.proc 0).parent = none ∧ ∀ i, i ≠ 0 → t.proc i = Proc.zero := by
  refine ⟨_, rfl, ?_⟩
  refine ⟨rfl, rfl, by simp, by simp [Ptable.zero, Proc.zero], by simp [Ptable.zero, Proc.zero],
    fun i hi => ?_⟩
  simp [hi, Ptable.zero]

/-- The table `userinit` builds at boot keeps the invariant. -/
theorem userinit_inv : ∃ t, userinit Ptable.zero = some t ∧ ProcInv t := by
  obtain ⟨t, ht, hnext, hinit, hstate, hpid, hpar, hzero⟩ := userinit_zero
  -- only slot `0` is in use
  have hlive : ∀ i, t.Live i → i = 0 := by
    intro i hi
    by_contra h0
    apply hi
    rw [hzero i h0]
    rfl
  have hparent : ∀ i, (t.proc i).parent = none := by
    intro i
    by_cases h0 : i = 0
    · rw [h0, hpar]
    · rw [hzero i h0]
      rfl
  refine ⟨t, ht, by rw [hnext]; decide, fun i hi => ?_, fun i hi => ?_, fun i j hi hj _ => ?_,
    fun i _ => hparent i, ⟨0, hinit, by simp [Ptable.Live, hstate], by simp [hstate], hpar⟩,
    fun i j hij => ?_, fun i hi _ => ?_⟩
  · rw [hlive i hi, hpid]
    decide
  · rw [hlive i hi, hpid, hnext]
    decide
  · rw [hlive i hi, hlive j hj]
  · rw [hparent i] at hij
    cases hij
  · rw [hlive i hi, hinit]

/-- `kill` stops at the first slot holding the pid even when that slot is `UNUSED`: it
returns `0` and leaves the slot `UNUSED` with `killed = 1`. -/
theorem kill_marks_unused {t : Ptable} {pid : Int} {i : Fin nproc}
    (hfind : (List.finRange nproc).find? (fun j => (t.proc j).pid = pid) = some i)
    (hi : (t.proc i).state = .unused) :
    (kill t pid).2 = 0 ∧ ((kill t pid).1.proc i).state = .unused ∧
      ((kill t pid).1.proc i).killed = 1 := by
  simp [kill, hfind, hi]

/-- `allocproc` hands a slot out with the `killed` flag it had while `UNUSED`. -/
theorem allocproc_killed {t t' : Ptable} {ok : Bool} {i : Fin nproc}
    (h : allocproc t ok = (t', some i)) : (t'.proc i).killed = (t.proc i).killed := by
  unfold allocproc at h
  cases hf : t.findUnused with
  | none => simp [hf] at h
  | some j =>
      cases ok with
      | false => simp [hf] at h
      | true =>
          simp only [hf, if_true, Prod.mk.injEq, Option.some.injEq] at h
          obtain ⟨rfl, rfl⟩ := h
          simp

/-- The failing run.  At boot every `UNUSED` slot has pid `0`.  `initproc` is scheduled
and calls `kill(0)`, which returns `0` after marking the `UNUSED` slot `1`; its `fork`
then takes slot `1`, and the child is runnable with `killed = 1`. -/
theorem kill_zero_kills_next_child : ∃ t, userinit Ptable.zero = some t ∧
    (procRun t [.schedule 0, .kill 0 0, .fork 0 true true]).2 = [.none, .ret 0, .ret 2] ∧
    ((procRun t [.schedule 0, .kill 0 0, .fork 0 true true]).1.proc 1).state = .runnable ∧
    ((procRun t [.schedule 0, .kill 0 0, .fork 0 true true]).1.proc 1).parent = some 0 ∧
    ((procRun t [.schedule 0, .kill 0 0, .fork 0 true true]).1.proc 1).killed = 1 := by
  refine ⟨_, rfl, ?_⟩
  decide

end Xv6
