import Mathlib

/-!
# Ring buffers indexed by free-running counters

A ring buffer of capacity `n` whose producer and consumer keep counters that are
never reduced modulo `n`: they count every element ever written and read, and only
wrap at the machine modulus `m`.  The slot of the element with counter value `c` is
`c % n`.  When `n ∣ m` the wrap at `m` is invisible to the slot arithmetic, and the
number of stored elements is the machine difference `(w - r) mod m`.

`window buf n r k` is the list of the `k` elements stored from counter `r` on; it is
the abstract FIFO contents of the buffer.  The lemmas below are the ones every
producer/consumer proof needs: writing the next free slot appends, advancing the
read counter pops, a write outside the window leaves it alone, and the machine
difference moves by one on each side.
-/

set_option autoImplicit false

namespace RingBuf

variable {α : Type}

/-- The `k` elements stored from free-running counter `r` on, in FIFO order. -/
def window (buf : Nat → α) (n r k : Nat) : List α :=
  (List.range k).map fun i => buf ((r + i) % n)

/-- The counter after `c < m` on a machine of modulus `m` (`c++` on an unsigned word).
Written by cases rather than as `(c + 1) % m`: the two agree below the modulus, and
the case split keeps the kernel from unfolding a large modulus. -/
def inc (m c : Nat) : Nat := if c + 1 < m then c + 1 else 0

/-- The counter before `c < m` on a machine of modulus `m` (`c--` on an unsigned word). -/
def dec (m c : Nat) : Nat := if c = 0 then m - 1 else c - 1

/-- The unsigned difference `a - b` of two counters below `m`, i.e. `(a + m - b) % m`. -/
def dist (m a b : Nat) : Nat := if b ≤ a then a - b else a + m - b

/-- Overwrite one slot of the backing store. -/
def write (buf : Nat → α) (slot : Nat) (x : α) : Nat → α :=
  fun j => if j = slot then x else buf j

@[simp] theorem window_zero (buf : Nat → α) (n r : Nat) : window buf n r 0 = [] := rfl

@[simp] theorem length_window (buf : Nat → α) (n r k : Nat) :
    (window buf n r k).length = k := by
  simp [window]

/-- INTERNAL: the window grows at its back by the slot `k` after its start. -/
theorem window_succ (buf : Nat → α) (n r k : Nat) :
    window buf n r (k + 1) = window buf n r k ++ [buf ((r + k) % n)] := by
  simp [window, List.range_succ]

/-- INTERNAL: the window's front is the slot of `r`, and the rest starts at `r + 1`. -/
theorem window_succ_front (buf : Nat → α) (n r k : Nat) :
    window buf n r (k + 1) = buf (r % n) :: window buf n (r + 1) k := by
  simp only [window, List.range_succ_eq_map, List.map_cons, List.map_map, Nat.add_zero]
  congr 1
  apply List.map_congr_left
  intro i _
  simp only [Function.comp_apply, Nat.succ_eq_add_one]
  rw [show r + (i + 1) = r + 1 + i by omega]

/-- INTERNAL: two stores that agree on the window's slots have the same window. -/
theorem window_congr {buf buf' : Nat → α} {n r k : Nat}
    (h : ∀ i, i < k → buf ((r + i) % n) = buf' ((r + i) % n)) :
    window buf n r k = window buf' n r k := by
  unfold window
  apply List.map_congr_left
  intro i hi
  exact h i (List.mem_range.mp hi)

/-- INTERNAL: the window only depends on the counter modulo a multiple of `n`. -/
theorem window_mod (buf : Nat → α) {n m : Nat} (hnm : n ∣ m) (r k : Nat) :
    window buf n (r % m) k = window buf n r k := by
  unfold window
  apply List.map_congr_left
  intro i _
  congr 1
  rw [Nat.add_mod, Nat.mod_mod_of_dvd _ hnm, ← Nat.add_mod]

/-- INTERNAL: within one revolution, distinct offsets from `r` land in distinct slots. -/
theorem slot_ne {n r i k : Nat} (hi : i < k) (hk : k < n) :
    (r + i) % n ≠ (r + k) % n := by
  intro h
  have hmod := Nat.sub_mod_eq_zero_of_mod_eq h.symm
  have hsub : r + k - (r + i) = k - i := by omega
  rw [hsub] at hmod
  have := Nat.le_of_dvd (by omega) (Nat.dvd_of_mod_eq_zero hmod)
  omega

/-- A write to a slot between the window's end and one revolution past its start leaves
the window unchanged. -/
theorem window_write_out (buf : Nat → α) (n r : Nat) {k j : Nat} (x : α) (hkj : k ≤ j)
    (hj : j < n) : window (write buf ((r + j) % n) x) n r k = window buf n r k := by
  apply window_congr
  intro i hi
  simp [write, slot_ne (show i < j by omega) hj]

/-- A write to the slot just past the window leaves the window unchanged. -/
theorem window_write_fresh (buf : Nat → α) (n r k : Nat) (x : α) (hk : k < n) :
    window (write buf ((r + k) % n) x) n r k = window buf n r k :=
  window_write_out buf n r x (Nat.le_refl k) hk

/-- Writing the slot just past the window appends the written element. -/
theorem window_push (buf : Nat → α) (n r k : Nat) (x : α) (hk : k < n) :
    window (write buf ((r + k) % n) x) n r (k + 1) = window buf n r k ++ [x] := by
  rw [window_succ, window_write_fresh buf n r k x hk]
  simp [write]

@[simp] theorem window_one (buf : Nat → α) (n r : Nat) : window buf n r 1 = [buf (r % n)] := by
  simp [window]

/-- INTERNAL: a window of `a + b` elements is the first `a` followed by the next `b`. -/
theorem window_append (buf : Nat → α) (n r a b : Nat) :
    window buf n r (a + b) = window buf n r a ++ window buf n (r + a) b := by
  simp only [window, List.range_add, List.map_append, List.map_map]
  congr 1
  apply List.map_congr_left
  intro i _
  simp only [Function.comp_apply, Nat.add_assoc]

/-- A shorter window from the same counter is a prefix of a longer one. -/
theorem window_prefix (buf : Nat → α) (n r : Nat) {k k' : Nat} (h : k ≤ k') :
    window buf n r k <+: window buf n r k' := by
  obtain ⟨d, rfl⟩ := Nat.exists_eq_add_of_le h
  rw [window_append]
  exact List.prefix_append _ _

/-- INTERNAL: `inc` stays below a positive modulus. -/
theorem inc_lt {m : Nat} (hm : 0 < m) (c : Nat) : inc m c < m := by
  unfold inc
  split <;> omega

/-- INTERNAL: `dec` stays below a positive modulus. -/
theorem dec_lt {m c : Nat} (hc : c < m) : dec m c < m := by
  unfold dec
  split <;> omega

/-- INTERNAL: below the modulus, `inc` is the machine increment `(c + 1) % m`. -/
theorem inc_eq_mod {m c : Nat} (hc : c < m) : inc m c = (c + 1) % m := by
  unfold inc
  split
  · exact (Nat.mod_eq_of_lt ‹_›).symm
  · rw [show c + 1 = m by omega, Nat.mod_self]

/-- INTERNAL: decrementing undoes incrementing. -/
theorem dec_inc {m c : Nat} (hc : c < m) : dec m (inc m c) = c := by
  by_cases h : c + 1 < m
  · simp only [inc, dec, if_pos h, Nat.add_one_ne_zero, if_false, Nat.add_sub_cancel]
  · simp only [inc, dec, if_neg h, if_true]
    omega

/-- INTERNAL: a counter is its start plus the unsigned distance to it. -/
theorem add_dist {m a b : Nat} (ha : a < m) (hb : b < m) : (b + dist m a b) % m = a := by
  unfold dist
  split
  · rw [show b + (a - b) = a by omega]
    exact Nat.mod_eq_of_lt ha
  · rw [show b + (a + m - b) = a + m by omega, Nat.add_mod_right]
    exact Nat.mod_eq_of_lt ha

/-- INTERNAL: the distance from a counter to itself is zero. -/
@[simp] theorem dist_self (m a : Nat) : dist m a a = 0 := by
  simp [dist]

/-- INTERNAL: two counters below the modulus are equal exactly when their distance is zero. -/
theorem dist_eq_zero_iff {m a b : Nat} (hb : b < m) : dist m a b = 0 ↔ a = b := by
  unfold dist
  split_ifs <;> omega

/-- INTERNAL: two distances whose sum stays below the modulus add up. -/
theorem dist_add_of_lt {m a b c : Nat} (ha : a < m) (hb : b < m) (hc : c < m)
    (h : dist m a b + dist m b c < m) : dist m a b + dist m b c = dist m a c := by
  unfold dist at *
  split_ifs at * <;> omega

/-- INTERNAL: distances add up along three counters in order: from `c` to `b` is no
further than from `c` to `a`. -/
theorem dist_add {m a b c : Nat} (ha : a < m) (hb : b < m) (hc : c < m)
    (h : dist m b c ≤ dist m a c) : dist m a b + dist m b c = dist m a c := by
  unfold dist at *
  split_ifs at * <;> omega

/-- Advancing the producer counter grows the distance by one (below the modulus). -/
theorem dist_inc_left {m a b : Nat} (ha : a < m) (hb : b < m) (h : dist m a b + 1 < m) :
    dist m (inc m a) b = dist m a b + 1 := by
  unfold dist inc at *
  split_ifs at * <;> omega

/-- Advancing the consumer counter shrinks a positive distance by one. -/
theorem dist_inc_right {m a b : Nat} (ha : a < m) (hb : b < m) (h : 0 < dist m a b) :
    dist m a (inc m b) = dist m a b - 1 := by
  unfold dist inc at *
  split_ifs at * <;> omega

/-- Moving the producer back by one shrinks a positive distance by one. -/
theorem dist_dec_left {m a b : Nat} (ha : a < m) (hb : b < m) (h : 0 < dist m a b) :
    dist m (dec m a) b = dist m a b - 1 := by
  unfold dist dec at *
  split_ifs at * <;> omega

/-- Advancing the consumer pops the window's front. -/
theorem window_pop {m : Nat} (buf : Nat → α) {n : Nat} (hnm : n ∣ m) {r : Nat} (hr : r < m)
    (k : Nat) : window buf n r (k + 1) = buf (r % n) :: window buf n (inc m r) k := by
  rw [window_succ_front, inc_eq_mod hr, window_mod buf hnm]

/-- The slot of the element `k` past `r`, read through a wrapped counter. -/
theorem slot_add_dist {m n a b : Nat} (hnm : n ∣ m) (ha : a < m) (hb : b < m) :
    (b + dist m a b) % n = a % n := by
  rw [← Nat.mod_mod_of_dvd (b + dist m a b) hnm, add_dist ha hb]

/-- The window from `r` up to a counter `a` splits at any counter `b` between them. -/
theorem window_split (buf : Nat → α) {m n : Nat} (hnm : n ∣ m) {r a b : Nat} (hr : r < m)
    (ha : a < m) (hb : b < m) (h : dist m b r ≤ dist m a r) :
    window buf n r (dist m a r) = window buf n r (dist m b r) ++ window buf n b (dist m a b) := by
  rw [← dist_add ha hb hr h, Nat.add_comm (dist m a b), window_append,
    ← window_mod buf hnm (r + dist m b r), add_dist hb hr]

end RingBuf
