import Xv6.Model.Path
import Xv6.Lib.Run

/-!
# `skipelem` splits a path into its elements, and `namex` looks them up

For a path without a `NUL` inside it, one call of `skipelem` either finds no element left
and returns `0`, or copies the first element of `FsImage.pathElems`, the maximal runs of
bytes other than `/`, and returns the path of the others with no leading slash
(`skipelem_cases`).  Iterating it from the path visits the elements in order
(`skipelemRun_elems`), with the name copied as the element's first `DIRSIZ` bytes, ended
by a `NUL` when shorter (`NameOf`).

`dirlookup` reads the name only through `namecmp`, which stops at the first `NUL`
(`strncmp_congr`), so the copied name finds what the zero-filled `FsImage.skipelem` of
the element finds (`dirlookup_of_nameOf`).  Then `namex(path, 0, name)` is `namei`'s
loop over the path's elements (`namexLoop_lookup`), and with `nameiparent` set it does
the same lookups but for the last element, returning the directory that holds it
(`namexLoop_parent`) with the last element's name in the buffer (`namexLoop_parent_name`).
-/

set_option autoImplicit false

namespace Xv6

namespace Path

open FsImage (pathElems)

/-! ## The elements of a path -/

theorem pathElems_slash (p : List UInt8) : pathElems (47 :: p) = pathElems p := by
  simp [FsImage.pathElems, List.splitOn_cons_eq_if_modifyHead]

/-- INTERNAL: an element followed by the end of the path or by a slash is the first
element. -/
theorem pathElems_elem_append {e rest : List UInt8} (he : e ≠ []) (hsl : 47 ∉ e)
    (hrest : rest = [] ∨ rest.head? = some 47) : pathElems (e ++ rest) = e :: pathElems rest := by
  rcases hrest with rfl | hhead
  · simp [FsImage.pathElems, List.splitOn_eq_singleton hsl, he]
  · obtain ⟨as, rfl⟩ : ∃ as, rest = 47 :: as := by
      cases rest with
      | nil => simp at hhead
      | cons c as => exact ⟨as, by simpa using hhead⟩
    rw [pathElems_slash]
    simp [FsImage.pathElems, List.splitOn_append_cons_self_of_not_mem hsl, he]

theorem pathElems_skipSlashes (p : List UInt8) : pathElems (skipSlashes p) = pathElems p := by
  induction p with
  | nil => rfl
  | cons c p ih =>
      by_cases hc : c = 47
      · rw [skipSlashes, if_pos hc, ih, hc, pathElems_slash]
      · rw [skipSlashes, if_neg hc]

theorem skipSlashes_head (p : List UInt8) : (skipSlashes p).head? ≠ some 47 := by
  induction p with
  | nil => simp [skipSlashes]
  | cons c p ih =>
      by_cases hc : c = 47
      · rw [skipSlashes, if_pos hc]
        exact ih
      · rw [skipSlashes, if_neg hc]
        simpa using hc

theorem skipSlashes_suffix (p : List UInt8) : skipSlashes p <:+ p := by
  induction p with
  | nil => exact List.suffix_refl []
  | cons c p ih =>
      by_cases hc : c = 47
      · rw [skipSlashes, if_pos hc]
        exact ih.trans (List.suffix_cons c p)
      · rw [skipSlashes, if_neg hc]

/-- INTERNAL: a path that does not start with a slash is its own `skipSlashes`. -/
theorem skipSlashes_of_head {p : List UInt8} (h : p.head? ≠ some 47) : skipSlashes p = p := by
  cases p with
  | nil => rfl
  | cons c p =>
      rw [skipSlashes, if_neg (by simpa using h)]

theorem scanElem_append (p : List UInt8) : (scanElem p).1 ++ (scanElem p).2 = p := by
  induction p with
  | nil => rfl
  | cons c p ih =>
      by_cases hc : c ≠ 47 ∧ c ≠ 0
      · simp only [scanElem, if_pos hc, List.cons_append, ih]
      · simp only [scanElem, if_neg hc, List.nil_append]

theorem scanElem_elem (p : List UInt8) : ∀ x ∈ (scanElem p).1, x ≠ 47 ∧ x ≠ 0 := by
  induction p with
  | nil => simp [scanElem]
  | cons c p ih =>
      by_cases hc : c ≠ 47 ∧ c ≠ 0
      · simp only [scanElem, if_pos hc, List.mem_cons]
        rintro x (rfl | hx)
        · exact hc
        · exact ih x hx
      · simp [scanElem, if_neg hc]

/-- INTERNAL: the scan stops at the end, at a slash or at a zero byte. -/
theorem scanElem_rest (p : List UInt8) :
    (scanElem p).2 = [] ∨ (scanElem p).2.head? = some 47 ∨ (scanElem p).2.head? = some 0 := by
  induction p with
  | nil => simp [scanElem]
  | cons c p ih =>
      by_cases hc : c ≠ 47 ∧ c ≠ 0
      · simp only [scanElem, if_pos hc]
        exact ih
      · simp only [scanElem, if_neg hc, List.head?_cons, Option.some.injEq]
        right
        by_contra hne
        exact hc (not_or.mp hne)

/-- One call of `skipelem` on a path without a `NUL`: no element and `0`, or the first
element copied and the path of the others returned, shorter and without a leading
slash. -/
theorem skipelem_cases {path : List UInt8} (h0 : 0 ∉ path) (name : Nat → UInt8) :
    (pathElems path = [] ∧ skipelem path name = none) ∨
      ∃ e rest, pathElems path = e :: pathElems rest ∧ skipelem path name = some (rest, copyName name e) ∧
        rest.head? ≠ some 47 ∧ 0 ∉ rest ∧ rest.length < path.length := by
  have hsuf := skipSlashes_suffix path
  have hq0 : 0 ∉ skipSlashes path := fun h => h0 (hsuf.subset h)
  rw [← pathElems_skipSlashes path]
  cases hq : skipSlashes path with
  | nil =>
      left
      refine ⟨rfl, ?_⟩
      simp [skipelem, hq, peek]
  | cons c r =>
      right
      rw [hq] at hq0
      have hc47 : c ≠ 47 := by simpa [hq] using skipSlashes_head path
      have hc0 : c ≠ 0 := fun h => hq0 (by simp [h])
      rcases hsc : scanElem (c :: r) with ⟨e, r'⟩
      have happ : e ++ r' = c :: r := by simpa [hsc] using scanElem_append (c :: r)
      have he : e ≠ [] := by
        rw [scanElem, if_pos ⟨hc47, hc0⟩] at hsc
        cases hsc
        simp
      have hr0 : 0 ∉ r' := fun h => hq0 (by rw [← happ]; exact List.mem_append_right e h)
      -- the scan stopped at the end or at a slash: the path has no zero byte
      have hstop : r' = [] ∨ r'.head? = some 47 := by
        rcases scanElem_rest (c :: r) with h | h | h
        · exact Or.inl (by simpa [hsc] using h)
        · exact Or.inr (by simpa [hsc] using h)
        · exfalso
          apply hr0
          rw [hsc] at h
          exact List.mem_of_mem_head? h
      have hsl : (47 : UInt8) ∉ e := by
        intro h
        have helem := scanElem_elem (c :: r)
        rw [hsc] at helem
        exact (helem 47 h).1 rfl
      refine ⟨e, skipSlashes r', ?_, ?_, skipSlashes_head r', ?_, ?_⟩
      · rw [← happ, pathElems_elem_append he hsl hstop, pathElems_skipSlashes]
      · simp only [skipelem, hq, peek, List.headD_cons, if_neg hc0, hsc]
      · exact fun h => hr0 ((skipSlashes_suffix r').subset h)
      · have hlen := congrArg List.length happ
        have hsuf' := (skipSlashes_suffix r').length_le
        have hpath := hsuf.length_le
        rw [hq] at hpath
        have hepos : 0 < e.length := List.length_pos_iff.mpr he
        simp only [List.length_append, List.length_cons] at hlen hpath
        omega

/-- INTERNAL: past an element, the path is at its end exactly when no element is left. -/
theorem peek_eq_zero_iff {p : List UInt8} (h0 : 0 ∉ p) (h47 : p.head? ≠ some 47) :
    peek p = 0 ↔ pathElems p = [] := by
  rcases skipelem_cases h0 (fun _ => 0) with ⟨hnil, hnone⟩ | ⟨e, rest, hel, hsk, -⟩
  · simp only [hnil, iff_true]
    simp only [skipelem, skipSlashes_of_head h47] at hnone
    by_contra hne
    rw [if_neg hne] at hnone
    cases hnone
  · simp only [hel, reduceCtorEq, iff_false]
    intro hpeek
    simp [skipelem, skipSlashes_of_head h47, hpeek] at hsk

/-! ## The names copied -/

/-- The buffer `nm` holds the element `e` as `skipelem` copies it: its first
`min(len, DIRSIZ)` bytes, and a `NUL` after them when the element is shorter than
`DIRSIZ`. -/
def NameOf (e : List UInt8) (nm : Nat → UInt8) : Prop :=
  (∀ i, i < min e.length dirsiz → nm i = e.getD i 0) ∧ (e.length < dirsiz → nm e.length = 0)

theorem copyName_nameOf (name : Nat → UInt8) (e : List UInt8) : NameOf e (copyName name e) := by
  unfold copyName
  by_cases hl : e.length ≥ dirsiz
  · refine ⟨fun i hi => ?_, fun h => absurd h (by omega)⟩
    simp only [if_pos hl, if_pos (show i < dirsiz by omega)]
  · refine ⟨fun i hi => ?_, fun _ => ?_⟩
    · simp only [if_neg hl, if_pos (show i < e.length by omega)]
    · simp only [if_neg hl, lt_self_iff_false, if_false, if_true]

/-- `strncmp` from byte `i` reads `p` only up to its first `NUL`: two strings equal up to
and including it compare alike. -/
theorem strncmp_congr {p p' : Nat → UInt8} (q : Nat → UInt8) (n : Nat) :
    ∀ i, (∀ j, i ≤ j → j < i + n → (∀ k, i ≤ k → k < j → p k ≠ 0) → p j = p' j) →
      FsImage.strncmp p q n i = FsImage.strncmp p' q n i := by
  induction n with
  | zero => intro i _; rfl
  | succ n ih =>
      intro i h
      have hi : p i = p' i := h i le_rfl (by omega) (fun k hk hk' => absurd hk' (by omega))
      simp only [FsImage.strncmp, hi]
      by_cases hc : p' i ≠ 0 ∧ p' i = q i
      · rw [if_pos hc, if_pos hc]
        apply ih (i + 1)
        intro j hj hjn hk
        apply h j (by omega) (by omega)
        intro k hk₁ hk₂
        by_cases hki : k = i
        · rw [hki, hi]
          exact hc.1
        · exact hk k (by omega) hk₂
      · rw [if_neg hc, if_neg hc]

/-- The copied name compares as the zero-filled name of the element. -/
theorem namecmp_of_nameOf {e : List UInt8} {nm : Nat → UInt8} (hname : NameOf e nm) (q : Nat → UInt8) :
    FsImage.namecmp nm q = FsImage.namecmp (FsImage.skipelem e) q := by
  unfold FsImage.namecmp
  apply strncmp_congr q dirsiz 0
  intro j _ hj hk
  have hskip : FsImage.skipelem e j = e.getD j 0 := if_pos (by omega)
  rw [hskip]
  by_cases hjl : j < e.length
  · exact hname.1 j (by omega)
  · -- at the end of the element both hold the `NUL`; past it `strncmp` has stopped
    have hj' : j = e.length := by
      by_contra hne
      exact hk e.length (by omega) (by omega) (hname.2 (by omega))
    rw [hj', hname.2 (by omega), List.getD_eq_default _ _ (le_refl _)]

section Lookup

variable (devsw : Nat → Option Devsw)

/-- INTERNAL: the scan of `dirlookup` sees its name only through `namecmp`. -/
theorem dirlookupLoop_congr {name name' : Nat → UInt8}
    (h : ∀ q, FsImage.namecmp name q = FsImage.namecmp name' q) (fuel : Nat) :
    ∀ D dp off, FsImage.dirlookupLoop devsw name fuel D dp off =
      FsImage.dirlookupLoop devsw name' fuel D dp off := by
  induction fuel with
  | zero => intro D dp off; rfl
  | succ fuel ih =>
      intro D dp off
      simp only [FsImage.dirlookupLoop, h, ih]

/-- `dirlookup` of a copied name is `dirlookup` of the element's zero-filled name. -/
theorem dirlookup_of_nameOf {e : List UInt8} {nm : Nat → UInt8} (hname : NameOf e nm) (D : FsImage)
    (dp : Dinode) : D.dirlookup devsw dp nm = D.dirlookup devsw dp (FsImage.skipelem e) := by
  unfold FsImage.dirlookup
  rw [dirlookupLoop_congr devsw (namecmp_of_nameOf hname)]

/-! ## The loop of `namex` -/

/-- `namex(path, 0, name)` from the inode `ip` is `namei`'s loop over the path's
elements: one `ilock` and one `dirlookup` per element, up to the first failure. -/
theorem namexLoop_lookup (fuel : Nat) :
    ∀ (D : FsImage) (ip : Nat) (path : List UInt8) (name : Nat → UInt8), 0 ∉ path → path.length < fuel →
      (namexLoop devsw false fuel D ip path name).map (fun r => (r.1, r.2.1)) =
        FsImage.nameiLoop devsw (pathElems path) D ip := by
  induction fuel with
  | zero => intro D ip path name _ hlen; omega
  | succ fuel ih =>
      intro D ip path name h0 hlen
      rcases skipelem_cases h0 name with ⟨hnil, hnone⟩ | ⟨e, rest, hel, hsk, -, hr0, hrl⟩
      · rw [namexLoop, hnone, hnil]
        rfl
      · rw [namexLoop, hsk, hel, FsImage.nameiLoop]
        dsimp only
        by_cases hfree : (D.dinode ip).type = .free
        · rw [if_pos hfree, if_pos hfree]
          rfl
        by_cases hdir : (D.dinode ip).type ≠ .dir
        · rw [if_neg hfree, if_neg hfree, if_pos hdir, if_pos hdir]
          rfl
        rw [if_neg hfree, if_neg hfree, if_neg hdir, if_neg hdir, if_neg (by simp),
          dirlookup_of_nameOf devsw (copyName_nameOf name e)]
        -- both loops go on with what the lookup of the element gives
        rcases hlook : D.dirlookup devsw (D.dinode ip) (FsImage.skipelem e) with err | ⟨D', dp', r⟩
        · rfl
        · rcases r with _ | ⟨next, off⟩
          · rfl
          · exact ih D' next rest (copyName name e) hr0 (by omega)

/-- What `namex` does at the last element with `nameiparent` set: `ilock` the inode and
return it when it is a directory. -/
def lockParent (D : FsImage) (ip : Nat) : Except String (FsImage × Option Nat) :=
  if (D.dinode ip).type = .free then throw "ilock: no type"
  else if (D.dinode ip).type ≠ .dir then pure (D, none)
  else pure (D, some ip)

/-- `namex(path, 1, name)` from `ip`, for a path with an element: `namei`'s loop over
all elements but the last, then the directory it ends at. -/
theorem namexLoop_parent (fuel : Nat) :
    ∀ (D : FsImage) (ip : Nat) (path : List UInt8) (name : Nat → UInt8), 0 ∉ path →
      path.length < fuel → pathElems path ≠ [] →
      (namexLoop devsw true fuel D ip path name).map (fun r => (r.1, r.2.1)) =
        (FsImage.nameiLoop devsw (pathElems path).dropLast D ip >>= fun r =>
          match r.2 with
          | none => pure (r.1, none)
          | some ip => lockParent r.1 ip) := by
  induction fuel with
  | zero => intro D ip path name _ hlen; omega
  | succ fuel ih =>
      intro D ip path name h0 hlen hne
      rcases skipelem_cases h0 name with ⟨hnil, -⟩ | ⟨e, rest, hel, hsk, hr47, hr0, hrl⟩
      · exact absurd hnil hne
      rw [namexLoop, hsk, hel]
      dsimp only
      cases hes : pathElems rest with
      | nil =>
          -- the last element: `namex` stops before looking it up
          have hend : peek rest = 0 := (peek_eq_zero_iff hr0 hr47).mpr hes
          simp only [List.dropLast_singleton, FsImage.nameiLoop, hend, and_self, if_true, pure_bind]
          unfold lockParent
          by_cases hfree : (D.dinode ip).type = .free
          · rw [if_pos hfree, if_pos hfree]
            rfl
          by_cases hdir : (D.dinode ip).type ≠ .dir
          · rw [if_neg hfree, if_neg hfree, if_pos hdir, if_pos hdir]
            rfl
          · rw [if_neg hfree, if_neg hfree, if_neg hdir, if_neg hdir]
            rfl
      | cons e' es =>
          have hmore : peek rest ≠ 0 := fun h => by
            have := (peek_eq_zero_iff hr0 hr47).mp h
            rw [hes] at this
            cases this
          rw [List.dropLast_cons_cons, FsImage.nameiLoop]
          by_cases hfree : (D.dinode ip).type = .free
          · rw [if_pos hfree, if_pos hfree]
            rfl
          by_cases hdir : (D.dinode ip).type ≠ .dir
          · rw [if_neg hfree, if_neg hfree, if_pos hdir, if_pos hdir]
            rfl
          rw [if_neg hfree, if_neg hfree, if_neg hdir, if_neg hdir, if_neg (by simp [hmore]),
            dirlookup_of_nameOf devsw (copyName_nameOf name e)]
          rcases hlook : D.dirlookup devsw (D.dinode ip) (FsImage.skipelem e) with err | ⟨D', dp', r⟩
          · rfl
          · rcases r with _ | ⟨next, off⟩
            · rfl
            · have := ih D' next rest (copyName name e) hr0 (by omega) (by rw [hes]; simp)
              rw [hes] at this
              exact this

/-- When `namex(path, 1, name)` returns a directory, the buffer holds the name of the
path's last element. -/
theorem namexLoop_parent_name (fuel : Nat) :
    ∀ (D : FsImage) (ip : Nat) (path : List UInt8) (name : Nat → UInt8) (D' : FsImage) (ip' : Nat)
      (nm : Nat → UInt8), 0 ∉ path → path.length < fuel →
      namexLoop devsw true fuel D ip path name = .ok (D', some ip', nm) →
        ∃ e, (pathElems path).getLast? = some e ∧ NameOf e nm := by
  induction fuel with
  | zero => intro D ip path name D' ip' nm _ hlen; omega
  | succ fuel ih =>
      intro D ip path name D' ip' nm h0 hlen hrun
      rcases skipelem_cases h0 name with ⟨-, hnone⟩ | ⟨e, rest, hel, hsk, hr47, hr0, hrl⟩
      · rw [namexLoop, hnone] at hrun
        cases hrun
      rw [namexLoop, hsk] at hrun
      dsimp only at hrun
      by_cases hfree : (D.dinode ip).type = .free
      · rw [if_pos hfree] at hrun
        cases hrun
      by_cases hdir : (D.dinode ip).type ≠ .dir
      · rw [if_neg hfree, if_pos hdir] at hrun
        cases hrun
      rw [if_neg hfree, if_neg hdir] at hrun
      by_cases hend : peek rest = 0
      · -- stopped at the last element, whose name was just copied
        rw [if_pos ⟨rfl, hend⟩] at hrun
        cases hrun
        refine ⟨e, ?_, copyName_nameOf name e⟩
        rw [hel, (peek_eq_zero_iff hr0 hr47).mp hend]
        rfl
      · rw [if_neg (by simp [hend])] at hrun
        rcases hlook : D.dirlookup devsw (D.dinode ip) (copyName name e) with err | ⟨D₁, dp₁, r⟩
        · rw [hlook] at hrun
          cases hrun
        rcases r with _ | ⟨next, off⟩
        · rw [hlook] at hrun
          cases hrun
        rw [hlook] at hrun
        obtain ⟨e', hlast, hname⟩ := ih D₁ next rest (copyName name e) D' ip' nm hr0 (by omega) hrun
        refine ⟨e', ?_, hname⟩
        have hrest : pathElems rest ≠ [] := fun h => hend ((peek_eq_zero_iff hr0 hr47).mpr h)
        rw [hel, List.getLast?_cons, hlast]
        rfl

end Lookup

/-! ## The whole walk -/

/-- The paths and names the loop `while ((path = skipelem(path, name)) != 0)` sees, with
`fuel` calls: `none` when the fuel runs out before `skipelem` returns `0`. -/
def skipelemRun : Nat → List UInt8 → (Nat → UInt8) → Option (List (List UInt8 × (Nat → UInt8)))
  | 0, _, _ => none
  | fuel + 1, path, name =>
      match skipelem path name with
      | none => some []
      | some (path, name) => (skipelemRun fuel path name).map ((path, name) :: ·)

/-- Iterating `skipelem` on a path without a `NUL` ends with `0` after one call per
element, each copying its element and returning a path without a leading slash. -/
theorem skipelemRun_elems (fuel : Nat) :
    ∀ (path : List UInt8) (name : Nat → UInt8), 0 ∉ path → path.length < fuel →
      ∃ rs, skipelemRun fuel path name = some rs ∧
        List.Forall₂ (fun e r => NameOf e r.2 ∧ r.1.head? ≠ some 47) (pathElems path) rs := by
  induction fuel with
  | zero => intro path name _ hlen; omega
  | succ fuel ih =>
      intro path name h0 hlen
      rcases skipelem_cases h0 name with ⟨hnil, hnone⟩ | ⟨e, rest, hel, hsk, hr47, hr0, hrl⟩
      · exact ⟨[], by rw [skipelemRun, hnone], by rw [hnil]; exact List.Forall₂.nil⟩
      · obtain ⟨rs, hrun, hall⟩ := ih rest (copyName name e) hr0 (by omega)
        refine ⟨(rest, copyName name e) :: rs, ?_, ?_⟩
        · rw [skipelemRun, hsk]
          dsimp only
          rw [hrun]
          rfl
        · rw [hel]
          exact List.Forall₂.cons ⟨copyName_nameOf name e, hr47⟩ hall

/-- What `skipelem` and `namex` do with a path: the calls of `skipelem` visit the path's
elements in order, `namex(path, 0, name)` looks all of them up as `namei` does, and
`namex(path, 1, name)` looks up all but the last and leaves its name in the buffer. -/
structure WalksPath (devsw : Nat → Option Devsw) (D : FsImage) (cwd : Nat) (path : List UInt8)
    (name : Nat → UInt8) : Prop where
  /-- One call of `skipelem` per element, then `0`; each copies its element and returns
  a path without a leading slash. -/
  elems : ∃ rs, skipelemRun (path.length + 1) path name = some rs ∧
    List.Forall₂ (fun e r => NameOf e r.2 ∧ r.1.head? ≠ some 47) (pathElems path) rs
  lookup : (namex devsw D cwd path false name).map (fun r => (r.1, r.2.1)) = D.namei devsw cwd path
  parent_none : pathElems path = [] → namex devsw D cwd path true name = .ok (D, none, name)
  parent : pathElems path ≠ [] →
    (namex devsw D cwd path true name).map (fun r => (r.1, r.2.1)) =
      (FsImage.nameiLoop devsw (pathElems path).dropLast D (if path.head? = some 47 then rootino else cwd) >>=
        fun r => match r.2 with
          | none => pure (r.1, none)
          | some ip => lockParent r.1 ip)
  parent_name : ∀ D' ip nm, namex devsw D cwd path true name = .ok (D', some ip, nm) →
    ∃ e, (pathElems path).getLast? = some e ∧ NameOf e nm

/-- **`skipelem` splits every path into its elements, and `namex` looks them up.**  For a
path without a `NUL` inside it, from any disk and working directory and with any name
buffer. -/
theorem skipelem_walks_path_elements (devsw : Nat → Option Devsw) (D : FsImage) (cwd : Nat)
    {path : List UInt8} (h0 : 0 ∉ path) (name : Nat → UInt8) : WalksPath devsw D cwd path name where
  elems := skipelemRun_elems _ path name h0 (Nat.lt_succ_self _)
  lookup := namexLoop_lookup devsw _ D _ path name h0 (Nat.lt_succ_self _)
  parent_none := fun hnil => by
    rcases skipelem_cases h0 name with ⟨-, hnone⟩ | ⟨e, rest, hel, -⟩
    · rw [namex, namexLoop, hnone]
      rfl
    · rw [hel] at hnil
      cases hnil
  parent := fun hne => namexLoop_parent devsw _ D _ path name h0 (Nat.lt_succ_self _) hne
  parent_name := fun D' ip nm hrun =>
    namexLoop_parent_name devsw _ D _ path name D' ip nm h0 (Nat.lt_succ_self _) hrun

/-- A disk whose inodes are all free. -/
def blankImage : FsImage := ⟨⟨0, 0⟩, fun _ => Dinode.zero, fun _ => false, fun _ _ => 0⟩

/-- The path of the source's second example, "///a//bb", on that disk. -/
theorem skipelem_walks_doc_path :
    (0 : UInt8) ∉ [47, 47, 47, 97, 47, 47, 98, 98] ∧
      WalksPath (fun _ => none) blankImage rootino [47, 47, 47, 97, 47, 47, 98, 98] (fun _ => 0) :=
  ⟨by decide, skipelem_walks_path_elements (fun _ => none) blankImage rootino (by decide) (fun _ => 0)⟩

end Path

end Xv6
