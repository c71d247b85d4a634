import Xv6.Lib.DList

/-!
# NULL-terminated doubly linked lists

A list held by a head with a first and a last pointer, both `NULL` when it is empty:
following `next` from the first node visits the nodes of `order` and then `NULL`, `prev`
retraces the path, and the first node's `prev` is `NULL`.  `Linear L null order` says
this of the links `L`; a head adds that its pointers are `order.headD null` and
`order.getLastD null`.

The operations are the statements a C program performs:

* `appendLinks`: a new node with zeroed links, then `last->next = b; b->prev = last`
  unless the list was empty (`Linear.append`);
* `unlinkLinks`: `c->prev->next = c->next` unless `c` is first, then
  `c->next->prev = c->prev` unless `c` is last (`Linear.unlink`).

A node's neighbours are read off its place in `order` (`Linear.prev_of_split`,
`Linear.next_of_split`), and links that did not change on the
nodes keep the list (`Linear.frame`).
-/

set_option autoImplicit false

namespace DList

variable {α : Type}

/-- The nodes `order` linked by `next` and `prev`, closed at both ends by `null`. -/
structure Linear (L : Links α) (null : α) (order : List α) : Prop where
  chain : List.IsChain L.Adj order
  prev_head : ∀ a ∈ order.head?, L.prev a = null
  next_last : ∀ a ∈ order.getLast?, L.next a = null
  not_null : null ∉ order
  nodup : order.Nodup

theorem Linear.nil (L : Links α) (null : α) : Linear L null [] :=
  ⟨.nil, by simp, by simp, by simp, .nil⟩

section Shape

variable {L : Links α} {null : α}

theorem Linear.frame {L' : Links α} {order : List α} (h : Linear L null order)
    (hn : ∀ a ∈ order, L'.next a = L.next a) (hp : ∀ a ∈ order, L'.prev a = L.prev a) :
    Linear L' null order where
  chain := IsChain.frame h.chain (fun a ha => hn a (List.dropLast_subset _ ha))
    (fun b hb => hp b (List.mem_of_mem_tail hb))
  prev_head := fun a ha => (hp a (List.mem_of_mem_head? ha)).trans (h.prev_head a ha)
  next_last := fun a ha => (hn a (List.mem_of_getLast? ha)).trans (h.next_last a ha)
  not_null := h.not_null
  nodup := h.nodup

theorem Linear.prev_of_split {l₁ l₂ : List α} {c : α} (h : Linear L null (l₁ ++ c :: l₂)) :
    L.prev c = l₁.getLastD null := by
  rcases List.eq_nil_or_concat l₁ with rfl | ⟨l₀, p, rfl⟩
  · exact h.prev_head c (by simp)
  · rw [List.concat_eq_append] at h ⊢
    have hchain := List.isChain_append.mp h.chain
    have hadj : L.Adj p c := hchain.2.2 p (by simp) c (by simp)
    rw [hadj.2]
    simp

theorem Linear.next_of_split {l₁ l₂ : List α} {c : α} (h : Linear L null (l₁ ++ c :: l₂)) :
    L.next c = l₂.headD null := by
  cases l₂ with
  | nil => exact h.next_last c (by simp)
  | cons n l₂ =>
      have hchain := (List.isChain_append.mp h.chain).2.1
      exact (List.isChain_cons_cons.mp hchain).1.1

/-- Only the first node has `null` before it. -/
theorem Linear.prev_eq_null_iff {l₁ l₂ : List α} {c : α} (h : Linear L null (l₁ ++ c :: l₂)) :
    L.prev c = null ↔ l₁ = [] := by
  rw [h.prev_of_split]
  rcases List.eq_nil_or_concat l₁ with rfl | ⟨l₀, p, rfl⟩
  · simp
  · rw [List.concat_eq_append, List.getLastD_concat]
    have hp : p ≠ null := fun hp => h.not_null (by simp [hp])
    simp [hp]

/-- Only the last node has `null` after it. -/
theorem Linear.next_eq_null_iff {l₁ l₂ : List α} {c : α} (h : Linear L null (l₁ ++ c :: l₂)) :
    L.next c = null ↔ l₂ = [] := by
  rw [h.next_of_split]
  cases l₂ with
  | nil => simp
  | cons n t =>
      have hn : n ≠ null := fun hn => h.not_null (by simp [hn])
      simp [hn]

/-- No node is its own predecessor. -/
theorem Linear.prev_ne_self {l₁ l₂ : List α} {c : α} (h : Linear L null (l₁ ++ c :: l₂)) :
    L.prev c ≠ c := by
  rw [h.prev_of_split]
  rcases List.eq_nil_or_concat l₁ with rfl | ⟨l₀, p, rfl⟩
  · exact fun hc => h.not_null (by simp [← hc])
  · rw [List.concat_eq_append, List.getLastD_concat]
    rintro rfl
    have hnd := h.nodup
    simp [List.nodup_append] at hnd

/-! ### The neighbours of a node: the last of the nodes before it, the first of those after -/

theorem getLastD_eq_or_mem (l : List α) (d : α) : l.getLastD d = d ∨ l.getLastD d ∈ l := by
  cases hl : l.getLast? with
  | none => exact Or.inl (by rw [List.getLastD_eq_getLast?, hl]; rfl)
  | some x =>
      right
      rw [List.getLastD_eq_getLast?, hl]
      exact List.mem_of_getLast? hl

theorem headD_eq_or_mem (l : List α) (d : α) : l.headD d = d ∨ l.headD d ∈ l := by
  cases l with
  | nil => exact Or.inl rfl
  | cons m t => exact Or.inr List.mem_cons_self

theorem ne_getLastD_of_mem_dropLast {l : List α} (hnd : l.Nodup) (d : α) {a : α} (ha : a ∈ l.dropLast) :
    a ≠ l.getLastD d := by
  intro hap
  cases hl : l.getLast? with
  | none => simp [List.getLast?_eq_none_iff.mp hl] at ha
  | some x =>
      rw [List.getLastD_eq_getLast?, hl, Option.getD_some] at hap
      exact getLast_not_mem_dropLast hnd hl (hap ▸ ha)

theorem ne_headD_of_mem_tail {l : List α} (hnd : l.Nodup) (d : α) {b : α} (hb : b ∈ l.tail) :
    b ≠ l.headD d := by
  cases l with
  | nil => cases hb
  | cons m t =>
      intro hbm
      rw [List.headD_cons] at hbm
      rw [List.tail_cons, hbm] at hb
      exact (List.nodup_cons.mp hnd).1 hb

end Shape

variable [DecidableEq α]

/-! ## Appending a node -/

/-- A new node `b` linked after `last`, `null` for an empty list: `b`'s links zeroed, then
`last->next = b; b->prev = last` when there is a last node. -/
def appendLinks (L : Links α) (null last b : α) : Links α :=
  let L₁ := (L.setNext b null).setPrev b null
  if last = null then L₁ else (L₁.setNext last b).setPrev b last

/-- Appending a node that is not in the list puts it at the end of `order`. -/
theorem Linear.append {L : Links α} {null b : α} {order : List α} (h : Linear L null order)
    (hb : b ∉ order) (hbn : b ≠ null) : Linear (appendLinks L null (order.getLastD null) b) null (order ++ [b]) := by
  rcases List.eq_nil_or_concat order with rfl | ⟨o, p, rfl⟩
  · refine ⟨List.isChain_singleton b, ?_, ?_, ?_, List.nodup_singleton b⟩
    · simp [appendLinks]
    · simp [appendLinks]
    · simpa using hbn.symm
  · rw [List.concat_eq_append] at h hb ⊢
    have hnd := h.nodup
    rw [List.nodup_append] at hnd
    have hpo : p ∉ o := fun hm => hnd.2.2 p hm p (List.mem_singleton_self p) rfl
    have hpn : p ≠ null := fun hp => h.not_null (by simp [hp])
    have hbp : b ≠ p := fun hbp => hb (by simp [hbp])
    set L' := (((L.setNext b null).setPrev b null).setNext p b).setPrev b p
    have hlinks : appendLinks L null ((o ++ [p]).getLastD null) b = L' := by
      simp [appendLinks, hpn, L']
    have hnext : ∀ x, L'.next x = if x = p then b else if x = b then null else L.next x := by
      intro x
      simp [L']
    have hprev : ∀ x, L'.prev x = if x = b then p else L.prev x := by
      intro x
      by_cases hx : x = b <;> simp [L', hx]
    rw [hlinks]
    -- the old nodes keep their links, but for the `next` of the last one
    have hold : List.IsChain L'.Adj (o ++ [p]) := by
      refine IsChain.frame h.chain (fun a ha => ?_) (fun a ha => ?_)
      · rw [List.dropLast_concat] at ha
        have hap : a ≠ p := fun hap => hpo (hap ▸ ha)
        have hab : a ≠ b := fun hab => hb (by simp [← hab, ha])
        rw [hnext, if_neg hap, if_neg hab]
      · have hab : a ≠ b := fun hab => hb (hab ▸ List.mem_of_mem_tail ha)
        rw [hprev, if_neg hab]
    refine ⟨?_, fun a ha => ?_, fun a ha => ?_, ?_, ?_⟩
    · refine List.isChain_append.mpr ⟨hold, List.isChain_singleton b, fun x hx y hy => ?_⟩
      simp only [List.getLast?_concat, Option.mem_def, Option.some.injEq, List.head?_cons] at hx hy
      subst hx hy
      exact ⟨by rw [hnext, if_pos rfl], by rw [hprev, if_pos rfl]⟩
    · rw [List.head?_append_of_ne_nil _ (by simp)] at ha
      have hab : a ≠ b := fun hab => hb (hab ▸ List.mem_of_mem_head? ha)
      rw [hprev, if_neg hab]
      exact h.prev_head a ha
    · simp only [List.getLast?_concat, Option.mem_def, Option.some.injEq] at ha
      subst ha
      rw [hnext, if_neg hbp, if_pos rfl]
    · simpa [hbn.symm] using h.not_null
    · exact List.nodup_append.mpr ⟨h.nodup, List.nodup_singleton b,
        fun x hx y hy hxy => hb (by rw [List.mem_singleton.mp hy] at hxy; exact hxy ▸ hx)⟩

/-! ## Unlinking a node -/

/-- Unlink `c`: `c->prev->next = c->next` unless `c` has no `prev`, then
`c->next->prev = c->prev` unless it has no `next`. -/
def unlinkLinks (L : Links α) (null c : α) : Links α :=
  let L₁ := if L.prev c = null then L else L.setNext (L.prev c) (L.next c)
  if L₁.next c = null then L₁ else L₁.setPrev (L₁.next c) (L₁.prev c)

section Unlink

variable {L : Links α} {null c : α}

theorem unlinkLinks_next (hc : L.prev c ≠ c) (x : α) :
    (unlinkLinks L null c).next x = if x = L.prev c ∧ L.prev c ≠ null then L.next c else L.next x := by
  by_cases hp : L.prev c = null
  · simp only [unlinkLinks, if_pos hp]
    split <;> simp [hp]
  · have hnc : (L.setNext (L.prev c) (L.next c)).next c = L.next c := by
      simp [Ne.symm hc]
    simp only [unlinkLinks, if_neg hp, hnc]
    split <;> simp [hp]

theorem unlinkLinks_prev (hc : L.prev c ≠ c) (x : α) :
    (unlinkLinks L null c).prev x = if x = L.next c ∧ L.next c ≠ null then L.prev c else L.prev x := by
  set L₁ := if L.prev c = null then L else L.setNext (L.prev c) (L.next c) with hL₁
  have hnc : L₁.next c = L.next c := by
    rw [hL₁]
    split <;> simp [Ne.symm hc]
  have hpc : L₁.prev = L.prev := by
    rw [hL₁]
    split <;> rfl
  have hun : unlinkLinks L null c =
      if L₁.next c = null then L₁ else L₁.setPrev (L₁.next c) (L₁.prev c) := rfl
  rw [hun, hnc, hpc]
  by_cases hn : L.next c = null
  · rw [if_pos hn, hpc]
    simp [hn]
  · rw [if_neg hn, setPrev_prev, hpc]
    simp [hn]

/-- Unlinking a node of the list takes it out of `order`. -/
theorem Linear.unlink {l₁ l₂ : List α} (h : Linear L null (l₁ ++ c :: l₂)) :
    Linear (unlinkLinks L null c) null (l₁ ++ l₂) := by
  have hnd := h.nodup
  rw [List.nodup_append, List.nodup_cons] at hnd
  obtain ⟨hnd₁, ⟨-, hnd₂⟩, hdisj⟩ := hnd
  have hnn : ∀ a ∈ l₁ ++ c :: l₂, a ≠ null := fun a ha han => h.not_null (han ▸ ha)
  -- the neighbours of `c`: the last of `l₁` and the first of `l₂`, or `null`
  have hp : L.prev c = l₁.getLastD null := h.prev_of_split
  have hn : L.next c = l₂.headD null := h.next_of_split
  have hlast : ∀ x ∈ l₁.getLast?, x = l₁.getLastD null := fun x hx => by
    rw [List.getLastD_eq_getLast?, Option.mem_def.mp hx]
    rfl
  have hfirst : ∀ y ∈ l₂.head?, y = l₂.headD null := fun y hy => by
    rw [List.headD_eq_head?_getD, Option.mem_def.mp hy]
    rfl
  have hpc : L.prev c ≠ c := h.prev_ne_self
  -- which nodes are not `c`'s neighbours
  have hd₂ : ∀ a ∈ l₁, a ≠ l₂.headD null := by
    intro a ha
    rcases headD_eq_or_mem l₂ null with h₀ | h₀
    · rw [h₀]
      exact hnn a (List.mem_append_left _ ha)
    · exact hdisj a ha _ (List.mem_cons_of_mem c h₀)
  have hd₃ : ∀ b ∈ l₂, b ≠ l₁.getLastD null := by
    intro b hb
    rcases getLastD_eq_or_mem l₁ null with h₀ | h₀
    · rw [h₀]
      exact hnn b (by simp [hb])
    · exact (hdisj _ h₀ b (List.mem_cons_of_mem c hb)).symm
  have hnext := @unlinkLinks_next _ _ L null c hpc
  have hprev := @unlinkLinks_prev _ _ L null c hpc
  rw [hp, hn] at hnext hprev
  have hchain := List.isChain_append.mp h.chain
  refine ⟨List.isChain_append.mpr ⟨?_, ?_, ?_⟩, fun a ha => ?_, fun a ha => ?_, ?_, ?_⟩
  · -- the nodes before `c`: only the last one's `next` changed
    refine IsChain.frame hchain.1 (fun a ha => ?_) (fun b hb => ?_)
    · rw [hnext, if_neg (fun h' => ne_getLastD_of_mem_dropLast hnd₁ null ha h'.1)]
    · rw [hprev, if_neg (fun h' => hd₂ b (List.mem_of_mem_tail hb) h'.1)]
  · -- the nodes after `c`: only the first one's `prev` changed
    refine IsChain.frame hchain.2.1.tail (fun a ha => ?_) (fun b hb => ?_)
    · rw [hnext, if_neg (fun h' => hd₃ a (List.dropLast_subset _ ha) h'.1)]
    · rw [hprev, if_neg (fun h' => ne_headD_of_mem_tail hnd₂ null hb h'.1)]
  · -- `c`'s neighbours now point at each other
    intro x hx y hy
    have hx' := hlast x hx
    have hy' := hfirst y hy
    have hxn : l₁.getLastD null ≠ null := hx' ▸ hnn x (List.mem_append_left _ (List.mem_of_getLast? hx))
    have hyn : l₂.headD null ≠ null := hy' ▸ hnn y (by simp [List.mem_of_mem_head? hy])
    subst hx' hy'
    exact ⟨by rw [hnext, if_pos ⟨rfl, hxn⟩], by rw [hprev, if_pos ⟨rfl, hyn⟩]⟩
  · cases l₁ with
    | nil =>
        -- `c` was first: its successor is first now, with `prev` `NULL`
        rw [List.nil_append] at ha
        have ha' := hfirst a ha
        have han : l₂.headD null ≠ null := ha' ▸ hnn a (by simp [List.mem_of_mem_head? ha])
        rw [ha', hprev, if_pos ⟨rfl, han⟩]
        rfl
    | cons f l₁ =>
        have haf : f = a := by simpa using ha
        rw [hprev, if_neg (fun h' => hd₂ a (by simp [← haf]) h'.1)]
        exact h.prev_head a (by simp [← haf])
  · cases hl₂ : l₂ with
    | nil =>
        -- `c` was last: its predecessor is last now, with `next` `NULL`
        subst hl₂
        rw [List.append_nil] at ha
        have ha' := hlast a ha
        have han : l₁.getLastD null ≠ null := ha' ▸ hnn a (List.mem_append_left _ (List.mem_of_getLast? ha))
        rw [ha', hnext, if_pos ⟨rfl, han⟩]
        rfl
    | cons m t =>
        have hne : l₂ ≠ [] := by simp [hl₂]
        rw [List.getLast?_append_of_ne_nil _ hne] at ha
        rw [hnext, if_neg (fun h' => hd₃ a (List.mem_of_getLast? ha) h'.1)]
        exact h.next_last a (by rw [List.getLast?_append_of_ne_nil _ (List.cons_ne_nil c l₂),
          List.getLast?_cons_of_ne_nil hne]; exact ha)
  · exact fun hm => h.not_null (((List.sublist_cons_self c l₂).append_left l₁).subset hm)
  · exact h.nodup.sublist ((List.sublist_cons_self c l₂).append_left l₁)

end Unlink

end DList
