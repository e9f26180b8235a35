import SdCompat.Basic.Prioq
import SdCompat.Lib.HeapOrder

/-! # Priority queues are heaps

    What the operations of a priority queue keep:

    * the indexes of the queued items are their places (`Indexed`);
    * exchanging items moves them only (`Shuffled`);
    * the order of the heap, as long as the places of children can be computed
      (`shuffle_ordered`).
-/

namespace SdCompat

open List HeapOrder

namespace Prioq

variable {α β : Type}

/-! ## Section 1: Order -/

variable (cmp : α → α → Ordering)

/-- The first item may stand above the second. -/
def le (x y : PrioqItem α β) : Prop := cmp x.data y.data ≠ .gt

section order
variable {cmp} {q : Prioq α β} {i j : Nat}

theorem right_child_eq (h : i + 1 < 2 ^ 31) : right_child i = 2 * i + 2 := by
  unfold right_child
  omega

theorem left_child_eq (h : i + 1 < 2 ^ 31) : left_child i = 2 * i + 1 := by
  unfold left_child
  rw [right_child_eq h]
  omega

/-- Where there is no left child, there is nothing below. -/
theorem length_le_of_left_child (hn : q.items.length ≤ 2 ^ 31)
    (h : q.items.length ≤ left_child i) : q.items.length ≤ 2 * i + 1 := by
  by_cases hlt : i + 1 < 2 ^ 31
  · rwa [left_child_eq hlt] at h
  · omega

/-- Where there is a left child, the places have been computed right. -/
theorem lt_of_left_child (hn : q.items.length ≤ 2 ^ 31) (hi : i < q.items.length)
    (h : left_child i < q.items.length) : i + 1 < 2 ^ 31 := by
  by_contra hlt
  unfold left_child right_child at h
  omega

theorem inOrder_of_compare_at (h : q.compare_at cmp i j ≠ .gt) :
    HeapOrder.InOrder (le cmp) q.items i j := by
  intro x y hx hy
  unfold compare_at at h
  rwa [hx, hy] at h

variable [Std.TransCmp cmp]

theorem le_refl (x : PrioqItem α β) : le cmp x x := by
  unfold le
  rw [show cmp x.data x.data = .eq from Std.ReflCmp.compare_self]
  decide

theorem le_trans (x y z : PrioqItem α β) (h₁ : le cmp x y) (h₂ : le cmp y z) : le cmp x z := by
  have h1' := Ordering.ne_gt_iff_isLE.mp h₁
  have h2' := Ordering.ne_gt_iff_isLE.mp h₂
  exact Ordering.ne_gt_iff_isLE.mpr (Std.TransCmp.isLE_trans h1' h2')

theorem inOrder_of_not_lt (h : q.compare_at cmp i j ≠ .lt) :
    HeapOrder.InOrder (le cmp) q.items j i := by
  intro x y hx hy
  unfold compare_at at h
  rw [hx, hy] at h
  intro hgt
  apply h
  show cmp y.data x.data = .lt
  rw [show cmp y.data x.data = (cmp x.data y.data).swap from Std.OrientedCmp.eq_swap]
  rw [hgt]
  rfl

theorem inOrder_trans {k : Nat} (hj : j < q.items.length)
    (h₁ : HeapOrder.InOrder (le cmp) q.items i j) (h₂ : HeapOrder.InOrder (le cmp) q.items j k) :
    HeapOrder.InOrder (le cmp) q.items i k := by
  intro x z hx hz
  have hy : q.items[j]? = some q.items[j] := getElem?_eq_getElem hj
  exact le_trans x _ z (h₁ x _ hx hy) (h₂ _ z hy hz)

theorem inOrder_self : HeapOrder.InOrder (le cmp) q.items i i := by
  intro x y hx hy
  rw [hx] at hy
  cases hy
  exact le_refl x

variable (cmp) in
/-- The smallest of the three is in order with all of them. -/
theorem smallest_spec (hi : i < q.items.length) (hlt : i + 1 < 2 ^ 31)
    (hl : 2 * i + 1 < q.items.length) :
    (q.smallest cmp i = i ∨ HeapOrder.parent (q.smallest cmp i) = i ∧ i < q.smallest cmp i) ∧
      q.smallest cmp i < q.items.length ∧ ∀ c, c = i ∨ 0 < c ∧ HeapOrder.parent c = i →
        HeapOrder.InOrder (le cmp) q.items (q.smallest cmp i) c := by
  unfold smallest
  rw [right_child_eq hlt, left_child_eq hlt]
  have hchild : ∀ c, c = i ∨ 0 < c ∧ parent c = i → c = i ∨ c = 2 * i + 1 ∨ c = 2 * i + 2 := by
    intro c hc
    unfold parent at hc
    omega
  -- the smaller one of the item and its left child
  obtain ⟨s, hs, hsi, hslt, hsl, hss⟩ : ∃ s,
      (if q.compare_at cmp (2 * i + 1) i = .lt then 2 * i + 1 else i) = s ∧
      (s = i ∨ s = 2 * i + 1) ∧ s < q.items.length ∧
      InOrder (le cmp) q.items s (2 * i + 1) ∧
      InOrder (le cmp) q.items s i := by
    by_cases hcmp : q.compare_at cmp (2 * i + 1) i = .lt
    · refine ⟨2 * i + 1, if_pos hcmp, .inr rfl, hl, inOrder_self, ?_⟩
      apply inOrder_of_compare_at
      rw [hcmp]
      decide
    · exact ⟨i, if_neg hcmp, .inl rfl, hi, inOrder_of_not_lt hcmp, inOrder_self⟩
  simp only [hs]
  by_cases hcmp : 2 * i + 2 < q.items.length ∧ q.compare_at cmp (2 * i + 2) s = .lt
  · rw [if_pos hcmp]
    have hrs : InOrder (le cmp) q.items (2 * i + 2) s := by
      apply inOrder_of_compare_at
      rw [hcmp.2]
      decide
    refine ⟨.inr ⟨by unfold parent; omega, by omega⟩, hcmp.1, ?_⟩
    intro c hc
    obtain rfl | rfl | rfl := hchild c hc
    · exact inOrder_trans hslt hrs hss
    · exact inOrder_trans hslt hrs hsl
    · exact inOrder_self
  · rw [if_neg hcmp]
    refine ⟨?_, hslt, ?_⟩
    · unfold parent
      omega
    intro c hc
    obtain rfl | rfl | rfl := hchild c hc
    · exact hss
    · exact hsl
    · -- there is no right child, or it is not smaller
      by_cases hr : 2 * i + 2 < q.items.length
      · exact inOrder_of_not_lt fun h => hcmp ⟨hr, h⟩
      · intro x y _ hy
        exact absurd (List.getElem?_eq_some_iff.mp hy).1 hr

end order

/-! ## Section 2: Indexes -/

/-- The index of every queued item is its place. -/
def Indexed (q : Prioq α β) : Prop :=
  ∀ i x p, q.items[i]? = some x → x.idx = some p → q.mem p = some i

/-- No queued item has this index. -/
def Unused (q : Prioq α β) (p : β) : Prop := ∀ x ∈ q.items, x.idx ≠ some p

variable {q : Prioq α β} {x : PrioqItem α β}

variable {p : β}

/-- Two places with the same index are the same. -/
theorem Indexed.inj (h : q.Indexed) {i j : Nat} {y : PrioqItem α β} (hx : q.items[i]? = some x)
    (hy : q.items[j]? = some y) (hxp : x.idx = some p) (hyp : y.idx = some p) : i = j := by
  have h1 := h i x p hx hxp
  have h2 := h j y p hy hyp
  rw [h1] at h2
  exact Option.some.inj h2

/-- No two items have the same index. -/
theorem Indexed.pairwise (h : q.Indexed) :
    q.items.Pairwise fun y z => ∀ p, y.idx = some p → z.idx ≠ some p := by
  rw [pairwise_iff_getElem]
  intro j k hj hk hjk p hy hz
  have := h.inj (getElem?_eq_getElem hj) (getElem?_eq_getElem hk) hy hz
  omega

/-- An item that is not the last one is in front of the last one. -/
theorem items_cases {i : Nat} (hi : q.items[i]? = some x) :
    (∃ init, q.items = init ++ [x] ∧ i = init.length) ∨
      ∃ init l, q.items = init ++ [l] ∧ init[i]? = some x := by
  obtain ⟨hlt, hx⟩ := List.getElem?_eq_some_iff.mp hi
  have hne : q.items ≠ [] := List.ne_nil_of_length_pos (by omega)
  obtain ⟨init, l, hitems⟩ : ∃ init l, q.items = init ++ [l] :=
    ⟨_, _, (dropLast_append_getLast hne).symm⟩
  have hlen : q.items.length = init.length + 1 := by simp [hitems]
  rw [hitems] at hi
  by_cases hend : i = init.length
  · left
    rw [hend, getElem?_concat_length] at hi
    cases hi
    exact ⟨init, hitems, hend⟩
  · right
    rw [getElem?_append_left (by omega)] at hi
    exact ⟨init, l, hitems, hi⟩

/-- The items were moved, and the indexes with them. -/
structure Shuffled (q q' : Prioq α β) : Prop where
  perm : q'.items.Perm q.items
  indexed : q.Indexed → q'.Indexed
  frame : ∀ p, q.Unused p → q'.mem p = q.mem p

namespace Shuffled
variable {q q' q'' : Prioq α β}

theorem refl (q : Prioq α β) : Shuffled q q := ⟨.refl _, id, fun _ _ => rfl⟩

theorem unused (h : Shuffled q q') {p : β} (hp : q.Unused p) : q'.Unused p := by
  intro x hx
  exact hp x (h.perm.mem_iff.mp hx)

theorem trans (h₁ : Shuffled q q') (h₂ : Shuffled q' q'') : Shuffled q q'' := by
  refine ⟨h₂.perm.trans h₁.perm, fun h => h₂.indexed (h₁.indexed h), ?_⟩
  intro p hp
  rw [h₂.frame p (h₁.unused hp), h₁.frame p hp]

theorem length (h : Shuffled q q') : q'.items.length = q.items.length := h.perm.length_eq

end Shuffled

/-- The item was taken out, and its index cleared. -/
structure Removed (q : Prioq α β) (x : PrioqItem α β) (r : Prioq α β) : Prop where
  perm : (x :: r.items).Perm q.items
  indexed : q.Indexed → r.Indexed
  cleared : q.Indexed → ∀ p, x.idx = some p → r.mem p = none
  frame : ∀ p, q.Unused p → r.mem p = q.mem p

variable {r : Prioq α β}

theorem Removed.unused (h : Removed q x r) (hq : q.Indexed) (hp : x.idx = some p) : r.Unused p := by
  have hpair := h.perm.symm.pairwise hq.pairwise fun h p hz hy => h p hy hz
  intro y hy
  exact (pairwise_cons.mp hpair).1 y hy p hp

theorem Removed.shuffled {r' : Prioq α β} (h : Removed q x r) (hs : Shuffled r r') :
    Removed q x r' := by
  constructor
  · exact (hs.perm.cons x).trans h.perm
  · intro hq
    exact hs.indexed (h.indexed hq)
  · intro hq p hp
    rw [hs.frame p (h.unused hq hp)]
    exact h.cleared hq p hp
  · intro p hp
    have hpr : r.Unused p := by
      intro y hy
      exact hp y (h.perm.mem_iff.mp (mem_cons_of_mem x hy))
    rw [hs.frame p hpr, h.frame p hp]

section find
variable [DecidableEq α] {q : Prioq α β} {a : α} {idx : Option β} {i : Nat}

/-- What is found is the item with this index if there is one, and it has this
    object. -/
theorem find_item_some (hq : q.Indexed) (h : q.find_item a idx = some i) :
    ∃ x, q.items[i]? = some x ∧ x.data = a ∧
      ∀ p, idx = some p → q.mem p ≠ none ∧ (q.Unused p ∨ x.idx = some p) := by
  unfold find_item at h
  split at h
  · next p =>
    split at h
    · cases h
    · next j hj =>
      split at h
      · next hdata =>
        cases h
        obtain ⟨x, hx, rfl⟩ := Option.map_eq_some_iff.mp hdata
        refine ⟨x, hx, rfl, ?_⟩
        intro p' hp'
        cases hp'
        refine ⟨by simp [hj], ?_⟩
        by_cases hu : q.Unused p
        · exact .inl hu
        · right
          -- the index belongs to the item in the place that it says
          unfold Unused at hu
          push Not at hu
          obtain ⟨y, hy, hyp⟩ := hu
          obtain ⟨k, hk⟩ := mem_iff_getElem?.mp hy
          have := hq k y p hk hyp
          rw [hj] at this
          cases this
          rw [hx] at hk
          cases hk
          exact hyp
      · cases h
  · next =>
    obtain ⟨hlt, hdata, _⟩ := findIdx?_eq_some_iff_getElem.mp h
    refine ⟨q.items[i], getElem?_eq_getElem hlt, by simpa using hdata, ?_⟩
    intro p hp
    cases hp

/-- An item is found by its index, and without one. -/
theorem find_item_none (hq : q.Indexed) (h : q.find_item a idx = none) :
    ∀ x ∈ q.items, x.data = a → idx ≠ none ∧ x.idx ≠ idx := by
  intro x hx hdata
  unfold find_item at h
  split at h
  · next p =>
    refine ⟨by simp, ?_⟩
    intro hxp
    obtain ⟨j, hj⟩ := mem_iff_getElem?.mp hx
    rw [hq j x p hj hxp] at h
    simp [hj, hdata] at h
  · next =>
    have := findIdx?_eq_none_iff.mp h x hx
    simp [hdata] at this

end find

variable [DecidableEq β]

theorem set_idx_self (p : β) (i : Option Nat) (mem : β → Option Nat) :
    set_idx (some p) i mem p = i := by
  simp [set_idx]

theorem set_idx_ne {idx : Option β} (h : idx ≠ some p) (i : Option Nat) (mem : β → Option Nat) :
    set_idx idx i mem p = mem p := by
  simp [set_idx, h]

theorem swap_items (q : Prioq α β) (j k : Nat) :
    (q.swap j k).items = HeapOrder.swapped q.items j k := by
  unfold swap swapped
  split
  · next ha hb => simp only [ha, hb]
  · next hn =>
    split
    · next a b ha hb => exact absurd hb (hn a b ha)
    · rfl

theorem swap_shuffled (q : Prioq α β) (j k : Nat) : Shuffled q (q.swap j k) := by
  by_cases hlt : j < q.items.length ∧ k < q.items.length
  · obtain ⟨hj, hk⟩ := hlt
    have hmem : (q.swap j k).mem = set_idx q.items[j].idx (some k)
        (set_idx q.items[k].idx (some j) q.mem) := by
      unfold swap
      rw [getElem?_eq_getElem hj, getElem?_eq_getElem hk]
    have hgj : q.items[j]? = some q.items[j] := getElem?_eq_getElem hj
    have hgk : q.items[k]? = some q.items[k] := getElem?_eq_getElem hk
    constructor
    · rw [swap_items]
      exact swapped_perm _ _ _
    · intro h i x p hx hxp
      rw [swap_items, swapped_get hj hk] at hx
      rw [hmem]
      -- which of the two was it, if any
      by_cases hij : i = j
      · subst hij
        rw [if_pos rfl, hgk] at hx
        cases hx
        by_cases haj : q.items[i].idx = some p
        · rw [haj, set_idx_self, h.inj hgj hgk haj hxp]
        · rw [set_idx_ne haj, hxp, set_idx_self]
      · rw [if_neg hij] at hx
        by_cases hik : i = k
        · subst hik
          rw [if_pos rfl, hgj] at hx
          cases hx
          rw [hxp, set_idx_self]
        · rw [if_neg hik] at hx
          have hnj : q.items[j].idx ≠ some p := fun hp => hij (h.inj hx hgj hxp hp)
          have hnk : q.items[k].idx ≠ some p := fun hp => hik (h.inj hx hgk hxp hp)
          rw [set_idx_ne hnj, set_idx_ne hnk]
          exact h i x p hx hxp
    · intro p hp
      rw [hmem, set_idx_ne (hp _ (getElem_mem hj)), set_idx_ne (hp _ (getElem_mem hk))]
  · have heq : q.swap j k = q := by
      unfold swap
      split
      · next a b ha hb =>
        exact absurd ⟨(List.getElem?_eq_some_iff.mp ha).1, (List.getElem?_eq_some_iff.mp hb).1⟩ hlt
      · rfl
    rw [heq]
    exact .refl q

theorem shuffle_up_shuffled (fuel : Nat) (q : Prioq α β) (i : Nat) :
    Shuffled q (shuffle_up cmp fuel q i).1 := by
  induction fuel generalizing q i with
  | zero => exact .refl q
  | succ fuel ih =>
    unfold shuffle_up
    split
    · exact .refl q
    · split
      · exact .refl q
      · exact (swap_shuffled q _ _).trans (ih _ _)

theorem shuffle_down_shuffled (fuel : Nat) (q : Prioq α β) (i : Nat) :
    Shuffled q (shuffle_down cmp fuel q i).1 := by
  induction fuel generalizing q i with
  | zero => exact .refl q
  | succ fuel ih =>
    unfold shuffle_down
    split
    · exact .refl q
    · split
      · exact .refl q
      · exact (swap_shuffled q _ _).trans (ih _ _)

theorem shuffle_shuffled (q : Prioq α β) (i : Nat) : Shuffled q (q.shuffle cmp i) :=
  (shuffle_down_shuffled cmp _ q i).trans (shuffle_up_shuffled cmp _ _ _)

/-! ## Section 3: Putting things in order -/

section order
variable {cmp} [Std.TransCmp cmp] {q : Prioq α β} {i : Nat}

/-- Moving up ends with a heap. -/
theorem shuffle_up_ordered (fuel : Nat) (hfuel : i ≤ fuel) (hi : i < q.items.length)
    (h : HeapOrder.Around (le cmp) q.items i) (hb : HeapOrder.Below (le cmp) q.items i) :
    HeapOrder.Ordered (le cmp) (shuffle_up cmp fuel q i).1.items := by
  induction fuel generalizing q i with
  | zero => exact h.ordered hb fun h0 => absurd hfuel (by omega)
  | succ fuel ih =>
    unfold shuffle_up
    by_cases h0 : i = 0
    · rw [if_pos h0]
      exact h.ordered hb fun h' => absurd h0 (by omega)
    · rw [if_neg h0]
      by_cases hcmp : q.compare_at cmp ((i - 1) / 2) i ≠ .gt
      · rw [if_pos hcmp]
        exact h.ordered hb fun _ => inOrder_of_compare_at hcmp
      · rw [if_neg hcmp]
        have hup : InOrder (le cmp) q.items i (parent i) := by
          apply inOrder_of_not_lt
          intro hlt
          apply hcmp
          unfold parent at hlt
          rw [hlt]
          decide
        have hstep := h.up le_trans (by omega) hi hup
        rw [← swap_items] at hstep
        have hlen := (swap_shuffled q i (parent i)).length
        have hp := parent_lt (show 0 < i by omega)
        exact ih (by change parent i ≤ fuel; omega)
          (by change parent i < (q.swap i (parent i)).items.length; omega)
          hstep.1 hstep.2

variable (cmp) in
/-- Moving down ends where the item is in order with those below it. -/
theorem shuffle_down_spec (fuel : Nat) (hn : q.items.length ≤ 2 ^ 31)
    (hfuel : q.items.length ≤ fuel + i) (hi : i < q.items.length)
    (h : HeapOrder.Around (le cmp) q.items i) :
    HeapOrder.Around (le cmp) (shuffle_down cmp fuel q i).1.items (shuffle_down cmp fuel q i).2 ∧
      HeapOrder.Below (le cmp) (shuffle_down cmp fuel q i).1.items (shuffle_down cmp fuel q i).2 ∧
      (shuffle_down cmp fuel q i).2 < q.items.length := by
  induction fuel generalizing q i with
  | zero => exact absurd hfuel (by omega)
  | succ fuel ih =>
    unfold shuffle_down
    by_cases hleft : q.items.length ≤ left_child i
    · rw [if_pos hleft]
      exact ⟨h, below_last (length_le_of_left_child hn hleft), hi⟩
    · rw [if_neg hleft]
      have hlt := lt_of_left_child hn hi (by omega)
      rw [left_child_eq hlt] at hleft
      obtain ⟨hwhere, hslt, hall⟩ := smallest_spec cmp hi hlt (by omega)
      by_cases hs : q.smallest cmp i = i
      · rw [if_pos hs]
        refine ⟨h, ?_, hi⟩
        intro c hc hparent
        have hic := hall c (.inr ⟨hc, hparent⟩)
        rwa [hs] at hic
      · rw [if_neg hs]
        obtain ⟨hparent, his⟩ := hwhere.resolve_left hs
        have hstep := h.down (by omega) hparent hslt fun c hc hpc => hall c (.inr ⟨hc, hpc⟩)
        rw [← swap_items] at hstep
        have hlen := (swap_shuffled q i (q.smallest cmp i)).length
        have hrest := ih (by omega) (by omega) (by omega) hstep
        rwa [hlen] at hrest

/-- A heap in which one item was changed is put in order again. -/
theorem shuffle_ordered (hn : q.items.length ≤ 2 ^ 31) (hi : i < q.items.length)
    (h : HeapOrder.Around (le cmp) q.items i) :
    HeapOrder.Ordered (le cmp) (q.shuffle cmp i).items := by
  obtain ⟨haround, hbelow, hlt⟩ := shuffle_down_spec cmp q.items.length hn (by omega) hi h
  have hlen := (shuffle_down_shuffled cmp q.items.length q i).length
  exact shuffle_up_ordered _ (Nat.le_refl _) (by omega) haround hbelow

end order

/-! ## Section 4: Adding and removing -/

section operations
variable {cmp} {q : Prioq α β} {a : α} {idx : Option β} {i : Nat} {x : PrioqItem α β}

variable (cmp a) in
/-- A new item is added at the end first. -/
theorem put_shuffled (hidx : ∀ p, idx = some p → q.Unused p) :
    ∃ r : Prioq α β, Shuffled r (q.put cmp a idx) ∧ r.items = q.items ++ [⟨a, idx⟩] ∧
      (q.Indexed → r.Indexed) ∧ ∀ p, idx ≠ some p → r.mem p = q.mem p := by
  refine ⟨_, shuffle_up_shuffled cmp _ _ _, rfl, ?_, fun p hp => set_idx_ne hp _ _⟩
  intro h i x p hx hxp
  show set_idx idx (some q.items.length) q.mem p = some i
  by_cases hi : i < q.items.length
  · rw [getElem?_append_left hi] at hx
    rw [set_idx_ne fun hp => hidx p hp x (mem_of_getElem? hx) hxp]
    exact h i x p hx hxp
  · -- it is the new one
    rw [List.getElem?_append_right (by omega)] at hx
    obtain ⟨hlt, rfl⟩ := List.getElem?_eq_some_iff.mp hx
    simp only [List.length_cons, List.length_nil] at hlt
    have hend : q.items.length = i := by omega
    simp only [getElem_singleton] at hxp
    rw [hxp, set_idx_self, hend]

theorem put_perm : (q.put cmp a idx).items.Perm (⟨a, idx⟩ :: q.items) :=
  (shuffle_up_shuffled cmp _ _ _).perm.trans (perm_append_singleton _ _)

theorem put_ordered [Std.TransCmp cmp] (h : HeapOrder.Ordered (le cmp) q.items) :
    HeapOrder.Ordered (le cmp) (q.put cmp a idx).items := by
  have hlt : q.items.length < (q.items ++ [(⟨a, idx⟩ : PrioqItem α β)]).length := by simp
  apply shuffle_up_ordered _ (Nat.le_refl _) hlt
  · apply (h.around le_trans q.items.length).of_change
    · intro j y hj hy
      rw [getElem?_append] at hy
      split at hy
      · exact hy
      · next hge =>
        obtain ⟨hlt', _⟩ := List.getElem?_eq_some_iff.mp hy
        simp only [List.length_cons, List.length_nil] at hlt'
        omega
    · intro _ _ _ _ _ _ _ _ hle
      exact hle
  · apply below_last
    simp
    omega

section remove
variable {init : List (PrioqItem α β)} {l : PrioqItem α β}

theorem remove_item_last (hitems : q.items = init ++ [x]) :
    q.remove_item cmp init.length = ⟨init, set_idx x.idx none q.mem⟩ := by
  unfold remove_item
  simp [hitems]

theorem remove_item_inner (hitems : q.items = init ++ [l]) (hi : init[i]? = some x) :
    q.remove_item cmp i =
      shuffle cmp ⟨init.set i l, set_idx l.idx (some i) (set_idx x.idx none q.mem)⟩ i := by
  obtain ⟨hlt, _⟩ := List.getElem?_eq_some_iff.mp hi
  have hne : i ≠ init.length := by omega
  have hx : q.items[i]? = some x := by
    rw [hitems, getElem?_append_left hlt, hi]
  have hset : ((init ++ [l]).set i l).dropLast = init.set i l := by
    rw [set_append_left _ _ hlt, dropLast_concat]
  unfold remove_item
  rw [hx, hitems, getLast?_concat]
  simp only [length_append, length_cons, length_nil, Nat.add_sub_cancel,
    if_neg hne, hset]

theorem removed_last (hitems : q.items = init ++ [x]) :
    Removed q x ⟨init, set_idx x.idx none q.mem⟩ := by
  have hend : q.items[init.length]? = some x := by simp [hitems]
  constructor
  · rw [hitems]
    exact (perm_append_singleton _ _).symm
  · intro hq j y p hy hyp
    obtain ⟨hlt, _⟩ := List.getElem?_eq_some_iff.mp hy
    have hy' : q.items[j]? = some y := by rw [hitems, List.getElem?_append_left hlt, hy]
    have hxp : x.idx ≠ some p := by
      intro hxp
      have := hq.inj hy' hend hyp hxp
      simp only at hlt
      omega
    show set_idx x.idx none q.mem p = some j
    rw [set_idx_ne hxp]
    exact hq j y p hy' hyp
  · intro _ p hp
    show set_idx x.idx none q.mem p = none
    rw [hp, set_idx_self]
  · intro p hp
    exact set_idx_ne (hp x (mem_of_getElem? hend)) _ _

theorem removed_inner (hitems : q.items = init ++ [l]) (hi : init[i]? = some x) :
    Removed q x ⟨init.set i l, set_idx l.idx (some i) (set_idx x.idx none q.mem)⟩ := by
  obtain ⟨hlt, hxi⟩ := List.getElem?_eq_some_iff.mp hi
  have hend : q.items[init.length]? = some l := by simp [hitems]
  have hx : q.items[i]? = some x := by rw [hitems, getElem?_append_left hlt, hi]
  constructor
  · rw [hitems]
    -- both are the last item, the one taken out, and the others
    have h1 : (x :: init.set i l).Perm (x :: l :: init.eraseIdx i) :=
      (set_perm_cons_eraseIdx hlt l).cons x
    have h2 : (l :: x :: init.eraseIdx i).Perm (l :: init) := by
      rw [← hxi]
      exact (getElem_cons_eraseIdx_perm hlt).cons l
    exact h1.trans ((Perm.swap l x _).trans
      (h2.trans (perm_append_singleton l init).symm))
  · intro hq j y p hy hyp
    show set_idx l.idx (some i) (set_idx x.idx none q.mem) p = some j
    by_cases hji : j = i
    · subst hji
      simp only [getElem?_set_self hlt] at hy
      cases hy
      rw [hyp, set_idx_self]
    · simp only [List.getElem?_set_ne (Ne.symm hji)] at hy
      obtain ⟨hj, _⟩ := List.getElem?_eq_some_iff.mp hy
      have hy' : q.items[j]? = some y := by rw [hitems, List.getElem?_append_left hj, hy]
      have hlp : l.idx ≠ some p := by
        intro hlp
        have := hq.inj hy' hend hyp hlp
        omega
      have hxp : x.idx ≠ some p := fun hxp => hji (hq.inj hy' hx hyp hxp)
      rw [set_idx_ne hlp, set_idx_ne hxp]
      exact hq j y p hy' hyp
  · intro hq p hp
    have hlp : l.idx ≠ some p := by
      intro hlp
      have := hq.inj hx hend hp hlp
      omega
    show set_idx l.idx (some i) (set_idx x.idx none q.mem) p = none
    rw [set_idx_ne hlp, hp, set_idx_self]
  · intro p hp
    show set_idx l.idx (some i) (set_idx x.idx none q.mem) p = q.mem p
    rw [set_idx_ne (hp l (mem_of_getElem? hend)),
      set_idx_ne (hp x (mem_of_getElem? hx))]

theorem remove_item_removed (hi : q.items[i]? = some x) : Removed q x (q.remove_item cmp i) := by
  obtain ⟨init, hitems, rfl⟩ | ⟨init, l, hitems, hinit⟩ := items_cases hi
  · rw [remove_item_last hitems]
    exact removed_last hitems
  · rw [remove_item_inner hitems hinit]
    exact (removed_inner hitems hinit).shuffled (shuffle_shuffled cmp _ _)

theorem remove_item_ordered [Std.TransCmp cmp] (hn : q.items.length ≤ 2 ^ 31)
    (h : HeapOrder.Ordered (le cmp) q.items) (hi : q.items[i]? = some x) :
    HeapOrder.Ordered (le cmp) (q.remove_item cmp i).items := by
  obtain ⟨init, hitems, rfl⟩ | ⟨init, l, hitems, hinit⟩ := items_cases hi
  · rw [remove_item_last hitems]
    apply h.of_same
    intro j y hy
    rw [hitems, List.getElem?_append_left (List.getElem?_eq_some_iff.mp hy).1, hy]
  · rw [remove_item_inner hitems hinit]
    obtain ⟨hlt, _⟩ := List.getElem?_eq_some_iff.mp hinit
    have hlen : q.items.length = init.length + 1 := by simp [hitems]
    apply shuffle_ordered
    · simp only [length_set]
      omega
    · simpa using hlt
    · apply (h.around le_trans i).of_change
      · intro j y hj hy
        simp only [List.getElem?_set_ne (Ne.symm hj)] at hy
        rw [hitems, List.getElem?_append_left (List.getElem?_eq_some_iff.mp hy).1, hy]
      · intro _ _ _ _ _ _ _ _ hle
        exact hle

end remove

end operations

end Prioq

end SdCompat
