import Mathlib.Data.List.Perm.Basic

/-! # Binary heaps in lists

    The children of place `i` are `2 * i + 1` and `2 * i + 2`. A heap in which
    one item was changed is in order around the place of this item; moving the
    item up or down keeps that, and where it stops the heap is in order:

    * `Around.up`, `Around.ordered`: on the way up;
    * `Around.down`, `Around.below`: on the way down.
-/

namespace HeapOrder

open List

variable {γ : Type*}

/-! ## Section 1: Exchanging two items -/

/-- The place above. -/
def parent (i : Nat) : Nat := (i - 1) / 2

/-- The list with two items exchanged, if there are such places. -/
def swapped (l : List γ) (j k : Nat) : List γ :=
  match l[j]?, l[k]? with
  | some a, some b => (l.set j b).set k a
  | _, _ => l

theorem swapped_eq {l : List γ} {j k : Nat} (hj : j < l.length) (hk : k < l.length) :
    swapped l j k = (l.set j l[k]).set k l[j] := by
  unfold swapped
  rw [getElem?_eq_getElem hj, getElem?_eq_getElem hk]

theorem swapped_get {l : List γ} {j k : Nat} (hj : j < l.length) (hk : k < l.length) (x : Nat) :
    (swapped l j k)[x]? = if x = j then l[k]? else if x = k then l[j]? else l[x]? := by
  rw [swapped_eq hj hk]
  by_cases hxk : k = x
  · subst hxk
    rw [getElem?_set_self (by simpa using hk)]
    split
    · next hkj =>
      subst hkj
      simp
    · simp
  · rw [getElem?_set_ne hxk]
    by_cases hxj : j = x
    · subst hxj
      rw [getElem?_set_self hj]
      simp
    · rw [getElem?_set_ne hxj, if_neg (Ne.symm hxj), if_neg (Ne.symm hxk)]

theorem swapped_perm (l : List γ) (j k : Nat) : (swapped l j k).Perm l := by
  unfold swapped
  split
  · next a b ha hb =>
    obtain ⟨hj, rfl⟩ := List.getElem?_eq_some_iff.mp ha
    obtain ⟨hk, rfl⟩ := List.getElem?_eq_some_iff.mp hb
    exact List.set_set_perm hj hk
  · exact .refl _

/-! ## Section 2: Order -/

variable (le : γ → γ → Prop)

/-- The items in these places are in order, if there are any. -/
def InOrder (l : List γ) (p c : Nat) : Prop :=
  ∀ x y, l[p]? = some x → l[c]? = some y → le x y

/-- The heap property. -/
def Ordered (l : List γ) : Prop := ∀ c, 0 < c → InOrder le l (parent c) c

/-- The heap property but for the pairs with the place `i`; the items below it
    are in order with the one above it. -/
structure Around (l : List γ) (i : Nat) : Prop where
  pairs : ∀ c, 0 < c → c ≠ i → parent c ≠ i → InOrder le l (parent c) c
  grand : 0 < i → ∀ c, 0 < c → parent c = i → InOrder le l (parent i) c

/-- The item is in order with those below it. -/
def Below (l : List γ) (i : Nat) : Prop := ∀ c, 0 < c → parent c = i → InOrder le l i c

theorem parent_lt {i : Nat} (h : 0 < i) : parent i < i := by
  unfold parent
  omega

section order
variable {le} {l l' : List γ} {i s : Nat}

theorem InOrder.congr {p c p' c' : Nat} (hp : l'[p]? = l[p']?) (hc : l'[c]? = l[c']?)
    (h : InOrder le l p' c') : InOrder le l' p c := by
  intro x y hx hy
  exact h x y (hp ▸ hx) (hc ▸ hy)

theorem Ordered.around (htrans : ∀ a b c, le a b → le b c → le a c) (h : Ordered le l) (i : Nat) :
    Around le l i := by
  constructor
  · intro c hc _ _
    exact h c hc
  · intro hi c hc hparent x y hx hy
    -- by way of the item between the two
    have hlt : i < l.length := by
      have hc' := (List.getElem?_eq_some_iff.mp hy).1
      have := parent_lt hc
      omega
    have hmid : l[i]? = some l[i] := List.getElem?_eq_getElem hlt
    have h1 := h i hi x l[i] hx hmid
    have h2 := h c hc
    rw [hparent] at h2
    exact htrans _ _ _ h1 (h2 l[i] y hmid hy)

/-- Apart from the place `i` there are only items that were there before, in
    the same places, and the order of these has not changed. -/
theorem Around.of_change {le' : γ → γ → Prop} (h : Around le l i)
    (hsame : ∀ (j : Nat) x, j ≠ i → l'[j]? = some x → l[j]? = some x)
    (hle : ∀ (p c : Nat) x y, p ≠ i → c ≠ i → l[p]? = some x → l[c]? = some y → le x y → le' x y) :
    Around le' l' i := by
  constructor
  · intro c hc hci hpi x y hx hy
    have hx' := hsame _ x hpi hx
    have hy' := hsame _ y hci hy
    exact hle _ _ x y hpi hci hx' hy' (h.pairs c hc hci hpi x y hx' hy')
  · intro hi c hc hparent x y hx hy
    have hlt := parent_lt hi
    have hlt' := parent_lt hc
    have hx' := hsame _ x (by omega) hx
    have hy' := hsame _ y (by omega) hy
    exact hle _ _ x y (by omega) (by omega) hx' hy' (h.grand hi c hc hparent x y hx' hy')

/-- A heap that loses its last items stays a heap. -/
theorem Ordered.of_same (h : Ordered le l) (hsame : ∀ (j : Nat) x, l'[j]? = some x → l[j]? = some x) :
    Ordered le l' := by
  intro c hc x y hx hy
  exact h c hc x y (hsame _ x hx) (hsame _ y hy)

/-- Where the item is in order with the one above it too, the heap is. -/
theorem Around.ordered (h : Around le l i) (hbelow : Below le l i)
    (habove : 0 < i → InOrder le l (parent i) i) : Ordered le l := by
  intro c hc
  by_cases hci : c = i
  · rw [hci] at hc ⊢
    exact habove hc
  by_cases hpi : parent c = i
  · have hb := hbelow c hc hpi
    rwa [hpi]
  · exact h.pairs c hc hci hpi

/-- One step up: the item was smaller than the one above it. -/
theorem Around.up (htrans : ∀ a b c, le a b → le b c → le a c) (h : Around le l i)
    (hi : 0 < i) (hlt : i < l.length) (hle : InOrder le l i (parent i)) :
    Around le (swapped l i (parent i)) (parent i) ∧ Below le (swapped l i (parent i)) (parent i) := by
  have hp := parent_lt hi
  have hget := swapped_get hlt (show parent i < l.length by omega)
  have hpi : l[parent i]? = some l[parent i] := getElem?_eq_getElem (by omega)
  have hsame : ∀ c, c ≠ i → c ≠ parent i → (swapped l i (parent i))[c]? = l[c]? := by
    intro c h1 h2
    rw [hget, if_neg h1, if_neg h2]
  have hat : (swapped l i (parent i))[i]? = l[parent i]? := by
    rw [hget, if_pos rfl]
  have hatp : (swapped l i (parent i))[parent i]? = l[i]? := by
    rw [hget, if_neg (by omega), if_pos rfl]
  refine ⟨⟨?_, ?_⟩, ?_⟩
  · intro c hc hcp hpcp
    have hci : c ≠ i := by
      rintro rfl
      exact hpcp rfl
    by_cases hpc : parent c = i
    · rw [hpc]
      exact (h.grand hi c hc hpc).congr hat (hsame c hci hcp)
    · exact (h.pairs c hc hci hpc).congr (hsame _ hpc hpcp) (hsame c hci hcp)
  · intro hp0 c hc hparent
    have hpp := parent_lt hp0
    have hz := hsame (parent (parent i)) (by omega) (by omega)
    have hzp := h.pairs (parent i) hp0 (by omega) (by omega)
    by_cases hci : c = i
    · rw [hci]
      exact hzp.congr hz hat
    · have hcp := parent_lt hc
      have hpc := h.pairs c hc hci (by omega)
      rw [hparent] at hpc
      intro x y hx hy
      rw [hz] at hx
      rw [hsame c hci (by omega)] at hy
      exact htrans _ _ _ (hzp x _ hx hpi) (hpc _ y hpi hy)
  · intro c hc hparent
    by_cases hci : c = i
    · rw [hci]
      exact hle.congr hatp hat
    · have hcp := parent_lt hc
      have hpc := h.pairs c hc hci (by omega)
      rw [hparent] at hpc
      intro x y hx hy
      rw [hatp] at hx
      rw [hsame c hci (by omega)] at hy
      exact htrans _ _ _ (hle x _ hx hpi) (hpc _ y hpi hy)

/-- One step down: the smallest of the items below goes up. -/
theorem Around.down (h : Around le l i) (hs : 0 < s) (hparent : parent s = i)
    (hlt : s < l.length) (hsmall : ∀ c, 0 < c → parent c = i → InOrder le l s c) :
    Around le (swapped l i s) s := by
  have hi := parent_lt hs
  have hget := swapped_get (show i < l.length by omega) hlt
  have hsame : ∀ c, c ≠ i → c ≠ s → (swapped l i s)[c]? = l[c]? := by
    intro c h1 h2
    rw [hget, if_neg h1, if_neg h2]
  have hat : (swapped l i s)[i]? = l[s]? := by
    rw [hget, if_pos rfl]
  constructor
  · intro c hc hcs hpcs
    by_cases hci : c = i
    · rw [hci] at hc ⊢
      have hpi := parent_lt hc
      exact (h.grand hc s hs hparent).congr (hsame _ (by omega) (by omega)) hat
    · by_cases hpc : parent c = i
      · rw [hpc]
        exact (hsmall c hc hpc).congr hat (hsame c hci hcs)
      · exact (h.pairs c hc hci hpc).congr (hsame _ hpc hpcs) (hsame c hci hcs)
  · intro _ c hc hpc
    have hcs := parent_lt hc
    have hpair := h.pairs c hc (by omega) (by omega)
    rw [hpc] at hpair
    rw [hparent]
    exact hpair.congr hat (hsame c (by omega) (by omega))

/-- Nothing is below the last places. -/
theorem below_last (h : l.length ≤ 2 * i + 1) : Below le l i := by
  intro c hc hparent x y _ hy
  have hlt := (List.getElem?_eq_some_iff.mp hy).1
  unfold parent at hparent
  omega

/-- The first item is a smallest one. -/
theorem Ordered.root (hrefl : ∀ a, le a a) (htrans : ∀ a b c, le a b → le b c → le a c)
    (h : Ordered le l) : ∀ i, InOrder le l 0 i := by
  intro i
  induction i using Nat.strongRecOn with
  | ind i ih =>
    intro x y hx hy
    by_cases hi : 0 < i
    · have hp := parent_lt hi
      have hlt := (List.getElem?_eq_some_iff.mp hy).1
      have hpi : l[parent i]? = some l[parent i] := List.getElem?_eq_getElem (by omega)
      exact htrans _ _ _ (ih _ hp x _ hx hpi) (h i hi _ y hpi hy)
    · obtain rfl : i = 0 := by omega
      rw [hx] at hy
      cases hy
      exact hrefl x

end order

end HeapOrder
