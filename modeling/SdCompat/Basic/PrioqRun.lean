import Mathlib.Data.Multiset.MapFold
import SdCompat.Basic.PrioqHeap
import SdCompat.Lib.Transition

/-! # Priority queues over whole runs (prioq.c)

    A queue and its callers, who may change the priority of an object when they
    reshuffle it then. What it is for is a bag of items of which a smallest one
    can be taken (`bag_system`); as long as the places of children can be
    computed, the queue does what the bag does (`prioq_refines_bag`).
-/

namespace SdCompat

open Transition Multiset

/-- The calls, with what they return, and what the callers do in between:
    they change priorities, which is another comparison function, and they set
    indexes that are not in the queue. -/
inductive PrioqCall (α β : Type) where
  | put (a : α) (idx : Option β) (memory : Bool)
  | remove (a : α) (idx : Option β) (found : Bool)
  | pop (r : Option α)
  | peek (r : Option α)
  | reshuffle (a : α) (idx : Option β)
  /-- The priority of a queued object is changed, and it is reshuffled. -/
  | change (cmp : α → α → Ordering) (a : α) (idx : Option β)
  /-- The priorities of objects that are not queued are changed. -/
  | prioritise (cmp : α → α → Ordering)
  | write (p : β) (v : Option Nat)

namespace Prioq

variable {α β : Type} [DecidableEq α] [DecidableEq β]

/-- What the callers have to take care of, by the items that are queued: an
    index belongs to one item, and priorities are changed one at a time. -/
def Allowed (cmp : α → α → Ordering) (queued : Multiset (PrioqItem α β)) :
    PrioqCall α β → Prop
  | .put _ idx _ => ∀ p, idx = some p → ∀ x ∈ queued, x.idx ≠ some p
  | .change cmp' a idx => Std.TransCmp cmp' ∧ ∃ x rest, queued = x ::ₘ rest ∧ x.data = a ∧
      (idx = none ∨ idx = x.idx) ∧ ∀ y ∈ rest, y.data ≠ a ∧
        ∀ z ∈ rest, cmp' y.data z.data = cmp y.data z.data
  | .prioritise cmp' => Std.TransCmp cmp' ∧
      ∀ x ∈ queued, ∀ y ∈ queued, cmp' x.data y.data = cmp x.data y.data
  | .write p _ => ∀ x ∈ queued, x.idx ≠ some p
  | _ => True

/-! ## Section 1: The queue -/

/-- A queue with its comparison function. -/
structure State (α β : Type) where
  cmp : α → α → Ordering
  q : Prioq α β

/-- What the calls do. -/
def Calls (s : State α β) : PrioqCall α β → State α β → Prop
  | .put a idx true, s' => s' = { s with q := s.q.put s.cmp a idx }
  | .put _ _ false, s' => s' = s
  | .remove a idx found, s' =>
    s' = { s with q := (s.q.remove s.cmp a idx).1 } ∧ found = (s.q.remove s.cmp a idx).2
  | .pop r, s' => s' = { s with q := (s.q.pop s.cmp).1 } ∧ r = (s.q.pop s.cmp).2
  | .peek r, s' => s' = s ∧ r = s.q.peek
  | .reshuffle a idx, s' => s' = { s with q := s.q.reshuffle s.cmp a idx }
  | .change cmp a idx, s' => s' = ⟨cmp, s.q.reshuffle cmp a idx⟩
  | .prioritise cmp, s' => s' = { s with cmp := cmp }
  | .write p v, s' => s' = { s with q := { s.q with mem := set_idx (some p) v s.q.mem } }

/-- Any calls in any order on a queue that is empty at first. -/
def prioq_system : System (State α β) (PrioqCall α β) where
  init := fun s => Std.TransCmp s.cmp ∧ s.q.items = []
  step := fun s l s' => Allowed s.cmp s.q.items l ∧ Calls s l s'

/-- Places are below `2 ^ 31`, so that those of children can be computed. -/
def Small (s : State α β) (_ : PrioqCall α β) : Prop := s.q.items.length ≤ 2 ^ 31

/-! ## Section 2: The bag -/

/-- The items that were put and not taken out, and the indexes of those that
    were taken out. -/
structure Bag (α β : Type) where
  cmp : α → α → Ordering
  queued : Multiset (PrioqItem α β)
  removed : β → Prop

namespace Bag

/-- An empty one. -/
def empty (cmp : α → α → Ordering) : Bag α β := ⟨cmp, 0, fun _ => False⟩

/-- The bag without an item. -/
def take (b : Bag α β) (x : PrioqItem α β) : Bag α β where
  cmp := b.cmp
  queued := b.queued.erase x
  removed := fun p => b.removed p ∨ x.idx = some p

/-- A smallest item. -/
def IsMin (b : Bag α β) (x : PrioqItem α β) : Prop :=
  x ∈ b.queued ∧ ∀ y ∈ b.queued, le b.cmp x y

/-- What the calls should do: with an index that is queued an item is only
    found by its own, and with one that was removed none is. -/
def Calls (b : Bag α β) : PrioqCall α β → Bag α β → Prop
  | .put a idx true, b' => b' = { b with
      queued := ⟨a, idx⟩ ::ₘ b.queued, removed := fun p => b.removed p ∧ idx ≠ some p }
  | .put _ _ false, b' => b' = b
  | .remove a idx true, b' => ∃ x ∈ b.queued, x.data = a ∧ b' = b.take x ∧
      ∀ p, idx = some p → ¬ b.removed p ∧ ((∃ y ∈ b.queued, y.idx = some p) → x.idx = some p)
  | .remove a idx false, b' => b' = b ∧ ∀ x ∈ b.queued, x.data = a → idx ≠ none ∧ x.idx ≠ idx
  | .pop (some a), b' => ∃ x, b.IsMin x ∧ x.data = a ∧ b' = b.take x
  | .pop none, b' => b' = b ∧ b.queued = 0
  | .peek (some a), b' => b' = b ∧ ∃ x, b.IsMin x ∧ x.data = a
  | .peek none, b' => b' = b ∧ b.queued = 0
  | .reshuffle _ _, b' => b' = b
  | .change cmp _ _, b' => b' = { b with cmp := cmp }
  | .prioritise cmp, b' => b' = { b with cmp := cmp }
  | .write p _, b' => b' = { b with removed := fun r => b.removed r ∧ r ≠ p }

end Bag

/-- The bag and its callers. -/
def bag_system : System (Bag α β) (PrioqCall α β) where
  init := fun b => Std.TransCmp b.cmp ∧ b = Bag.empty b.cmp
  step := fun b l b' => Allowed b.cmp b.queued l ∧ b.Calls l b'

/-! ## Section 3: Refinement -/

/-- The queue is a heap of the items in the bag; their indexes are their
    places, and those of removed items are `PRIOQ_IDX_NULL`. -/
structure Refines (s : State α β) (b : Bag α β) : Prop where
  order : Std.TransCmp s.cmp
  cmp : b.cmp = s.cmp
  queued : b.queued = s.q.items
  heap : HeapOrder.Ordered (le s.cmp) s.q.items
  indexed : s.q.Indexed
  removed : ∀ p, b.removed p → s.q.mem p = none ∧ s.q.Unused p

section steps
variable {s : State α β} {b : Bag α β} {a : α} {idx : Option β} {x : PrioqItem α β} {i : Nat}

section
variable (h : Refines s b)
include h

theorem Refines.mem_iff : x ∈ b.queued ↔ x ∈ s.q.items := by
  rw [h.queued, mem_coe]

theorem Refines.put (hidx : ∀ p, idx = some p → s.q.Unused p) :
    Refines { s with q := s.q.put s.cmp a idx }
      { b with queued := ⟨a, idx⟩ ::ₘ b.queued, removed := fun p => b.removed p ∧ idx ≠ some p } := by
  have htrans := h.order
  obtain ⟨r, hshuffled, hitems, hindexed, hframe⟩ := put_shuffled s.cmp a hidx
  constructor
  · exact h.order
  · exact h.cmp
  · rw [h.queued]
    exact coe_eq_coe.mpr put_perm.symm
  · exact put_ordered h.heap
  · exact hshuffled.indexed (hindexed h.indexed)
  · rintro p ⟨hp, hne⟩
    obtain ⟨hnone, hunused⟩ := h.removed p hp
    have hr : r.Unused p := by
      intro x hx
      rw [hitems, List.mem_append, List.mem_singleton] at hx
      obtain hx | rfl := hx
      · exact hunused x hx
      · exact hne
    exact ⟨by rw [hshuffled.frame p hr, hframe p hne, hnone], hshuffled.unused hr⟩

theorem Refines.take (hsmall : s.q.items.length ≤ 2 ^ 31) (hi : s.q.items[i]? = some x) :
    Refines { s with q := s.q.remove_item s.cmp i } (b.take x) := by
  have htrans := h.order
  have hremoved : Removed s.q x (s.q.remove_item s.cmp i) := remove_item_removed hi
  constructor
  · exact h.order
  · exact h.cmp
  · show b.queued.erase x = _
    rw [h.queued, ← coe_eq_coe.mpr hremoved.perm, ← cons_coe,
      erase_cons_head]
  · exact remove_item_ordered hsmall h.heap hi
  · exact hremoved.indexed h.indexed
  · rintro p (hp | hp)
    · obtain ⟨hnone, hunused⟩ := h.removed p hp
      refine ⟨by rw [hremoved.frame p hunused, hnone], ?_⟩
      intro y hy
      exact hunused y (hremoved.perm.mem_iff.mp (List.mem_cons_of_mem x hy))
    · exact ⟨hremoved.cleared h.indexed p hp, hremoved.unused h.indexed hp⟩

variable {cmp : α → α → Ordering}

/-- The items were moved, and are in order by this comparison function. -/
theorem Refines.shuffled {q : Prioq α β} (hs : Shuffled s.q q) (htrans : Std.TransCmp cmp)
    (hord : HeapOrder.Ordered (le cmp) q.items) : Refines ⟨cmp, q⟩ { b with cmp := cmp } := by
  constructor
  · exact htrans
  · rfl
  · rw [h.queued]
    exact coe_eq_coe.mpr hs.perm.symm
  · exact hord
  · exact hs.indexed h.indexed
  · intro p hp
    obtain ⟨hnone, hunused⟩ := h.removed p hp
    exact ⟨by rw [hs.frame p hunused, hnone], hs.unused hunused⟩

theorem Refines.reshuffle (hsmall : s.q.items.length ≤ 2 ^ 31) :
    Refines { s with q := s.q.reshuffle s.cmp a idx } b := by
  have htrans := h.order
  unfold Prioq.reshuffle
  split
  · exact h
  · next i hi =>
    obtain ⟨x, hx, _⟩ := find_item_some h.indexed hi
    have hres := h.shuffled (shuffle_shuffled s.cmp s.q i) htrans
      (shuffle_ordered hsmall (List.getElem?_eq_some_iff.mp hx).1 (h.heap.around le_trans i))
    rwa [← h.cmp] at hres ⊢

/-- One item has another priority. -/
theorem Refines.change {rest : Multiset (PrioqItem α β)} (hsmall : s.q.items.length ≤ 2 ^ 31)
    (htrans : Std.TransCmp cmp) (hx : s.q.items = x ::ₘ rest) (ha : x.data = a)
    (hidx : idx = none ∨ idx = x.idx)
    (hrest : ∀ y ∈ rest, y.data ≠ a ∧ ∀ z ∈ rest, cmp y.data z.data = s.cmp y.data z.data) :
    Refines ⟨cmp, s.q.reshuffle cmp a idx⟩ { b with cmp := cmp } := by
  unfold Prioq.reshuffle
  split
  · next hnone =>
    -- the item is there, so it is found
    have hmem : x ∈ s.q.items := by
      rw [← mem_coe, hx]
      exact mem_cons_self x rest
    obtain ⟨h1, h2⟩ := find_item_none h.indexed hnone x hmem ha
    rcases hidx with rfl | rfl
    · exact absurd rfl h1
    · exact absurd rfl h2
  · next i hi =>
    obtain ⟨y, hy, hya, _⟩ := find_item_some h.indexed hi
    obtain ⟨hlt, hyi⟩ := List.getElem?_eq_some_iff.mp hy
    have hold := h.order
    have hcons : (s.q.items : Multiset (PrioqItem α β)) = y ::ₘ (s.q.items.eraseIdx i) := by
      rw [← hyi]
      exact coe_eq_coe.mpr (List.getElem_cons_eraseIdx_perm hlt).symm
    have hxy : y = x := by
      have hmem : y ∈ x ::ₘ rest := by
        rw [← hx, hcons]
        exact mem_cons_self y _
      obtain hyx | hyrest := mem_cons.mp hmem
      · exact hyx
      · exact absurd hya (hrest y hyrest).1
    have herase : ((s.q.items.eraseIdx i : List (PrioqItem α β)) : Multiset _) = rest := by
      rw [hx, hxy] at hcons
      exact (cons_inj_right x).mp hcons.symm
    have hothers : ∀ (j : Nat) z, j ≠ i → s.q.items[j]? = some z → z ∈ rest := by
      intro j z hj hz
      rw [← herase, mem_coe, List.mem_eraseIdx_iff_getElem?]
      exact ⟨j, hj, hz⟩
    have haround : HeapOrder.Around (le cmp) s.q.items i := by
      apply (h.heap.around le_trans i).of_change
      · intro _ _ _ hz
        exact hz
      · intro j k z w hj hk hz hw hle
        unfold le at hle ⊢
        rwa [(hrest z (hothers j z hj hz)).2 w (hothers k w hk hw)]
    exact h.shuffled (shuffle_shuffled cmp s.q i) htrans (shuffle_ordered hsmall hlt haround)

theorem Refines.prioritise (htrans : Std.TransCmp cmp)
    (hsame : ∀ x ∈ s.q.items, ∀ y ∈ s.q.items, cmp x.data y.data = s.cmp x.data y.data) :
    Refines { s with cmp := cmp } { b with cmp := cmp } := by
  apply h.shuffled (.refl s.q) htrans
  intro c hc x y hx hy
  have hle := h.heap c hc x y hx hy
  unfold le at hle ⊢
  rwa [hsame x (List.mem_of_getElem? hx) y (List.mem_of_getElem? hy)]

theorem Refines.write {p : β} {v : Option Nat} (hp : s.q.Unused p) :
    Refines { s with q := { s.q with mem := set_idx (some p) v s.q.mem } }
      { b with removed := fun r => b.removed r ∧ r ≠ p } := by
  refine ⟨h.order, h.cmp, h.queued, h.heap, ?_, ?_⟩
  · intro i x r hx hxr
    have hne : (some p : Option β) ≠ some r := by
      intro heq
      cases heq
      exact hp x (List.mem_of_getElem? hx) hxr
    show set_idx (some p) v s.q.mem r = some i
    rw [set_idx_ne hne]
    exact h.indexed i x r hx hxr
  · rintro r ⟨hr, hne⟩
    obtain ⟨hnone, hunused⟩ := h.removed r hr
    refine ⟨?_, hunused⟩
    show set_idx (some p) v s.q.mem r = none
    rw [set_idx_ne (fun heq => hne (Option.some.inj heq).symm), hnone]

/-- The first item is a smallest one. -/
theorem Refines.head (hx : s.q.items[0]? = some x) : b.IsMin x := by
  have htrans := h.order
  refine ⟨h.mem_iff.mpr (List.mem_of_getElem? hx), ?_⟩
  intro y hy
  obtain ⟨j, hj⟩ := List.mem_iff_getElem?.mp (h.mem_iff.mp hy)
  rw [h.cmp]
  exact h.heap.root le_refl le_trans j x y hx hj

theorem Refines.remove (hsmall : s.q.items.length ≤ 2 ^ 31) :
    ∃ b', b.Calls (.remove a idx (s.q.remove s.cmp a idx).2) b' ∧
      Refines { s with q := (s.q.remove s.cmp a idx).1 } b' := by
  unfold Prioq.remove
  split
  · next hnone =>
    refine ⟨b, ⟨rfl, ?_⟩, h⟩
    intro x hx
    exact find_item_none h.indexed hnone x (h.mem_iff.mp hx)
  · next i hi =>
    obtain ⟨x, hx, hdata, hptr⟩ := find_item_some h.indexed hi
    refine ⟨b.take x, ⟨x, h.mem_iff.mpr (List.mem_of_getElem? hx), hdata, rfl, ?_⟩,
      h.take hsmall hx⟩
    intro p hp
    obtain ⟨hset, howner⟩ := hptr p hp
    constructor
    · intro hremoved
      exact hset (h.removed p hremoved).1
    · rintro ⟨y, hy, hyp⟩
      exact howner.resolve_left fun hunused => hunused y (h.mem_iff.mp hy) hyp

theorem Refines.pop (hsmall : s.q.items.length ≤ 2 ^ 31) :
    ∃ b', b.Calls (.pop (s.q.pop s.cmp).2) b' ∧ Refines { s with q := (s.q.pop s.cmp).1 } b' := by
  unfold Prioq.pop
  rw [List.head?_eq_getElem?]
  split
  · next hnone =>
    refine ⟨b, ⟨rfl, ?_⟩, h⟩
    have hnil : s.q.items = [] := by simpa using hnone
    rw [h.queued, hnil, coe_nil]
  · next x hx => exact ⟨b.take x, ⟨x, h.head hx, rfl, rfl⟩, h.take hsmall hx⟩

theorem Refines.peek : b.Calls (.peek s.q.peek) b := by
  unfold Prioq.peek
  rw [List.head?_eq_getElem?]
  cases hx : s.q.items[0]? with
  | none =>
    refine ⟨rfl, ?_⟩
    have hnil : s.q.items = [] := by simpa using hx
    rw [h.queued, hnil, coe_nil]
  | some x => exact ⟨rfl, x, h.head hx, rfl⟩

/-- What the queue does, the bag does. -/
theorem Refines.step {s' : State α β} {l : PrioqCall α β} (hsmall : Small s l)
    (hst : prioq_system.step s l s') : ∃ b', bag_system.step b l b' ∧ Refines s' b' := by
  obtain ⟨hallowed, hcall⟩ := hst
  have hsame : Allowed b.cmp b.queued l := by rwa [h.cmp, h.queued]
  suffices hb : ∃ b', b.Calls l b' ∧ Refines s' b' by
    obtain ⟨b', hb', hr⟩ := hb
    exact ⟨b', ⟨hsame, hb'⟩, hr⟩
  cases l with
  | put a idx memory =>
    cases memory with
    | false =>
      obtain rfl : s' = s := hcall
      exact ⟨b, rfl, h⟩
    | true =>
      obtain rfl : s' = _ := hcall
      exact ⟨_, rfl, h.put hallowed⟩
  | remove a idx found =>
    obtain ⟨rfl, rfl⟩ := hcall
    exact h.remove hsmall
  | pop r =>
    obtain ⟨rfl, rfl⟩ := hcall
    exact h.pop hsmall
  | peek r =>
    obtain ⟨rfl, rfl⟩ := hcall
    exact ⟨b, h.peek, h⟩
  | reshuffle a idx =>
    obtain rfl : s' = _ := hcall
    exact ⟨b, rfl, h.reshuffle hsmall⟩
  | change cmp a idx =>
    obtain rfl : s' = _ := hcall
    obtain ⟨htrans, x, rest, hx, ha, hidx, hrest⟩ := hallowed
    exact ⟨_, rfl, h.change hsmall htrans hx ha hidx hrest⟩
  | prioritise cmp =>
    obtain rfl : s' = _ := hcall
    exact ⟨_, rfl, h.prioritise hallowed.1 hallowed.2⟩
  | write p v =>
    obtain rfl : s' = _ := hcall
    exact ⟨_, rfl, h.write hallowed⟩

end

end steps

variable {s : State α β}

theorem Refines.init (h : prioq_system.init s) : Refines s (.empty s.cmp) := by
  obtain ⟨htrans, hnil⟩ := h
  constructor
  · exact htrans
  · rfl
  · rw [hnil]
    rfl
  · intro c _ x y hx
    simp [hnil] at hx
  · intro i x p hx
    simp [hnil] at hx
  · intro p hp
    exact absurd hp id

theorem Refines.run {s' : State α β} {b : Bag α β} {labels : List (PrioqCall α β)}
    (hr : Run (prioq_system.restrict Small) s labels s') (h : Refines s b) :
    ∃ b', Run bag_system b labels b' ∧ Refines s' b' := by
  induction hr generalizing b with
  | nil => exact ⟨b, .nil b, h⟩
  | cons hst _ ih =>
    obtain ⟨b1, hb1, h1⟩ := h.step hst.1 hst.2
    obtain ⟨b2, hb2, h2⟩ := ih h1
    exact ⟨b2, .cons hb1 hb2, h2⟩

/-- **A priority queue is a bag**: calls on a queue with places below `2 ^ 31`
    return what the bag returns, and the queue stays a heap of its items. -/
theorem prioq_refines_bag {s s' : State α β} {labels : List (PrioqCall α β)}
    (hs : prioq_system.init s) (hr : Run (prioq_system.restrict Small) s labels s') :
    ∃ b, Run bag_system (.empty s.cmp) labels b ∧ Refines s' b :=
  (Refines.init hs).run hr

theorem prioq_refines_bag_pop :
    ∃ b, Run bag_system (.empty compare) [.put 5 (some 0) true, .pop (some 5)] b ∧
      Refines (⟨compare, ⟨[], set_idx (some 0) none fun _ => none⟩⟩ : State Nat Nat) b := by
  have hs : prioq_system.init (⟨compare, ⟨[], fun _ => none⟩⟩ : State Nat Nat) :=
    ⟨inferInstance, rfl⟩
  have hput : Run (prioq_system.restrict Small) (⟨compare, ⟨[], fun _ => none⟩⟩ : State Nat Nat)
      [.put 5 (some 0) true]
      ⟨compare, ⟨[⟨5, some 0⟩], set_idx (some 0) (some 0) fun _ => none⟩⟩ :=
    .single ⟨Nat.zero_le _, fun _ _ x hx => absurd hx (List.not_mem_nil (a := x)), rfl⟩
  refine prioq_refines_bag hs (hput.append (.single ⟨by simp [Small], trivial, ?_, rfl⟩))
  show (⟨compare, _⟩ : State Nat Nat) = ⟨compare, _⟩
  congr 2
  funext p
  unfold set_idx
  split
  · rfl
  · next hp => exact (if_neg hp).symm

/-- Objects taken out one after the other, this many at most. -/
def pops (cmp : α → α → Ordering) : Nat → Prioq α β → List α
  | 0, _ => []
  | n + 1, q =>
    match q.pop cmp with
    | (q', some a) => a :: pops cmp n q'
    | (_, none) => []

theorem Refines.pops {b : Bag α β} {n : Nat} (h : Refines s b) (hsmall : s.q.items.length ≤ 2 ^ 31)
    (hn : s.q.items.length ≤ n) : (Prioq.pops s.cmp n s.q).Pairwise (s.cmp · · ≠ .gt) ∧
      (Prioq.pops s.cmp n s.q : Multiset α) = b.queued.map (·.data) := by
  induction n generalizing s b with
  | zero => simp [Prioq.pops, h.queued, List.eq_nil_of_length_eq_zero (Nat.le_zero.mp hn)]
  | succ n ih =>
    unfold Prioq.pops Prioq.pop
    rw [List.head?_eq_getElem?]
    cases hx : s.q.items[0]? with
    | none => simp_all [h.queued]
    | some x =>
      have hmin := h.head hx
      have htake := h.take hsmall hx
      have hlength : (s.q.remove_item s.cmp 0).items.length + 1 = s.q.items.length := by
        rw [← coe_card, ← htake.queued, ← coe_card s.q.items, ← h.queued]
        exact card_erase_add_one hmin.1
      obtain ⟨hsorted, hall⟩ := ih htake (by simp; omega) (by simp; omega)
      constructor
      · simp only [List.pairwise_cons]
        refine ⟨?_, hsorted⟩
        intro y hy
        -- what is taken out later was queued, and the first item was a smallest one
        rw [← mem_coe, hall, mem_map] at hy
        obtain ⟨z, hz, rfl⟩ := hy
        rw [← h.cmp]
        exact hmin.2 z (mem_of_mem_erase hz)
      · rw [← cons_coe, hall]
        conv_rhs => rw [← cons_erase hmin.1, map_cons]
        rfl

/-- Whatever was called before, the objects come out in the order of their
    priorities, and each that is queued comes out. -/
theorem popped_in_order {s' : State α β} {labels : List (PrioqCall α β)} (hs : prioq_system.init s)
    (hr : Run (prioq_system.restrict Small) s labels s') (hsmall : s'.q.items.length ≤ 2 ^ 31) :
    (pops s'.cmp s'.q.items.length s'.q).Pairwise (s'.cmp · · ≠ .gt) ∧
      (pops s'.cmp s'.q.items.length s'.q).Perm (s'.q.items.map (·.data)) := by
  obtain ⟨b, -, h⟩ := (Refines.init hs).run hr
  obtain ⟨hsorted, hall⟩ := h.pops hsmall (Nat.le_refl _)
  refine ⟨hsorted, ?_⟩
  rwa [h.queued, map_coe, coe_eq_coe] at hall

theorem popped_in_order_two :
    (pops (β := Nat) compare 2 ⟨[⟨3, none⟩, ⟨5, none⟩], fun _ => none⟩).Pairwise
      (compare · · ≠ .gt) := by
  have hput : Run (prioq_system.restrict Small) (⟨compare, ⟨[], fun _ => none⟩⟩ : State Nat Nat)
      [.put 5 none true] ⟨compare, ⟨[⟨5, none⟩], fun _ => none⟩⟩ :=
    .single ⟨Nat.zero_le _, (fun _ h => nomatch h), rfl⟩
  have hput' : Run (prioq_system.restrict Small) (⟨compare, ⟨[⟨5, none⟩], fun _ => none⟩⟩ : State Nat Nat)
      [.put 3 none true] ⟨compare, ⟨[⟨3, none⟩, ⟨5, none⟩], fun _ => none⟩⟩ :=
    .single ⟨by simp [Small], (fun _ h => nomatch h), rfl⟩
  have hs : Std.TransCmp (compare (α := Nat)) := inferInstance
  exact (popped_in_order ⟨hs, rfl⟩ (hput.append hput') (by simp)).1

/-! ## Section 4: More places -/

/-- `n` objects with the priorities 0, 1, 2, 2, 2 and so on. -/
def many (n : Nat) : State Nat Nat where
  cmp := compareOn (min · 2)
  q := ⟨(List.range n).map fun k => ⟨k, some k⟩, fun p => if p < n then some p else none⟩

theorem many_get {n k : Nat} (h : k < n) : (many n).q.items[k]? = some ⟨k, some k⟩ := by
  simp [many, h]

theorem many_length (n : Nat) : (many n).q.items.length = n := by
  simp [many]

section more
variable {α β : Type} [DecidableEq β] {cmp : α → α → Ordering} {q : Prioq α β} {i : Nat}

theorem shuffle_up_stop (fuel : Nat) (h : i = 0 ∨ q.compare_at cmp ((i - 1) / 2) i ≠ .gt) :
    shuffle_up cmp fuel q i = (q, i) := by
  cases fuel with
  | zero => rfl
  | succ fuel =>
    unfold shuffle_up
    split
    · rfl
    · next h0 => rw [if_pos (h.resolve_left h0)]

theorem shuffle_down_stop (fuel : Nat) (h : q.smallest cmp i = i) :
    shuffle_down cmp fuel q i = (q, i) := by
  cases fuel with
  | zero => rfl
  | succ fuel =>
    unfold shuffle_down
    split
    · rfl
    · rfl

theorem shuffle_down_swap {s : Nat} (fuel : Nat) (hleft : left_child i < q.items.length)
    (hs : q.smallest cmp i = s) (hne : s ≠ i) :
    shuffle_down cmp (fuel + 1) q i = shuffle_down cmp fuel (q.swap i s) s := by
  rw [shuffle_down, if_neg (by omega), hs, if_neg hne]

theorem compare_at_eq {j k : Nat} {x y : PrioqItem α β} (hx : q.items[j]? = some x)
    (hy : q.items[k]? = some y) : q.compare_at cmp j k = cmp x.data y.data := by
  unfold compare_at
  rw [hx, hy]

end more

/-- They have been put one after the other. -/
theorem many_reachable (n : Nat) : Reachable prioq_system (many n) := by
  induction n with
  | zero => exact .init ⟨inferInstanceAs (Std.TransCmp (compareOn _)), rfl⟩
  | succ n ih =>
    have hput : (many n).q.put (many n).cmp n (some n) = (many (n + 1)).q := by
      have hitems : (many n).q.items ++ [⟨n, some n⟩] = (many (n + 1)).q.items := by
        simp [many, List.range_succ]
      have hmem : set_idx (some n) (some n) (many n).q.mem = (many (n + 1)).q.mem := by
        funext p
        unfold set_idx many
        grind
      unfold Prioq.put
      simp only [hitems, many_length, hmem]
      rw [shuffle_up_stop]
      -- the priorities of objects do not decrease
      by_cases h0 : n = 0
      · exact .inl h0
      · right
        rw [compare_at_eq (many_get (show (n - 1) / 2 < n + 1 by omega)) (many_get (by omega))]
        show compare (min ((n - 1) / 2) 2) (min n 2) ≠ .gt
        rw [Nat.compare_ne_gt]
        omega
    apply ih.step (a := .put n (some n) true)
    constructor
    · intro p hp x hx hxp
      cases hp
      have hx' : x ∈ (List.range n).map fun k => (⟨k, some k⟩ : PrioqItem Nat Nat) := hx
      obtain ⟨k, hk, rfl⟩ := List.mem_map.mp hx'
      have hlt := List.mem_range.mp hk
      cases hxp
      omega
    · show many (n + 1) = ⟨(many n).cmp, (many n).q.put (many n).cmp n (some n)⟩
      rw [hput]
      rfl

/-- What reshuffling the last of `2 ^ 31 + 1` objects does: its right child has
    been computed as place 2. -/
theorem many_reshuffle : (many (2 ^ 31 + 1)).q.reshuffle (many (2 ^ 31 + 1)).cmp (2 ^ 31)
    (some (2 ^ 31)) = (many (2 ^ 31 + 1)).q.swap (2 ^ 31) 1 := by
  obtain ⟨s, hs⟩ : ∃ s, s = many (2 ^ 31 + 1) := ⟨_, rfl⟩
  have hget : ∀ k, k < 2 ^ 31 + 1 → s.q.items[k]? = some ⟨k, some k⟩ := by
    intro k hk
    rw [hs]
    exact many_get hk
  have hlen : s.q.items.length = 2 ^ 31 + 1 := by
    rw [hs, many_length]
  have hcmp : s.cmp = compareOn (min · 2) := by
    rw [hs]
    rfl
  have hmem : s.q.mem (2 ^ 31) = some (2 ^ 31) := by
    rw [hs]
    rfl
  rw [← hs]
  have hfind : s.q.find_item (2 ^ 31) (some (2 ^ 31)) = some (2 ^ 31) := by
    unfold find_item
    simp only [hmem]
    rw [hget (2 ^ 31) (by decide)]
    exact if_pos rfl
  -- on the way down there is place 1 first, and nothing below it is smaller
  have hsmallest : s.q.smallest s.cmp (2 ^ 31) = 1 := by
    have h1 : s.q.compare_at s.cmp 1 (2 ^ 31) = .lt := by
      rw [compare_at_eq (hget 1 (by decide)) (hget (2 ^ 31) (by decide)), hcmp]
      decide
    have h2 : s.q.compare_at s.cmp 2 1 = .gt := by
      rw [compare_at_eq (hget 2 (by decide)) (hget 1 (by decide)), hcmp]
      decide
    unfold smallest
    rw [show right_child (2 ^ 31) = 2 by decide, show left_child (2 ^ 31) = 1 by decide]
    simp only [h1, if_true, h2]
    exact if_neg fun h => by cases h.2
  have hswap := HeapOrder.swapped_get (l := s.q.items) (j := 2 ^ 31) (k := 1) (by omega) (by omega)
  have hget' : ∀ k, k < 2 ^ 31 → k ≠ 1 →
      (s.q.swap (2 ^ 31) 1).items[k]? = some ⟨k, some k⟩ := by
    intro k hk hne
    rw [swap_items, hswap, if_neg (by omega), if_neg hne, hget k (by omega)]
  have hget1 : (s.q.swap (2 ^ 31) 1).items[1]? = some ⟨2 ^ 31, some (2 ^ 31)⟩ := by
    rw [swap_items, hswap, if_neg (by decide), if_pos rfl, hget _ (by decide)]
  have hstop : (s.q.swap (2 ^ 31) 1).smallest s.cmp 1 = 1 := by
    have h1 : (s.q.swap (2 ^ 31) 1).compare_at s.cmp 3 1 = .eq := by
      rw [compare_at_eq (hget' 3 (by decide) (by decide)) hget1, hcmp]
      decide
    have h2 : (s.q.swap (2 ^ 31) 1).compare_at s.cmp 4 1 = .eq := by
      rw [compare_at_eq (hget' 4 (by decide) (by decide)) hget1, hcmp]
      decide
    unfold smallest
    rw [show right_child 1 = 4 by decide, show left_child 1 = 3 by decide]
    simp only [h1, h2, reduceCtorEq, if_false, and_false]
  have hup : (s.q.swap (2 ^ 31) 1).compare_at s.cmp ((1 - 1) / 2) 1 ≠ .gt := by
    rw [compare_at_eq (hget' 0 (by decide) (by decide)) hget1, hcmp]
    decide
  have hleft : left_child (2 ^ 31) < s.q.items.length := by
    rw [hlen]
    decide
  unfold Prioq.reshuffle
  rw [hfind]
  show s.q.shuffle s.cmp (2 ^ 31) = _
  unfold shuffle
  rw [hlen, shuffle_down_swap _ hleft hsmallest (by decide), shuffle_down_stop _ hstop]
  show (shuffle_up s.cmp 1 _ 1).1 = _
  rw [shuffle_up_stop _ (.inr hup)]

/-- With more than `2 ^ 31` objects the queue does not stay a heap. -/
theorem many_not_heap : ¬ ∀ s : State Nat Nat, Reachable prioq_system s →
    HeapOrder.Ordered (le s.cmp) s.q.items := by
  intro hall
  have hreach : Reachable prioq_system (⟨(many (2 ^ 31 + 1)).cmp,
      (many (2 ^ 31 + 1)).q.swap (2 ^ 31) 1⟩ : State Nat Nat) := by
    apply (many_reachable (2 ^ 31 + 1)).step (a := .reshuffle (2 ^ 31) (some (2 ^ 31)))
    refine ⟨trivial, ?_⟩
    rw [← many_reshuffle]
    rfl
  have hord := hall _ hreach (2 ^ 31) (by decide)
  have hlen := many_length (2 ^ 31 + 1)
  have hswap := HeapOrder.swapped_get (l := (many (2 ^ 31 + 1)).q.items) (j := 2 ^ 31) (k := 1)
    (by omega) (by omega)
  -- the object with priority 1 is now below one with priority 2
  have hparent : ((many (2 ^ 31 + 1)).q.swap (2 ^ 31) 1).items[HeapOrder.parent (2 ^ 31)]? =
      some ⟨2 ^ 30 - 1, some (2 ^ 30 - 1)⟩ := by
    rw [swap_items, hswap, if_neg (by decide), if_neg (by decide)]
    exact many_get (by decide)
  have hchild : ((many (2 ^ 31 + 1)).q.swap (2 ^ 31) 1).items[2 ^ 31]? = some ⟨1, some 1⟩ := by
    rw [swap_items, hswap, if_pos rfl]
    exact many_get (by decide)
  have hle := hord _ _ hparent hchild
  revert hle
  show ¬ (compareOn (min · 2) (2 ^ 30 - 1) 1 ≠ .gt)
  decide

end Prioq

end SdCompat
