import Mathlib.Order.Basic
import SdCompat.Basic.Common

/-! # Priority queues (prioq.c)

    A heap of objects, each with an optional pointer to an index that is kept
    up to date. The order is a comparison function, which the callers choose.
    Places are of the C type `unsigned`, in which the children of a place are
    computed.
-/

namespace SdCompat

/-- `struct prioq_item`: an object, and the address of its index, if it has
    one. -/
structure PrioqItem (α β : Type) where
  data : α
  idx : Option β
  deriving DecidableEq, Repr

/-- `struct Prioq`, but for its comparison function, with what the index
    pointers point at; `none` is `PRIOQ_IDX_NULL`. -/
structure Prioq (α β : Type) where
  items : List (PrioqItem α β)
  mem : β → Option Nat

namespace Prioq

variable {α β : Type} [DecidableEq α] [DecidableEq β]

/-- `*idx = i`, if there is an index. -/
def set_idx (idx : Option β) (i : Option Nat) (mem : β → Option Nat) : β → Option Nat :=
  fun p => if idx = some p then i else mem p

/-- `swap` -/
def swap (q : Prioq α β) (j k : Nat) : Prioq α β :=
  match q.items[j]?, q.items[k]? with
  | some a, some b =>
    { items := (q.items.set j b).set k a
      mem := set_idx a.idx (some k) (set_idx b.idx (some j) q.mem) }
  | _, _ => q

variable (cmp : α → α → Ordering)

/-- `compare_func` of the objects in these places, where there are any. -/
def compare_at (q : Prioq α β) (j k : Nat) : Ordering :=
  match q.items[j]?, q.items[k]? with
  | some a, some b => cmp a.data b.data
  | _, _ => .eq

/-- `shuffle_up`, and where it ends. Every step at least halves the place. -/
def shuffle_up : Nat → Prioq α β → Nat → Prioq α β × Nat
  | 0, q, i => (q, i)
  | fuel + 1, q, i =>
    if i = 0 then (q, i)
    else if q.compare_at cmp ((i - 1) / 2) i ≠ .gt then (q, i)
    else shuffle_up fuel (q.swap i ((i - 1) / 2)) ((i - 1) / 2)

/-- `(idx+1)*2` -/
def right_child (i : Nat) : Nat := (i + 1) * 2 % 2 ^ 32

/-- `(idx+1)*2 - 1` -/
def left_child (i : Nat) : Nat := (right_child i + (2 ^ 32 - 1)) % 2 ^ 32

/-- The smallest of an object and its children. -/
def smallest (q : Prioq α β) (i : Nat) : Nat :=
  let k := right_child i
  let j := left_child i
  let s := if q.compare_at cmp j i = .lt then j else i
  if k < q.items.length ∧ q.compare_at cmp k s = .lt then k else s

/-- `shuffle_down`, and where it ends. -/
def shuffle_down : Nat → Prioq α β → Nat → Prioq α β × Nat
  | 0, q, i => (q, i)
  | fuel + 1, q, i =>
    if q.items.length ≤ left_child i then (q, i)
    else if q.smallest cmp i = i then (q, i)
    else shuffle_down fuel (q.swap i (q.smallest cmp i)) (q.smallest cmp i)

/-- The two in a row, as they are called. A way down visits every place at
    most once, as long as the places of the children can be computed. -/
def shuffle (q : Prioq α β) (i : Nat) : Prioq α β :=
  let (q, k) := shuffle_down cmp q.items.length q i
  (shuffle_up cmp k q k).1

/-- `prioq_put`, where there is memory for it. -/
def put (q : Prioq α β) (a : α) (idx : Option β) : Prioq α β :=
  let k := q.items.length
  (shuffle_up cmp k ⟨q.items ++ [⟨a, idx⟩], set_idx idx (some k) q.mem⟩ k).1

/-- `remove_item` -/
def remove_item (q : Prioq α β) (i : Nat) : Prioq α β :=
  match q.items[i]?, q.items.getLast? with
  | some a, some l =>
    let mem := set_idx a.idx none q.mem
    if i = q.items.length - 1 then ⟨q.items.dropLast, mem⟩
    else shuffle cmp ⟨(q.items.set i l).dropLast, set_idx l.idx (some i) mem⟩ i
  | _, _ => q

/-- `find_item`: with an index only the place that it says, otherwise the
    first place with this object. -/
def find_item (q : Prioq α β) (a : α) (idx : Option β) : Option Nat :=
  match idx with
  | some p =>
    match q.mem p with
    | none => none
    | some i => if q.items[i]?.map (·.data) = some a then some i else none
  | none => q.items.findIdx? fun item => item.data = a

/-- `prioq_remove`, and whether the object was there. -/
def remove (q : Prioq α β) (a : α) (idx : Option β) : Prioq α β × Bool :=
  match q.find_item a idx with
  | none => (q, false)
  | some i => (q.remove_item cmp i, true)

/-- `prioq_reshuffle` -/
def reshuffle (q : Prioq α β) (a : α) (idx : Option β) : Prioq α β :=
  match q.find_item a idx with
  | none => q
  | some i => q.shuffle cmp i

/-- `prioq_peek` -/
def peek (q : Prioq α β) : Option α := q.items.head?.map (·.data)

/-- `prioq_pop` -/
def pop (q : Prioq α β) : Prioq α β × Option α :=
  match q.items.head? with
  | none => (q, none)
  | some a => (q.remove_item cmp 0, some a.data)

end Prioq

end SdCompat
