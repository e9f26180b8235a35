import SdCompat.Basic.HashmapSize

/-! # Hash tables (hashmap.c)

    `Hashmap`, `OrderedHashmap` and `Set`: buckets with open addressing, where
    an entry that is far from its initial bucket takes the bucket of one that is
    near. Each bucket has a byte for the distance. The entries of an
    `OrderedHashmap` are also linked with each other, by their indexes.

    The hash function and the comparison of the program are parameters.
-/

namespace SdCompat.Hashmap

open Function

/-- A pointer. -/
abbrev Ptr := UInt64

def NULL : Ptr := 0

/-- `HASH_KEY_SIZE` bytes. -/
abbrev HashKey := UInt64 × UInt64

/-- `struct hash_ops`: the hash of a key, as siphash24 ends it, and whether
    `compare` returns 0. -/
structure HashOps where
  hash : HashKey → Ptr → UInt64
  compare : Ptr → Ptr → Bool

/-! ## Section 1: Buckets -/

/-- `struct ordered_hashmap_entry`. The other types have only the first fields of
    it. -/
structure Entry where
  key : Ptr
  value : Ptr
  iterate_next : Nat
  iterate_previous : Nat
  deriving DecidableEq, Repr

/-- `_IDX_SWAP_BEGIN` -/
def IDX_SWAP_BEGIN : Nat := 4294967292
def IDX_PUT : Nat := IDX_SWAP_BEGIN + 0
def IDX_TMP : Nat := IDX_SWAP_BEGIN + 1
def IDX_FIRST : Nat := IDX_SWAP_BEGIN + 2
def IDX_NIL : Nat := IDX_SWAP_BEGIN + 3

def DIB_RAW_OVERFLOW : UInt8 := 0xfd
def DIB_RAW_REHASH : UInt8 := 0xfe
def DIB_RAW_FREE : UInt8 := 0xff

/-- `DIB_FREE` -/
def DIB_FREE : Nat := 4294967295

/-- `struct HashmapBase`, with the list of an `OrderedHashmap`. The buckets have
    the indexes of `bucket_at_virtual`, so the two swap buckets of the function
    that puts are among them. -/
structure HashmapBase extends Counts where
  /-- the shared key, or the one of the indirect storage -/
  hash_key : HashKey
  idx_lowest_entry : Nat
  bucket : Nat → Entry
  dib : Nat → UInt8
  iterate_list_head : Nat
  iterate_list_tail : Nat

/-- What is in a bucket after `memzero`. -/
def zero_entry : Entry := ⟨NULL, NULL, 0, 0⟩

/-- `n_buckets` -/
def HashmapBase.n (h : HashmapBase) : Nat := h.toCounts.n_buckets.toNat

/-- `hashmap_base_new` -/
def hashmap_base_new (shared_hash_key : HashKey) (type : HashmapType) : HashmapBase where
  type := type
  has_indirect := false
  n_entries := 0
  indirect_n_buckets := 0
  hash_key := shared_hash_key
  idx_lowest_entry := 0
  bucket := fun _ => zero_entry
  dib := fun _ => DIB_RAW_FREE
  iterate_list_head := IDX_NIL
  iterate_list_tail := IDX_NIL

section code
variable (ops : HashOps) (h : HashmapBase)

/-- `bucket_hash` -/
def bucket_hash (p : Ptr) : Nat := (ops.hash h.hash_key p).toNat % h.n

def next_idx (idx : Nat) : Nat := (idx + 1) % h.n

def prev_idx (idx : Nat) : Nat := (h.n + idx - 1) % h.n

def bucket_distance (idx start : Nat) : Nat :=
  if start ≤ idx then idx - start else h.n + idx - start

def bucket_calculate_dib (idx : Nat) (raw_dib : UInt8) : Nat :=
  if raw_dib = DIB_RAW_FREE then DIB_FREE
  else if raw_dib < DIB_RAW_OVERFLOW then raw_dib.toNat
  else bucket_distance h idx (bucket_hash ops h (h.bucket idx).key)

/-- The byte of a distance. -/
def dib_raw (dib : Nat) : UInt8 :=
  if dib ≠ DIB_FREE then (min dib DIB_RAW_OVERFLOW.toNat).toUInt8 else DIB_RAW_FREE

def bucket_set_dib (idx dib : Nat) : HashmapBase :=
  { h with dib := update h.dib idx (dib_raw dib) }

/-- The first bucket that is not free, from this one on. -/
def skip_free_buckets (idx : Nat) : Nat :=
  match (List.range' idx (h.n - idx)).find? fun i => h.dib i ≠ DIB_RAW_FREE with
  | some i => i
  | none => IDX_NIL

def set_bucket (idx : Nat) (e : Entry) : HashmapBase :=
  { h with bucket := update h.bucket idx e }

def bucket_mark_free (idx : Nat) : HashmapBase :=
  bucket_set_dib (set_bucket h idx zero_entry) idx DIB_FREE

end code

/-- `iterate_previous` of an entry is written. -/
def set_previous (h : HashmapBase) (idx v : Nat) : HashmapBase :=
  set_bucket h idx { h.bucket idx with iterate_previous := v }

def set_next (h : HashmapBase) (idx v : Nat) : HashmapBase :=
  set_bucket h idx { h.bucket idx with iterate_next := v }

/-- The entry that has been copied from `src` to `dst` is linked to its
    neighbours. -/
def relink (h : HashmapBase) (src dst : Nat) : HashmapBase :=
  let h := if (h.bucket dst).iterate_next ≠ IDX_NIL then
    set_previous h (h.bucket dst).iterate_next dst else h
  let h := if (h.bucket dst).iterate_previous ≠ IDX_NIL then
    set_next h (h.bucket dst).iterate_previous dst else h
  { h with
      iterate_list_head := if h.iterate_list_head = src then dst else h.iterate_list_head
      iterate_list_tail := if h.iterate_list_tail = src then dst else h.iterate_list_tail }

/-- `bucket_move_entry`, after its assertion. -/
def HashmapBase.move (h : HashmapBase) (src dst : Nat) : HashmapBase :=
  let h := set_bucket h dst (h.bucket src)
  if h.type = .ordered then relink h src dst else h

def bucket_move_entry (h : HashmapBase) (src dst : Nat) : Outcome HashmapBase :=
  if src = dst then .abort else .ok (h.move src dst)

/-! ## Section 2: Removing -/

section remove
variable (ops : HashOps)

/-- The stop bucket: it is free, or its entry is in its initial bucket. -/
def stop_bucket (h : HashmapBase) (left : Nat) : Nat → Nat → Outcome Nat
  | 0, _ => .abort
  | fuel + 1, right =>
    if h.dib right = 0 ∨ h.dib right = DIB_RAW_FREE then .ok right
    else if left = right then .abort
    else stop_bucket h left fuel (next_idx h right)

/-- An entry is taken out of the list. -/
def unlink_entry (h : HashmapBase) (idx : Nat) : HashmapBase :=
  let le := h.bucket idx
  let h := if le.iterate_next ≠ IDX_NIL then
    set_previous h le.iterate_next le.iterate_previous
    else { h with iterate_list_tail := le.iterate_previous }
  let le := h.bucket idx
  if le.iterate_previous ≠ IDX_NIL then set_next h le.iterate_previous le.iterate_next
  else { h with iterate_list_head := le.iterate_next }

/-- The buckets before `right` are shifted one step backwards. -/
def shift_backwards (right : Nat) : Nat → HashmapBase → Nat → Nat → Outcome (HashmapBase × Nat)
  | 0, _, _, _ => .abort
  | fuel + 1, h, prev, left =>
    if left = right then .ok (h, prev)
    else
      let dib := bucket_calculate_dib ops h left (h.dib left)
      if dib = 0 then .abort
      else do
        let h ← bucket_move_entry h left prev
        shift_backwards right fuel (bucket_set_dib h prev (dib - 1)) left (next_idx h left)

/-- `n_entries_dec` -/
def n_entries_dec (h : HashmapBase) : HashmapBase := { h with n_entries := h.n_entries - 1 }

/-- `n_entries_inc` -/
def n_entries_inc (h : HashmapBase) : HashmapBase := { h with n_entries := h.n_entries + 1 }

def base_remove_entry (h : HashmapBase) (idx : Nat) : Outcome HashmapBase :=
  if h.dib idx = DIB_RAW_FREE then .abort
  else do
    let right ← stop_bucket h idx h.n (next_idx h idx)
    let h := if h.type = .ordered then unlink_entry h idx else h
    let (h, prev) ← shift_backwards ops right h.n h idx (next_idx h idx)
    .ok (n_entries_dec (bucket_mark_free h prev))

end remove

/-! ## Section 3: Putting -/

section put
variable (ops : HashOps)

/-- The entry of `IDX_PUT` is swapped for the one of a bucket. -/
def swap_put (h : HashmapBase) (idx : Nat) : Outcome HashmapBase := do
  let h ← bucket_move_entry h idx IDX_TMP
  let h ← bucket_move_entry h IDX_PUT idx
  bucket_move_entry h IDX_TMP IDX_PUT

/-- `idx_lowest_entry` is lowered. -/
def lower_lowest (h : HashmapBase) (idx : Nat) : HashmapBase :=
  if h.has_indirect ∧ idx < h.idx_lowest_entry then { h with idx_lowest_entry := idx } else h

/-- The loop of `hashmap_put_robin_hood`. -/
def put_robin_hood_loop : Nat → HashmapBase → Nat → Nat → Outcome (HashmapBase × Bool)
  | 0, _, _, _ => .abort
  | fuel + 1, h, idx, distance =>
    let raw_dib := h.dib idx
    if raw_dib = DIB_RAW_FREE ∨ raw_dib = DIB_RAW_REHASH then do
      let h ← if raw_dib = DIB_RAW_REHASH then bucket_move_entry h idx IDX_TMP else .ok h
      let h := bucket_set_dib (lower_lowest h idx) idx distance
      let h ← bucket_move_entry h IDX_PUT idx
      if raw_dib = DIB_RAW_REHASH then do
        let h ← bucket_move_entry h IDX_TMP IDX_PUT
        .ok (h, true)
      else .ok (h, false)
    else
      let dib := bucket_calculate_dib ops h idx raw_dib
      if dib < distance then do
        let h ← swap_put (bucket_set_dib h idx distance) idx
        put_robin_hood_loop fuel h (next_idx h idx) (dib + 1)
      else put_robin_hood_loop fuel h (next_idx h idx) (distance + 1)

/-- `hashmap_put_robin_hood`: whether an entry that is still to be rehashed is
    left in `IDX_PUT`. -/
def hashmap_put_robin_hood (h : HashmapBase) (idx : Nat) : Outcome (HashmapBase × Bool) :=
  put_robin_hood_loop ops h.n h idx 0

/-- The key and the value of an entry. -/
def Entry.item (e : Entry) : Ptr × Ptr := (e.key, e.value)

/-- The entry in `IDX_PUT` is rehashed, and each one that another displaces. The
    code counts the entries that are rehashed here. -/
def rehash_put : Nat → HashmapBase → Nat → List (Ptr × Ptr) →
    Outcome (HashmapBase × List (Ptr × Ptr))
  | 0, _, _, _ => .abort
  | fuel + 1, h, optimal_idx, rehashed => do
    let (h', rehash_next) ← hashmap_put_robin_hood ops h optimal_idx
    let rehashed := rehashed ++ [(h.bucket IDX_PUT).item]
    if rehash_next then
      rehash_put fuel h' (bucket_hash ops h' (h'.bucket IDX_PUT).key) rehashed
    else .ok (h', rehashed)

/-- A bucket of the old table is rehashed. -/
def rehash_bucket (r : HashmapBase × List (Ptr × Ptr)) (idx : Nat) :
    Outcome (HashmapBase × List (Ptr × Ptr)) :=
  let (h, rehashed) := r
  if h.dib idx ≠ DIB_RAW_REHASH then .ok (h, rehashed)
  else
    let optimal_idx := bucket_hash ops h (h.bucket idx).key
    if optimal_idx = idx then
      .ok ({ h with dib := update h.dib idx 0 }, rehashed ++ [(h.bucket idx).item])
    else do
      let h ← bucket_move_entry { h with dib := update h.dib idx DIB_RAW_FREE } idx IDX_PUT
      rehash_put ops h.n (set_bucket h idx zero_entry) optimal_idx rehashed

/-- The table in its new storage, with the entries where they were. -/
def grown (h : HashmapBase) (n_buckets : UInt32) (hash_key : HashKey) : HashmapBase :=
  { h with
      has_indirect := true
      indirect_n_buckets := n_buckets
      hash_key := hash_key
      idx_lowest_entry := if h.has_indirect then h.idx_lowest_entry else 0
      dib := fun i => if i < h.n ∧ h.dib i ≠ DIB_RAW_FREE then DIB_RAW_REHASH else DIB_RAW_FREE
      bucket := fun i => if h.n ≤ i ∧ i < n_buckets.toNat then zero_entry else h.bucket i }

/-- `resize_buckets`: whether the table has been resized. `memory` tells whether
    `realloc` succeeds, and `hash_key` is what `get_hash_key` gives. -/
def resize_buckets (h : HashmapBase) (entries_add : UInt32) (memory : Bool) (hash_key : HashKey) :
    Outcome (HashmapBase × Bool) :=
  match resize_buckets_size h.toCounts entries_add with
  | .enomem => .err .ENOMEM
  | .unneeded => .ok (h, false)
  | .grow g =>
    match g.n_buckets h.type with
    -- the shift is undefined
    | none => .abort
    | some n_buckets =>
      if !memory then .err .ENOMEM
      else if (List.range h.n).any fun idx => h.dib idx == DIB_RAW_REHASH then .abort
      else do
        let (h', rehashed) ←
          (List.range h.n).foldlM (rehash_bucket ops) (grown h n_buckets hash_key, [])
        if rehashed.length ≠ h.n_entries.toNat then .abort else .ok (h', true)

/-- A new entry is appended to the list. -/
def link_put (h : HashmapBase) : Outcome HashmapBase :=
  let new_entry := { h.bucket IDX_PUT with
    iterate_next := IDX_NIL
    iterate_previous := h.iterate_list_tail }
  let h := set_bucket h IDX_PUT new_entry
  if h.iterate_list_tail ≠ IDX_NIL ∧ (h.bucket h.iterate_list_tail).iterate_next ≠ IDX_NIL then .abort
  else
    let h := if h.iterate_list_tail ≠ IDX_NIL then set_next h h.iterate_list_tail IDX_PUT else h
    .ok { h with
            iterate_list_tail := IDX_PUT
            iterate_list_head :=
              if h.iterate_list_head = IDX_NIL then IDX_PUT else h.iterate_list_head }

/-- The table, with other swap buckets. -/
def with_swap (h : HashmapBase) (swap : Nat → Entry) : HashmapBase :=
  { h with bucket := fun i => if i < IDX_SWAP_BEGIN then h.bucket i else swap i }

/-- `hashmap_base_put_boldly`, that may resize. -/
def hashmap_base_put_boldly (h : HashmapBase) (idx : Nat) (memory : Bool) (hash_key : HashKey) :
    Outcome HashmapBase :=
  if ¬ idx < h.n then .abort
  else do
    let (h', resized) ← resize_buckets ops h 1 memory hash_key
    -- `resize_buckets` has swap buckets of its own
    let h := with_swap h' h.bucket
    let idx := if resized then bucket_hash ops h (h.bucket IDX_PUT).key else idx
    if ¬ h.n_entries.toNat < h.n then .abort
    else do
      let h ← if h.type = .ordered then link_put h else .ok h
      let (h, rehash_next) ← hashmap_put_robin_hood ops h idx
      if rehash_next then .abort else .ok (n_entries_inc h)

/-- The loop of `base_bucket_scan`. -/
def bucket_scan_loop (h : HashmapBase) (key : Ptr) : Nat → Nat → Nat → Outcome Nat
  | 0, _, _ => .abort
  | fuel + 1, idx, distance =>
    if h.dib idx = DIB_RAW_FREE then .ok IDX_NIL
    else
      let dib := bucket_calculate_dib ops h idx (h.dib idx)
      if dib < distance then .ok IDX_NIL
      else if dib = distance ∧ ops.compare (h.bucket idx).key key then .ok idx
      else bucket_scan_loop h key fuel (next_idx h idx) (distance + 1)

/-- `base_bucket_scan`: the index of the entry with this key, or `IDX_NIL`. -/
def bucket_scan (h : HashmapBase) (idx : Nat) (key : Ptr) : Outcome Nat :=
  if ¬ idx < h.n then .abort else bucket_scan_loop ops h key (h.n + 1) idx 0

/-- The entry to put is placed in `IDX_PUT`. -/
def place_put (h : HashmapBase) (key value : Ptr) : HashmapBase :=
  set_bucket h IDX_PUT { h.bucket IDX_PUT with key := key, value := value }

variable (h : HashmapBase) (key value : Ptr) (memory : Bool) (hash_key : HashKey)

/-- `hashmap_put`: the table, and what is returned. -/
def hashmap_put : Outcome (HashmapBase × Nat) := do
  let hash := bucket_hash ops h key
  let idx ← bucket_scan ops h hash key
  if idx ≠ IDX_NIL then
    if (h.bucket idx).value = value then .ok (h, 0) else .err .EEXIST
  else do
    let h ← hashmap_base_put_boldly ops (place_put h key value) hash memory hash_key
    .ok (h, 1)

/-- `set_put` -/
def set_put : Outcome (HashmapBase × Nat) := do
  let hash := bucket_hash ops h key
  let idx ← bucket_scan ops h hash key
  if idx ≠ IDX_NIL then .ok (h, 0)
  else do
    let h ← hashmap_base_put_boldly ops (place_put h key (h.bucket IDX_PUT).value) hash memory
      hash_key
    .ok (h, 1)

/-- `hashmap_replace` -/
def hashmap_replace : Outcome (HashmapBase × Nat) := do
  let hash := bucket_hash ops h key
  let idx ← bucket_scan ops h hash key
  if idx ≠ IDX_NIL then
    .ok (set_bucket h idx { h.bucket idx with key := key, value := value }, 0)
  else do
    let h ← hashmap_base_put_boldly ops (place_put h key value) hash memory hash_key
    .ok (h, 1)

/-- `entry_value` -/
def entry_value (e : Entry) : Ptr :=
  match h.type with
  | .plain | .ordered => e.value
  | .set => e.key

/-- `_hashmap_remove` -/
def hashmap_remove : Outcome (HashmapBase × Ptr) := do
  let hash := bucket_hash ops h key
  let idx ← bucket_scan ops h hash key
  if idx = IDX_NIL then .ok (h, NULL)
  else do
    let h' ← base_remove_entry ops h idx
    .ok (h', entry_value h (h.bucket idx))

end put

/-! ## Section 4: Iterating -/

/-- `struct Iterator` -/
structure Iterator where
  next_key : Ptr
  idx : Nat
  deriving DecidableEq

def ITERATOR_FIRST : Iterator := ⟨NULL, IDX_FIRST⟩

section iterate
variable (h : HashmapBase) (i : Iterator)

def hashmap_iterate_in_insertion_order : Outcome (Nat × Iterator) :=
  if i.idx = IDX_NIL then .ok (IDX_NIL, { i with idx := IDX_NIL })
  else if i.idx = IDX_FIRST ∧ h.iterate_list_head = IDX_NIL then
    .ok (IDX_NIL, { i with idx := IDX_NIL })
  else do
    let idx ←
      if i.idx = IDX_FIRST then .ok h.iterate_list_head
      else
        let idx := if (h.bucket i.idx).key ≠ i.next_key then prev_idx h i.idx else i.idx
        if (h.bucket idx).key = i.next_key then .ok idx else .abort
    let e := h.bucket idx
    if e.iterate_next ≠ IDX_NIL then
      .ok (idx, ⟨(h.bucket e.iterate_next).key, e.iterate_next⟩)
    else .ok (idx, { i with idx := IDX_NIL })

/-- The iteration may also raise `idx_lowest_entry`. -/
def hashmap_iterate_in_internal_order : Outcome (HashmapBase × Nat × Iterator) :=
  if i.idx = IDX_NIL then .ok (h, IDX_NIL, { i with idx := IDX_NIL })
  else do
    let (h, idx) ←
      if i.idx = IDX_FIRST then
        if h.has_indirect then
          let idx := skip_free_buckets h h.idx_lowest_entry
          .ok ({ h with idx_lowest_entry := idx }, idx)
        else .ok (h, skip_free_buckets h 0)
      else if ¬ 0 < i.idx then .abort
      else
        let idx := if (h.bucket i.idx).key ≠ i.next_key then i.idx - 1 else i.idx
        if (h.bucket idx).key = i.next_key then .ok (h, idx) else .abort
    if idx = IDX_NIL then .ok (h, IDX_NIL, { i with idx := IDX_NIL })
    else
      let next := skip_free_buckets h (idx + 1)
      if next ≠ IDX_NIL then .ok (h, idx, ⟨(h.bucket next).key, next⟩)
      else .ok (h, idx, { i with idx := IDX_NIL })

def hashmap_iterate_entry : Outcome (HashmapBase × Nat × Iterator) :=
  if h.type = .ordered then do
    let (idx, i) ← hashmap_iterate_in_insertion_order h i
    .ok (h, idx, i)
  else hashmap_iterate_in_internal_order h i

end iterate

/-- `_hashmap_first_key_and_value`, that removes: the key and the value. -/
def hashmap_steal_first (ops : HashOps) (h : HashmapBase) : Outcome (HashmapBase × Ptr × Ptr) :=
  if h.n_entries = 0 then .ok (h, NULL, NULL)
  else do
    let (h, idx, _) ← hashmap_iterate_entry h ITERATOR_FIRST
    if idx = IDX_NIL then .ok (h, NULL, NULL)
    else do
      let h' ← base_remove_entry ops h idx
      .ok (h', (h.bucket idx).key, entry_value h (h.bucket idx))

end SdCompat.Hashmap
