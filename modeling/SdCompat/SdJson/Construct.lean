import SdCompat.SdJson.Kept

/-! # Building JSON variants (sd-json.c)

    The constructors for single values, the marks that
    `sd_json_variant_sensitive` puts on variants, and the functions that build
    a variant from another one: `sd_json_variant_append_array`,
    `sd_json_variant_set_field` and `sd_json_variant_merge_object`. A function
    that replaces the variant it is given returns the new one.
-/

namespace SdCompat.Json.Kept

open Call Errno

variable {R : Type}

/-! ## Section 1: Single values -/

/-- `json_variant_new` -/
def json_variant_new (x : Scalar R) : Call Heap (Pointer R) := do
  let block ← alloc
  pure (.scalar (.blank (block, 0)) x)

/-- `sd_json_variant_new_integer` -/
def sd_json_variant_new_integer (i : Int) : Call Heap (Pointer R) :=
  if i = 0 then pure (.magic .zero_integer) else json_variant_new (.integer i)

/-- `sd_json_variant_new_unsigned` -/
def sd_json_variant_new_unsigned (u : Nat) : Call Heap (Pointer R) :=
  if u = 0 then pure (.magic .zero_unsigned) else json_variant_new (.unsigned u)

/-- `sd_json_variant_new_real` -/
def sd_json_variant_new_real [Double R] (d : R) : Call Heap (Pointer R) :=
  match Double.fpclassify d with
  | .nan | .infinite => pure (.magic .null)
  | .zero => pure (.magic .zero_real)
  | .normal => json_variant_new (.real d)

/-- `sd_json_variant_new_boolean` -/
def sd_json_variant_new_boolean (b : Bool) : Pointer R :=
  if b then .magic .true else .magic .false

/-- `sd_json_variant_new_null` -/
def sd_json_variant_new_null : Pointer R := .magic .null

/-- `sd_json_variant_new_string` -/
def sd_json_variant_new_string (s : List UInt8) : Call Heap (Pointer R) :=
  if s = [] then pure (.magic .empty_string)
  else do
    check (utf8_is_valid s) EUCLEAN
    json_variant_new (.string s)

/-- `sd_json_variant_new_array_bytes` -/
def sd_json_variant_new_array_bytes (p : List UInt8) : Call Heap (Pointer R) :=
  if p = [] then pure (.magic .empty_array)
  else do
    let block ← alloc
    pure (.array ⟨(block, 0), false, 1, false, true⟩
      (p.mapIdx fun i b => .scalar (.blank (block, i + 1)) (.unsigned b.toNat)))

/-- The loop of `sd_json_variant_new_array_strv`. -/
def json_variant_put_strings (block : Nat) :
    List (Pointer R) → List (List UInt8) → Call Heap (List (Pointer R))
  | v, [] => pure v
  | v, s :: l => do
    let h := Header.blank (block, v.length + 1)
    if INLINE_STRING_MAX < s.length then do
      let w ← sd_json_variant_new_string s
      json_variant_put_strings block (v ++ [.reference h w]) l
    else do
      check (utf8_is_valid s) EUCLEAN
      json_variant_put_strings block (v ++ [.scalar h (.string s)]) l

/-- `sd_json_variant_new_array_strv` -/
def sd_json_variant_new_array_strv (l : List (List UInt8)) : Call Heap (Pointer R) :=
  if l = [] then pure (.magic .empty_array)
  else do
    let block ← alloc
    let elements ← json_variant_put_strings block [] l
    pure (.array ⟨(block, 0), false, 1, false, true⟩ elements)

/-- A variant that is made of constants. -/
inductive Constant (R : Type) where
  | integer (i : Int)
  | unsigned (u : Nat)
  | real (d : R)
  | boolean (b : Bool)
  | null
  | string (s : List UInt8)
  | const_string (s : List UInt8)
  | array_bytes (p : List UInt8)
  | array_strv (l : List (List UInt8))

/-- The constructor for a constant. The others for strings (`base64`, `hex`
    and so on) end in the one for strings. -/
def Constant.new [Double R] : Constant R → Call Heap (Pointer R)
  | .integer i => sd_json_variant_new_integer i
  | .unsigned u => sd_json_variant_new_unsigned u
  | .real d => sd_json_variant_new_real d
  | .boolean b => pure (sd_json_variant_new_boolean b)
  | .null => pure sd_json_variant_new_null
  | .string s => sd_json_variant_new_string s
  | .const_string s => pure (.const_string s)
  | .array_bytes p => sd_json_variant_new_array_bytes p
  | .array_strv l => sd_json_variant_new_array_strv l

/-! ## Section 2: Sensitive variants -/

section build
variable [Double R] [DoubleCast R]

/-- Where the flag `sensitive` of a variant is, if it has one. -/
def Pointer.flag (v : Pointer R) : Option Address :=
  (json_variant_formalize v).header?.map (·.address)

/-- `sd_json_variant_is_sensitive` -/
def sd_json_variant_is_sensitive (s : Heap) (v : Pointer R) : Bool :=
  match v.flag with
  | none => false     -- a magic variant or a constant string
  | some a => s.sensitive a

/-- `sd_json_variant_sensitive` -/
def sd_json_variant_sensitive (v : Pointer R) : Call Heap PUnit :=
  match v.flag with
  | none => pure ⟨⟩
  | some a => modify fun s => { s with sensitive := Function.update s.sensitive a true }

/-- `json_variant_propagate_sensitive` -/
def json_variant_propagate_sensitive (src dst : Pointer R) : Call Heap PUnit := do
  let s ← get
  if sd_json_variant_is_sensitive s src then sd_json_variant_sensitive dst else pure ⟨⟩

/-- `json_variant_copy`: the simple types literally, and the larger ones by
    reference. -/
def json_variant_copy (v : Pointer R) : Call Heap (Pointer R) :=
  let by_value (x : Scalar R) : Call Heap (Pointer R) := do
    let c ← json_variant_new x
    json_variant_propagate_sensitive v c
    pure c
  let by_reference : Call Heap (Pointer R) := do
    let block ← alloc
    pure (.reference (.blank (block, 0)) (json_variant_formalize v))
  match sd_json_variant_type v with
  | some .integer => by_value (.integer (sd_json_variant_integer v))
  | some .unsigned => by_value (.unsigned (sd_json_variant_unsigned v))
  | some .real => by_value (.real (sd_json_variant_real v))
  | some .boolean => by_value (.boolean (sd_json_variant_boolean v))
  | some .null => by_value .null
  | some .string =>
    match sd_json_variant_string v with
    | some s => if s.length ≤ INLINE_STRING_MAX then by_value (.string s) else by_reference
    | none => abort
  | _ => by_reference

/-- The variant with a source, or without one. -/
def Pointer.with_located (located : Bool) : Pointer R → Pointer R
  | .scalar h x => .scalar { h with located := located } x
  | .array h l => .array { h with located := located } l
  | .object h l => .object { h with located := located } l
  | .reference h v => .reference { h with located := located } v
  | v => v

/-- `json_variant_set_source`: the variant then. `located` is whether there is a
    source, a line or a column, `same` whether they are those of the variant, and
    `single` what `json_single_ref` gives. -/
def json_variant_set_source (located same single : Bool) (v : Pointer R) : Call Heap (Pointer R) :=
  match v with
  | .null => pure .null
  | v =>
    if !json_variant_is_regular v && !located then pure v
    else if json_variant_is_regular v && same then pure v
    else if json_variant_is_regular v && single then pure (v.with_located located)
    else do
      let w ← json_variant_copy v
      pure (w.with_located located)

/-! ## Section 3: Looking for a key -/

/-- The keys with their values. -/
def pairs_of : List (Pointer R) → List (Pointer R × Pointer R)
  | k :: v :: l => (k, v) :: pairs_of l
  | _ => []

/-- Keys and values in turn. -/
def of_pairs (l : List (Pointer R × Pointer R)) : List (Pointer R) :=
  l.flatMap fun p => [p.1, p.2]

/-- What `sd_json_variant_by_key_full` gives: `ret_key` is none where `*ret_key` is
    not written. -/
structure ByKey (R : Type) where
  value : Pointer R
  ret_key : Option (Pointer R)

/-- `goto not_found`, or `goto mismatch`. -/
def ByKey.not_found : ByKey R := ⟨.null, some .null⟩

/-- A key and its value have been found. -/
def ByKey.found (p : Pointer R × Pointer R) : ByKey R :=
  ⟨json_variant_conservative_formalize p.2, some (json_variant_conservative_formalize p.1)⟩

/-- The bisection of `sd_json_variant_by_key_full`, between the members `a` and
    `b`. -/
def by_key_bisect (l : List (Pointer R × Pointer R)) (key : List UInt8) (a b : Nat) :
    Outcome (ByKey R) :=
  if a < b then
    match l[(a + b) / 2]? with
    | none => .abort     -- beyond the elements
    | some p =>
      match sd_json_variant_string (json_variant_dereference p.1) with
      | none => .abort
      | some f =>
        if key = f then .ok (.found p)
        else if strcmp_lt key f then by_key_bisect l key a ((a + b) / 2)
        else by_key_bisect l key ((a + b) / 2 + 1) b
  else .ok .not_found
termination_by b - a

/-- The linear search. -/
def by_key_linear (l : List (Pointer R × Pointer R)) (key : List UInt8) : ByKey R :=
  match l.find? fun p => sd_json_variant_is_string p.1 && sd_json_variant_string p.1 == some key with
  | some p => .found p
  | none => .not_found

/-- `sd_json_variant_by_key_full`, of a key that is not `NULL`. -/
def sd_json_variant_by_key_full (v : Pointer R) (key : List UInt8) : Outcome (ByKey R) :=
  match v with
  | .object h l =>
    if h.sorted then by_key_bisect (pairs_of l) key 0 (l.length / 2)
    else .ok (by_key_linear (pairs_of l) key)
  | .reference _ target =>
    if sd_json_variant_type target = some .object then do
      -- `sd_json_variant_by_key`: no `ret_key` is passed on
      let r ← sd_json_variant_by_key_full target key
      .ok { r with ret_key := none }
    else .ok .not_found
  | _ => .ok .not_found

/-- `sd_json_variant_by_key` -/
def sd_json_variant_by_key (v : Pointer R) (key : List UInt8) : Outcome (Pointer R) := do
  let r ← sd_json_variant_by_key_full v key
  .ok r.value

/-! ## Section 4: A variant that is replaced -/

/-- `sd_json_variant**`: a variable with a variant, and all else. -/
structure Slot (R : Type) where
  heap : Heap
  v : Pointer R

/-- A call that does not look at the variable. -/
def on_heap {α : Type} (x : Call Heap α) : Call (Slot R) α := fun s =>
  ((x s.heap).1, { s with heap := (x s.heap).2 })

/-- `json_variant_unref_and_replace` -/
def json_variant_unref_and_replace (w : Pointer R) : Call (Slot R) PUnit :=
  modify fun s => { s with v := w }

/-- `sd_json_variant_is_blank_object` -/
def sd_json_variant_is_blank_object : Pointer R → Bool
  | .null => true
  | v => sd_json_variant_is_null v || (sd_json_variant_is_object v && sd_json_variant_elements v = 0)

/-- `!*v || sd_json_variant_is_null(*v)` -/
def is_null_or_unset : Pointer R → Bool
  | .null => true
  | v => sd_json_variant_is_null v

/-- `sd_json_variant_append_array`; `sole` is whether the caller holds the only
    reference to `*v`, also while one to `element` is held. -/
def sd_json_variant_append_array (sole : Bool) (element : Pointer R) : Call (Slot R) Nat := do
  let s ← get
  let v := s.v
  match element with
  | .null => fail EINVAL
  | element =>
    if !is_null_or_unset v && !sd_json_variant_is_array v then fail EINVAL
    else if is_null_or_unset v || sd_json_variant_elements v = 0 then do
      let nv ← on_heap (sd_json_variant_new_array [element])
      on_heap (json_variant_propagate_sensitive v nv)
      json_variant_unref_and_replace nv
      pure 0
    else if sole then do
      -- the allocation may be moved, but is still the same variant
      let _ ← on_heap alloc
      match v with
      | .array h l => do
        let w ← lift
          (json_variant_array_put_element h.address.1 ⟨l, h.depth, h.normalized⟩ element)
        json_variant_unref_and_replace
          (.array { h with depth := w.depth, normalized := w.normalized } w.elements)
        pure 0
      | _ => abort
    else do
      let _ ← on_heap alloc
      let nv ← on_heap (sd_json_variant_new_array (v.children ++ [element]))
      on_heap (json_variant_propagate_sensitive v nv)
      json_variant_unref_and_replace nv
      pure 0

/-- An array of pointers, that has been allocated, and the elements written so
    far. -/
structure Scratch (R : Type) where
  size : Nat
  elements : List (Pointer R)

/-- `array[k++] = p`; there must be space. -/
def Scratch.put (a : Scratch R) (p : Pointer R) : Outcome (Scratch R) :=
  if a.elements.length < a.size then .ok { a with elements := a.elements ++ [p] } else .abort

/-- More than one. -/
def Scratch.put_all (a : Scratch R) : List (Pointer R) → Outcome (Scratch R)
  | [] => .ok a
  | p :: l => do
    let a ← a.put p
    a.put_all l

/-- `new(sd_json_variant*, size)` -/
def new_scratch (size : Nat) : Call Heap (Scratch R) := do
  let _ ← alloc
  pure ⟨size, []⟩

/-- The array with the elements before `i`, that is allocated when the first key
    is hit. -/
def first_hit (v : Pointer R) (size i : Nat) : Option (Scratch R) → Call Heap (Scratch R)
  | some array => pure array
  | none => do
    let array ← new_scratch size
    lift (array.put_all (v.children.take i))

/-- The loop of `sd_json_variant_filter`, and, with a list of one key, of
    `sd_json_variant_set_field`: how many keys are hit, and the array with the other
    keys and their values, if one is. -/
def remove_keys (v : Pointer R) (size : Nat) (keys : List (List UInt8)) (i n : Nat)
    (array : Option (Scratch R)) : Call Heap (Nat × Option (Scratch R)) :=
  if i < sd_json_variant_elements v then do
    let p := sd_json_variant_by_index v i
    check (sd_json_variant_is_string p) EINVAL
    if (sd_json_variant_string p).any keys.contains then do
      let array ← first_hit v size i array
      remove_keys v size keys (i + 2) (n + 1) (some array)
    else match array with
      | none => remove_keys v size keys (i + 2) n none
      | some array => do
        let array ← lift (array.put_all [p, sd_json_variant_by_index v (i + 1)])
        remove_keys v size keys (i + 2) n (some array)
  else pure (n, array)
termination_by sd_json_variant_elements v - i

/-- `sd_json_variant_filter` -/
def sd_json_variant_filter (to_remove : List (List UInt8)) : Call (Slot R) Nat := do
  let s ← get
  let v := s.v
  if sd_json_variant_is_blank_object v then pure 0
  else do
    check (sd_json_variant_is_object v) EINVAL
    if to_remove = [] then pure 0
    else do
      let (n, array) ← on_heap
        (remove_keys v (sd_json_variant_elements v - 2) to_remove 0 0 none)
      match array with
      | none => pure 0     -- nothing to remove
      | some array => do
        let w ← on_heap (sd_json_variant_new_object array.elements)
        on_heap (json_variant_propagate_sensitive v w)
        json_variant_unref_and_replace w
        pure n

/-- The array that `sd_json_variant_set_field` makes, before the field is added. -/
def other_fields (v : Pointer R) (field : List UInt8) : Call Heap (Scratch R) :=
  if sd_json_variant_is_blank_object v then new_scratch 2
  else do
    check (sd_json_variant_is_object v) EINVAL
    let (_, array) ← remove_keys v (sd_json_variant_elements v) [field] 0 0 none
    match array with
    | some array => pure array
    | none => do
      let array ← new_scratch (sd_json_variant_elements v + 2)
      lift (array.put_all v.children)

/-- `sd_json_variant_set_field` -/
def sd_json_variant_set_field (field : List UInt8) (value : Pointer R) : Call (Slot R) Nat := do
  let s ← get
  let v := s.v
  let array ← on_heap (other_fields v field)
  let field_variant ← on_heap (sd_json_variant_new_string field)
  let array ← lift (array.put_all [field_variant, value])
  let w ← on_heap (sd_json_variant_new_object array.elements)
  on_heap (json_variant_propagate_sensitive v w)
  json_variant_unref_and_replace w
  pure 1

/-- The first loop of `sd_json_variant_merge_object`: what is kept of the first
    variant. -/
def keep_fields (m : Pointer R) :
    List (Pointer R × Pointer R) → Scratch R → Outcome (Scratch R)
  | [], array => .ok array
  | p :: l, array =>
    match sd_json_variant_is_string p.1, sd_json_variant_string p.1 with
    | true, some key => do
      let found ← sd_json_variant_by_key m key
      match found with
      | .null => do
        let array ← array.put_all [p.1, p.2]
        keep_fields m l array
      | _ => keep_fields m l array     -- skip if exists in second variant
    | true, none => .abort
    | false, _ => .err EINVAL

/-- `sd_json_variant_merge_object`; the sizes do not overflow. -/
def sd_json_variant_merge_object (m : Pointer R) : Call (Slot R) Nat := do
  let s ← get
  let v := s.v
  let m := json_variant_dereference m
  let v_blank := sd_json_variant_is_blank_object v
  let m_blank := sd_json_variant_is_blank_object m
  check (v_blank || sd_json_variant_is_object v) EINVAL
  check (m_blank || sd_json_variant_is_object m) EINVAL
  if m_blank then pure 0     -- nothing to do
  else if v_blank then do
    json_variant_unref_and_replace m
    pure 1
  else do
    let array ← on_heap
      (new_scratch (sd_json_variant_elements v + sd_json_variant_elements m))
    let array ← lift (keep_fields m (pairs_of v.children) array)
    let array ← lift (array.put_all m.children)
    let w ← on_heap (sd_json_variant_new_object array.elements)
    on_heap (json_variant_propagate_sensitive v w)
    on_heap (json_variant_propagate_sensitive m w)
    json_variant_unref_and_replace w
    pure 1

/-- The variables of a caller: `NULL` is in one that is not set. -/
structure Variables (R : Type) where
  heap : Heap
  vars : Nat → Pointer R

end build

end SdCompat.Json.Kept
