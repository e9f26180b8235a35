import SdCompat.Basic.Call
import SdCompat.SdJson.Variant

/-! # How JSON variants are kept (sd-json.c)

    A pointer to a variant as the code has it: `NULL`, a magic pointer, a
    constant string, or a regular variant, with the elements of an array or an
    object embedded behind it and longer strings, arrays and objects in other
    variants by reference. What a variant holds is never changed while others
    can see it, so a pointer is the tree of what can be reached from it. The
    marks on regular variants are changed, and are looked up by address.

    Of the source, line and column of a variant only whether there are any
    matters here. Reference counts are left out: where the code asks whether it
    holds the only reference, the answer is a parameter.
-/

namespace SdCompat.Json.Kept

open Double

variable {R : Type}

/-! ## Section 1: Pointers -/

/-- `INLINE_STRING_MAX` -/
def INLINE_STRING_MAX : Nat := 7

/-- `sd_json_variant_type_t` -/
inductive VariantType where
  | string | integer | unsigned | real | number | boolean | array | object | null
  deriving DecidableEq, Repr

/-- The pointers `JSON_VARIANT_MAGIC_TRUE` and so on. -/
inductive Magic where
  | true | false | null | zero_integer | zero_unsigned | zero_real
  | empty_string | empty_array | empty_object
  deriving DecidableEq, Repr

/-- Where a regular variant is: the allocation, and the place in it, which is
    0 for the variant itself and `i + 1` for its element `i`. -/
abbrev Address := Nat × Nat

/-- What a regular variant has beside its value, as far as it does not change:
    whether `source`, `line` or `column` are set, the depth, and two flags. -/
structure Header where
  address : Address
  located : Bool
  depth : Nat
  sorted : Bool
  normalized : Bool
  deriving DecidableEq, Repr

/-- All that is not initialized is zero. -/
def Header.blank (address : Address) : Header where
  address := address
  located := false
  depth := 0
  sorted := false
  normalized := false

/-- A value that is stored in place. -/
inductive Scalar (R : Type) where
  | null
  | boolean (b : Bool)
  | integer (i : Int)
  | unsigned (u : Nat)
  | real (x : R)
  | string (s : List UInt8)

/-- `sd_json_variant*` -/
inductive Pointer (R : Type) where
  | null
  | magic (m : Magic)
  | const_string (s : List UInt8)
  | scalar (h : Header) (x : Scalar R)
  | array (h : Header) (elements : List (Pointer R))
  | object (h : Header) (elements : List (Pointer R))
  | reference (h : Header) (target : Pointer R)

/-! ## Section 2: Looking at a variant -/

/-- `json_variant_is_regular` -/
def json_variant_is_regular : Pointer R → Bool
  | .null | .magic _ | .const_string _ => false
  | _ => true

/-- The header of a regular variant. -/
def Pointer.header? : Pointer R → Option Header
  | .null | .magic _ | .const_string _ => none
  | .scalar h _ | .array h _ | .object h _ | .reference h _ => some h

/-- `json_variant_dereference` -/
def json_variant_dereference : Pointer R → Pointer R
  | .reference _ v => json_variant_dereference v
  | v => v

def Magic.type : Magic → VariantType
  | .true | .false => .boolean
  | .null => .null
  | .zero_integer => .integer
  | .zero_unsigned => .unsigned
  | .zero_real => .real
  | .empty_string => .string
  | .empty_array => .array
  | .empty_object => .object

def Scalar.type : Scalar R → VariantType
  | .null => .null
  | .boolean _ => .boolean
  | .integer _ => .integer
  | .unsigned _ => .unsigned
  | .real _ => .real
  | .string _ => .string

/-- `sd_json_variant_type`; a reference has the type of what it refers to. -/
def sd_json_variant_type : Pointer R → Option VariantType
  | .null => none
  | .magic m => some m.type
  | .const_string _ => some .string
  | .scalar _ x => some x.type
  | .array _ _ => some .array
  | .object _ _ => some .object
  | .reference _ v => sd_json_variant_type v

/-- `sd_json_variant_string` -/
def sd_json_variant_string : Pointer R → Option (List UInt8)
  | .magic .empty_string => some []
  | .const_string s => some s
  | .scalar _ (.string s) => some s
  | .reference _ v => sd_json_variant_string v
  | _ => none

/-- `sd_json_variant_boolean` -/
def sd_json_variant_boolean : Pointer R → Bool
  | .magic .true => true
  | .scalar _ (.boolean b) => b
  | .reference _ v => sd_json_variant_boolean v
  | _ => false

section double
variable [Double R] [DoubleCast R]

/-- `sd_json_variant_integer` -/
def sd_json_variant_integer : Pointer R → Int
  | .scalar _ (.integer i) => i
  | .scalar _ (.unsigned u) => if (u : Int) ≤ INT64_MAX then u else 0
  | .scalar _ (.real x) =>
    let converted := DoubleCast.to_int64 x
    if fp_equal (DoubleCast.of_int64 converted) x then converted else 0
  | .reference _ v => sd_json_variant_integer v
  | _ => 0

/-- `sd_json_variant_unsigned` -/
def sd_json_variant_unsigned : Pointer R → Nat
  | .scalar _ (.integer i) => if 0 ≤ i then i.toNat else 0
  | .scalar _ (.unsigned u) => u
  | .scalar _ (.real x) =>
    let converted := DoubleCast.to_uint64 x
    if fp_equal (ofNat converted) x then converted else 0
  | .reference _ v => sd_json_variant_unsigned v
  | _ => 0

/-- `sd_json_variant_real` -/
def sd_json_variant_real : Pointer R → R
  | .scalar _ (.real x) => x
  | .scalar _ (.integer i) =>
    let converted : R := DoubleCast.of_int64 i
    if DoubleCast.to_int64 converted = i then converted else ofNat 0
  | .scalar _ (.unsigned u) =>
    let converted : R := ofNat u
    if DoubleCast.to_uint64 converted = u then converted else ofNat 0
  | .reference _ v => sd_json_variant_real v
  | _ => ofNat 0

/-- Whether an integer may be taken for another type of number. -/
def Scalar.has_number_type : Scalar R → VariantType → Bool
  | .integer i, .unsigned => 0 ≤ i
  | .unsigned u, .integer => (u : Int) ≤ INT64_MAX
  | .integer i, .real => DoubleCast.to_int64 (DoubleCast.of_int64 i : R) = i
  | .unsigned u, .real => DoubleCast.to_uint64 (ofNat u : R) = u
  | .real x, .integer => fp_equal (DoubleCast.of_int64 (DoubleCast.to_int64 x)) x
  | .real x, .unsigned => fp_equal (ofNat (DoubleCast.to_uint64 x)) x
  | .integer _, .number | .unsigned _, .number | .real _, .number => true
  | _, _ => false

/-- `sd_json_variant_has_type` -/
def sd_json_variant_has_type (v : Pointer R) (type : VariantType) : Bool :=
  match json_variant_dereference v with
  | .null => false
  | v =>
    if sd_json_variant_type v = some type then true
    else match v with
      | .magic .zero_integer | .magic .zero_unsigned | .magic .zero_real =>
        type = .integer || type = .unsigned || type = .real || type = .number
      | .scalar _ x => x.has_number_type type
      | _ => false

/-- `sd_json_variant_is_string` -/
def sd_json_variant_is_string (v : Pointer R) : Bool := sd_json_variant_has_type v .string

/-- `sd_json_variant_is_array` -/
def sd_json_variant_is_array (v : Pointer R) : Bool := sd_json_variant_has_type v .array

/-- `sd_json_variant_is_object` -/
def sd_json_variant_is_object (v : Pointer R) : Bool := sd_json_variant_has_type v .object

/-- `sd_json_variant_is_null` -/
def sd_json_variant_is_null (v : Pointer R) : Bool := sd_json_variant_has_type v .null

end double

/-- The elements of an array, or the keys and values of an object. -/
def Pointer.elements : Pointer R → List (Pointer R)
  | .array _ l | .object _ l => l
  | .reference _ v => v.elements
  | _ => []

/-- `sd_json_variant_elements` -/
def sd_json_variant_elements (v : Pointer R) : Nat := v.elements.length

section formal
variable [Double R] [DoubleCast R]

/-- `json_variant_formalize` -/
def json_variant_formalize (v : Pointer R) : Pointer R :=
  let v := json_variant_dereference v
  match sd_json_variant_type v with
  | some .boolean => if sd_json_variant_boolean v then .magic .true else .magic .false
  | some .null => .magic .null
  | some .integer => if sd_json_variant_integer v = 0 then .magic .zero_integer else v
  | some .unsigned => if sd_json_variant_unsigned v = 0 then .magic .zero_unsigned else v
  | some .real => if iszero_safe (sd_json_variant_real v) then .magic .zero_real else v
  | some .string => if sd_json_variant_string v = some [] then .magic .empty_string else v
  | some .array => if sd_json_variant_elements v = 0 then .magic .empty_array else v
  | some .object => if sd_json_variant_elements v = 0 then .magic .empty_object else v
  | _ => v

/-- `json_variant_conservative_formalize` -/
def json_variant_conservative_formalize (v : Pointer R) : Pointer R :=
  match v.header? with
  | none => v
  | some h => if h.located then v else json_variant_formalize v

/-- What `sd_json_variant_by_index` gives for one index after another. -/
def Pointer.children (v : Pointer R) : List (Pointer R) :=
  v.elements.map json_variant_conservative_formalize

/-- `sd_json_variant_by_index` -/
def sd_json_variant_by_index (v : Pointer R) (index : Nat) : Pointer R :=
  v.children.getD index .null

end formal

/-! ## Section 3: Recursion over what is in a variant -/

namespace Pointer

mutual
/-- A variant is larger than what is in it. -/
def size : Pointer R → Nat
  | null | magic _ | const_string _ => 1
  | scalar _ _ => 1
  | array _ l => size_list l + 1
  | object _ l => size_list l + 1
  | reference _ v => v.size + 1

def size_list : List (Pointer R) → Nat
  | [] => 0
  | v :: l => v.size + 1 + size_list l
end

@[simp] theorem size_list_nil : size_list ([] : List (Pointer R)) = 0 := by
  rw [size_list]

@[simp] theorem size_list_cons (v : Pointer R) (l : List (Pointer R)) :
    size_list (v :: l) = v.size + 1 + size_list l := by
  rw [size_list]

theorem size_pos (v : Pointer R) : 0 < v.size := by
  cases v <;> simp [size]

theorem size_dereference (v : Pointer R) : (json_variant_dereference v).size ≤ v.size := by
  induction v using json_variant_dereference.induct with
  | case1 h v ih =>
    rw [json_variant_dereference, size]
    omega
  | case2 v h => exact Nat.le_of_eq (congrArg size (json_variant_dereference.eq_2 v h))

section double
variable [Double R] [DoubleCast R]

/-- Formalizing gives a magic pointer or the variant itself. -/
theorem formalize_cases (v : Pointer R) : (∃ m, json_variant_formalize v = magic m) ∨
      json_variant_formalize v = json_variant_dereference v := by
  unfold json_variant_formalize
  dsimp only
  split <;> try split
  all_goals first
    | exact .inr rfl
    | exact .inl ⟨_, rfl⟩

theorem size_formalize (v : Pointer R) : (json_variant_formalize v).size ≤ v.size := by
  rcases formalize_cases v with ⟨m, h⟩ | h
  · rw [h]
    exact size_pos v
  · rw [h]
    exact size_dereference v

theorem size_conservative_formalize (v : Pointer R) :
    (json_variant_conservative_formalize v).size ≤ v.size := by
  unfold json_variant_conservative_formalize
  split
  · exact Nat.le_refl _
  · split
    · exact Nat.le_refl _
    · exact size_formalize v

theorem size_list_map (l : List (Pointer R)) :
    size_list (l.map json_variant_conservative_formalize) ≤ size_list l := by
  induction l with
  | nil => exact Nat.le_refl _
  | cons v l ih =>
    have := size_conservative_formalize v
    rw [List.map_cons, size_list_cons, size_list_cons]
    omega

omit [Double R] [DoubleCast R] in
theorem size_elements (v : Pointer R) : size_list v.elements < v.size := by
  induction v using elements.induct with
  | case1 h l => simp [elements, size]
  | case2 h l => simp [elements, size]
  | case3 h v ih =>
    rw [elements, size]
    omega
  | case4 v h1 h2 h3 =>
    rw [elements.eq_4 v h1 h2 h3]
    exact size_pos v

/-- What is in a variant is smaller. -/
theorem size_children (v : Pointer R) : size_list v.children < v.size :=
  Nat.lt_of_le_of_lt (size_list_map _) (size_elements v)

end double

theorem size_lt_of_mem {v : Pointer R} {l : List (Pointer R)} (h : v ∈ l) : v.size < size_list l := by
  induction l with
  | nil => cases h
  | cons w l ih =>
    rw [size_list_cons]
    rcases List.mem_cons.mp h with rfl | h
    · omega
    · have := ih h
      omega

/-- **Induction**: what holds of a variant whenever it holds of all that is in
    it, holds of every variant. -/
theorem children_ind [Double R] [DoubleCast R] {P : Pointer R → Prop}
    (h : ∀ v, (∀ w ∈ v.children, P w) → P v) (v : Pointer R) : P v := by
  generalize hn : v.size = n
  induction n using Nat.strongRecOn generalizing v with
  | ind n ih =>
    subst hn
    refine h v fun w hw => ih _ ?_ w rfl
    exact Nat.lt_trans (size_lt_of_mem hw) (size_children v)

end Pointer

/-! ## Section 4: The constructors -/

/-- What the constructors change: the number of allocations made so far, and
    the marks on variants. Which of the allocations succeed is given. -/
structure Heap where
  next : Nat
  mem : Nat → Bool
  sensitive : Address → Bool
  recursive_sensitive : Address → Bool
  is_marked : Address → Bool

/-- One allocation. -/
def alloc : Call Heap Nat := fun s =>
  (if s.mem s.next then .ok s.next else .err Errno.ENOMEM, { s with next := s.next + 1 })

/-- `json_variant_depth` -/
def json_variant_depth (v : Pointer R) : Nat :=
  match (json_variant_dereference v).header? with
  | some h => h.depth
  | none => 0

/-- The depth of a variant, once an element of depth `d` is in it. -/
def raise_depth (depth d : Nat) : Nat := if depth ≤ d then d + 1 else depth

/-- Whether a variant has a source, a line or a column. -/
def Pointer.located (v : Pointer R) : Bool :=
  match v.header? with
  | some h => h.located
  | none => false

section constructors
variable [Double R] [DoubleCast R]

/-- `sd_json_variant_is_normalized` -/
def sd_json_variant_is_normalized (v : Pointer R) : Bool :=
  if sd_json_variant_has_type v .real && !sd_json_variant_has_type v .integer &&
      !sd_json_variant_has_type v .unsigned then false
  else if !sd_json_variant_is_object v && !sd_json_variant_is_array v then true
  else if sd_json_variant_elements v = 0 then true
  else match v.header? with
    | some h => h.normalized
    | none => true

/-- `sd_json_variant_is_sorted` -/
def sd_json_variant_is_sorted (v : Pointer R) : Bool :=
  if !sd_json_variant_is_object v then true
  else if sd_json_variant_elements v ≤ 1 then true
  else match v.header? with
    | some h => h.sorted
    | none => true

/-- `json_variant_set`, of an embedded variant with this header. -/
def json_variant_set (a : Header) (b : Pointer R) : Pointer R :=
  let b := json_variant_dereference b
  match sd_json_variant_type b with
  | some .integer => .scalar a (.integer (sd_json_variant_integer b))
  | some .unsigned => .scalar a (.unsigned (sd_json_variant_unsigned b))
  | some .real => .scalar a (.real (sd_json_variant_real b))
  | some .boolean => .scalar a (.boolean (sd_json_variant_boolean b))
  | some .string =>
    match sd_json_variant_string b with
    | some s =>
      -- short strings are stored inline
      if s.length ≤ INLINE_STRING_MAX then .scalar a (.string s)
      else .reference a (json_variant_conservative_formalize b)
    | none => .scalar a .null
  | some .array | some .object => .reference a (json_variant_conservative_formalize b)
  | _ => .scalar a .null

/-- The header of the element `i` of the variant in this allocation, with the
    source of what is put there (`json_variant_copy_source`). -/
def embedded_header (block i : Nat) (element : Pointer R) : Header :=
  { Header.blank (block, i + 1) with located := element.located }

/-- What changes in an array while it is built. -/
structure NewArray (R : Type) where
  elements : List (Pointer R)
  depth : Nat
  normalized : Bool

/-- `json_variant_array_put_element` -/
def json_variant_array_put_element (block : Nat) (array : NewArray R) (element : Pointer R) :
    Outcome (NewArray R) :=
  let d := json_variant_depth element
  if DEPTH_MAX ≤ d then .err Errno.ELNRNG     -- refuse too deep nesting
  else .ok
    { elements := array.elements ++
        [json_variant_set (embedded_header block array.elements.length element) element]
      depth := raise_depth array.depth d
      normalized := array.normalized && sd_json_variant_is_normalized element }

/-- The loop of `sd_json_variant_new_array`. -/
def json_variant_array_put_elements (block : Nat) :
    NewArray R → List (Pointer R) → Outcome (NewArray R)
  | v, [] => .ok v
  | v, e :: array => do
    let v ← json_variant_array_put_element block v e
    json_variant_array_put_elements block v array

/-- `sd_json_variant_new_array` -/
def sd_json_variant_new_array (array : List (Pointer R)) : Call Heap (Pointer R) :=
  if array = [] then pure (.magic .empty_array)
  else do
    let block ← alloc
    let v ← Call.lift (json_variant_array_put_elements block ⟨[], 0, true⟩ array)
    pure (.array ⟨(block, 0), false, v.depth, false, v.normalized⟩ v.elements)

/-- `strcmp (a, b) < 0` -/
def strcmp_lt (a b : List UInt8) : Bool := a < b

/-- What the loop of `sd_json_variant_new_object` has so far. -/
structure NewObject (R : Type) where
  elements : List (Pointer R)
  depth : Nat
  prev : Option (List UInt8)
  sorted : Bool
  normalized : Bool

/-- One key with its value. -/
def json_variant_object_put_pair (block : Nat) (v : NewObject R) (key value : Pointer R) :
    Outcome (NewObject R) :=
  match sd_json_variant_is_string key, sd_json_variant_string key with
  | true, some k =>
    let in_order := match v.prev with
      | some prev => strcmp_lt prev k
      | none => true
    let d := json_variant_depth key
    let d' := json_variant_depth value
    if DEPTH_MAX ≤ d || DEPTH_MAX ≤ d' then .err Errno.ELNRNG     -- refuse too deep nesting
    else .ok
      { elements := v.elements ++
          [json_variant_set (embedded_header block v.elements.length key) key,
           json_variant_set (embedded_header block (v.elements.length + 1) value) value]
        depth := raise_depth (raise_depth v.depth d) d'
        prev := some k
        sorted := v.sorted && in_order
        normalized := v.normalized && in_order && sd_json_variant_is_normalized value }
  | true, none => .abort
  | false, _ => .err Errno.EINVAL     -- every second one needs to be a string

/-- The loop of `sd_json_variant_new_object`, two elements at a time. -/
def json_variant_object_put_pairs (block : Nat) :
    NewObject R → List (Pointer R) → Outcome (NewObject R)
  | v, key :: value :: array => do
    let v ← json_variant_object_put_pair block v key value
    json_variant_object_put_pairs block v array
  | v, _ => .ok v

/-- `sd_json_variant_new_object` -/
def sd_json_variant_new_object (array : List (Pointer R)) : Call Heap (Pointer R) :=
  if array = [] then pure (.magic .empty_object)
  else if array.length % 2 ≠ 0 then Call.fail Errno.EINVAL
  else do
    let block ← alloc
    let v ← Call.lift (json_variant_object_put_pairs block ⟨[], 0, none, true, true⟩ array)
    pure (.object ⟨(block, 0), false, v.depth, v.sorted, v.normalized⟩ v.elements)

end constructors

/-! ## Section 5: Formal variants -/

namespace Pointer

/-! ### What a reference is looked through for -/

/-- What looks through references is the same behind them. -/
theorem dereference_same {α : Type} (f : Pointer R → α) (hf : ∀ h v, f (.reference h v) = f v)
    (v : Pointer R) : f (json_variant_dereference v) = f v := by
  induction v using json_variant_dereference.induct with
  | case1 h v ih =>
    rw [json_variant_dereference, ih, hf]
  | case2 v h => exact congrArg f (json_variant_dereference.eq_2 v h)

section
variable (v : Pointer R)
include v

theorem dereference_idem :
    json_variant_dereference (json_variant_dereference v) = json_variant_dereference v :=
  dereference_same json_variant_dereference (fun _ _ => rfl) v

theorem type_dereference :
    sd_json_variant_type (json_variant_dereference v) = sd_json_variant_type v :=
  dereference_same sd_json_variant_type (fun _ _ => rfl) v

theorem string_dereference :
    sd_json_variant_string (json_variant_dereference v) = sd_json_variant_string v :=
  dereference_same sd_json_variant_string (fun _ _ => rfl) v

theorem boolean_dereference :
    sd_json_variant_boolean (json_variant_dereference v) = sd_json_variant_boolean v :=
  dereference_same sd_json_variant_boolean (fun _ _ => rfl) v

theorem elements_dereference : (json_variant_dereference v).elements = v.elements :=
  dereference_same elements (fun _ _ => rfl) v

theorem dereference_ne_reference (h : Header) (w : Pointer R) :
    json_variant_dereference v ≠ .reference h w := by
  induction v using json_variant_dereference.induct with
  | case1 h' v ih =>
    exact ih
  | case2 v h' =>
    rw [json_variant_dereference.eq_2 v h']
    exact h' h w

end

variable {v : Pointer R}

/-- Only strings have one. -/
theorem string_eq_none (h : sd_json_variant_type v ≠ some .string) :
    sd_json_variant_string v = none := by
  induction v using json_variant_dereference.induct with
  | case1 h' v ih =>
    exact ih h
  | case2 v h' =>
    cases v with
    | null => rfl
    | magic m =>
      cases m with
      | empty_string => exact (h rfl).elim
      | _ => rfl
    | const_string s => exact (h rfl).elim
    | scalar k x =>
      cases x with
      | string s => exact (h rfl).elim
      | _ => rfl
    | array k l => rfl
    | object k l => rfl
    | reference k w => exact (h' k w rfl).elim

/-- Only arrays and objects have any. -/
theorem elements_eq_nil (ha : sd_json_variant_type v ≠ some .array)
    (ho : sd_json_variant_type v ≠ some .object) : v.elements = [] := by
  induction v using json_variant_dereference.induct with
  | case1 h' v ih =>
    exact ih ha ho
  | case2 v h' =>
    cases v with
    | array k l => exact (ha rfl).elim
    | object k l => exact (ho rfl).elim
    | reference k w => exact (h' k w rfl).elim
    | _ => rfl

section double
variable [Double R] [DoubleCast R]

theorem integer_dereference (v : Pointer R) :
    sd_json_variant_integer (json_variant_dereference v) = sd_json_variant_integer v :=
  dereference_same sd_json_variant_integer (fun _ _ => rfl) v

theorem unsigned_dereference (v : Pointer R) :
    sd_json_variant_unsigned (json_variant_dereference v) = sd_json_variant_unsigned v :=
  dereference_same sd_json_variant_unsigned (fun _ _ => rfl) v

theorem real_dereference (v : Pointer R) :
    sd_json_variant_real (json_variant_dereference v) = sd_json_variant_real v :=
  dereference_same sd_json_variant_real (fun _ _ => rfl) v

/-- `json_variant_formalize` by the type. -/
theorem formalize_eq (v : Pointer R) :
    json_variant_formalize v =
      match sd_json_variant_type v with
      | some .boolean => if sd_json_variant_boolean v then .magic .true else .magic .false
      | some .null => .magic .null
      | some .integer =>
        if sd_json_variant_integer v = 0 then .magic .zero_integer else json_variant_dereference v
      | some .unsigned =>
        if sd_json_variant_unsigned v = 0 then .magic .zero_unsigned else json_variant_dereference v
      | some .real =>
        if iszero_safe (sd_json_variant_real v) then .magic .zero_real else json_variant_dereference v
      | some .string =>
        if sd_json_variant_string v = some [] then .magic .empty_string
        else json_variant_dereference v
      | some .array =>
        if sd_json_variant_elements v = 0 then .magic .empty_array else json_variant_dereference v
      | some .object =>
        if sd_json_variant_elements v = 0 then .magic .empty_object else json_variant_dereference v
      | _ => json_variant_dereference v := by
  unfold json_variant_formalize sd_json_variant_elements
  dsimp only
  rw [type_dereference, boolean_dereference, integer_dereference, unsigned_dereference,
    real_dereference, string_dereference, elements_dereference]

theorem formalize_dereference (v : Pointer R) :
    json_variant_formalize (json_variant_dereference v) = json_variant_formalize v :=
  dereference_same json_variant_formalize (fun _ _ => rfl) v

theorem formalize_magic (m : Magic) : json_variant_formalize (.magic m : Pointer R) = .magic m := by
  cases m with
  | zero_real =>
    exact ite_self _
  | _ => rfl

theorem type_formalize (v : Pointer R) :
    sd_json_variant_type (json_variant_formalize v) = sd_json_variant_type v := by
  rw [formalize_eq]
  split
  all_goals first
    | (split <;> first | exact type_dereference v | (symm; assumption))
    | exact type_dereference v
    | (symm; assumption)

theorem string_formalize (v : Pointer R) :
    sd_json_variant_string (json_variant_formalize v) = sd_json_variant_string v := by
  by_cases hs : sd_json_variant_type v = some .string
  · rw [formalize_eq, hs]
    dsimp only
    split
    · next h => rw [h, sd_json_variant_string]
    · exact string_dereference v
  · rw [string_eq_none hs, string_eq_none (by rwa [type_formalize])]

end double

end Pointer

end SdCompat.Json.Kept
