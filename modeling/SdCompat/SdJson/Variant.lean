import SdCompat.Basic.Common
import SdCompat.Basic.Utf8

/-! # JSON variants (sd-json.c)

    A variant as the value it holds, and the constructors. Where a variant is
    kept (a magic pointer, a heap object, inline in its container or by
    reference), its line and column, and the marks on it are left out here;
    what depends on them has a model of its own.
-/

namespace SdCompat.Json

open List Errno

/-- `DEPTH_MAX` -/
def DEPTH_MAX : Nat := 2 * 1024

def INT64_MIN : Int := -9223372036854775808
def INT64_MAX : Int := 9223372036854775807
def UINT64_MAX : Nat := 18446744073709551615

/-! ## Section 1: Floating point numbers -/

/-- What `fpclassify` tells apart, with subnormal numbers among the normal
    ones. -/
inductive FpClass where
  | nan | infinite | zero | normal
  deriving DecidableEq, Repr

/-- The operations of `double` the code uses. -/
class Double (R : Type) where
  /-- A literal that is not negative, or a digit converted from `int`. -/
  ofNat : Nat → R
  neg : R → R
  add : R → R → R
  mul : R → R → R
  div : R → R → R
  /-- `x > (double) n` -/
  exceeds : R → Nat → Bool
  /-- `(int) x`, for an `x` that is not negative. -/
  toNat : R → Nat
  fpclassify : R → FpClass

/-- The doubles of this machine. -/
instance : Double Float where
  ofNat := Float.ofNat
  neg x := -x
  add x y := x + y
  mul x y := x * y
  div x y := x / y
  exceeds x n := decide (Float.ofNat n < x)
  toNat x := x.toUInt64.toNat
  fpclassify x :=
    if x.isNaN then .nan
    else if x.isInf then .infinite
    else if x == 0 then .zero
    else .normal

/-- The conversions between `double` and the integers. -/
class DoubleCast (R : Type) where
  /-- `(double) i` -/
  of_int64 : Int → R
  /-- `(int64_t) x` -/
  to_int64 : R → Int
  /-- `(uint64_t) x` -/
  to_uint64 : R → Nat

/-- The doubles of this machine. -/
instance : DoubleCast Float where
  of_int64 i := Float.ofInt i
  to_int64 x := x.toInt64.toInt
  to_uint64 x := x.toUInt64.toNat

/-- `iszero_safe` -/
def iszero_safe {R : Type} [Double R] (x : R) : Bool := Double.fpclassify x == .zero

/-- `fp_equal` -/
def fp_equal {R : Type} [Double R] (x y : R) : Bool :=
  iszero_safe (Double.add x (Double.neg y))

/-! ## Section 2: Values -/

/-- `sd_json_variant`. The members of an object are kept in their order, and
    a key may be there more than once. -/
inductive Variant (R : Type) where
  | null
  | boolean (b : Bool)
  | integer (i : Int)
  | unsigned (u : Nat)
  | real (x : R)
  | string (s : List UInt8)
  | array (elements : List (Variant R))
  | object (pairs : List (List UInt8 × Variant R))
  deriving Repr

namespace Variant

variable {R : Type}

/-- Induction over a variant: what holds of all elements of an array, or of
    all values of an object, holds of the array or the object. -/
@[elab_as_elim]
theorem ind {P : Variant R → Prop} (null : P .null) (boolean : ∀ b, P (.boolean b))
    (integer : ∀ i, P (.integer i)) (unsigned : ∀ u, P (.unsigned u)) (real : ∀ x, P (.real x))
    (string : ∀ s, P (.string s)) (array : ∀ l, (∀ v ∈ l, P v) → P (.array l))
    (object : ∀ l : List (List UInt8 × Variant R), (∀ m ∈ l, P m.2) → P (.object l)) (v : Variant R) :
    P v :=
  Variant.rec (motive_1 := P) (motive_2 := fun l => ∀ v ∈ l, P v)
    (motive_3 := fun l => ∀ m ∈ l, P m.2) (motive_4 := fun m => P m.2)
    null boolean integer unsigned real string (fun l ih => array l ih) (fun l ih => object l ih)
    (by simp) (fun v l hv hl w hw => by
      rcases mem_cons.mp hw with rfl | hw
      · exact hv
      · exact hl w hw)
    (by simp) (fun m l hm hl w hw => by
      rcases mem_cons.mp hw with rfl | hw
      · exact hm
      · exact hl w hw)
    (fun _ _ hv => hv) v

mutual
/-- `json_variant_depth`: how many levels of members a variant has. -/
def depth : Variant R → Nat
  | array l => depth_elements l
  | object l => depth_pairs l
  | _ => 0

/-- The depth of an array with these elements, as `json_variant_array_put_element`
    keeps it. -/
def depth_elements : List (Variant R) → Nat
  | [] => 0
  | v :: l => max (v.depth + 1) (depth_elements l)

/-- The depth of an object with these members. -/
def depth_pairs : List (List UInt8 × Variant R) → Nat
  | [] => 0
  | (_, v) :: l => max (v.depth + 1) (depth_pairs l)
end

/-- `sd_json_variant_is_object` -/
def is_object : Variant R → Bool
  | object _ => true
  | _ => false

/-- `sd_json_variant_is_array` -/
def is_array : Variant R → Bool
  | array _ => true
  | _ => false

/-- `sd_json_variant_is_null` -/
def is_null : Variant R → Bool
  | null => true
  | _ => false

/-- `sd_json_variant_is_boolean` -/
def is_boolean : Variant R → Bool
  | boolean _ => true
  | _ => false

/-- `sd_json_variant_is_string` -/
def is_string : Variant R → Bool
  | string _ => true
  | _ => false

/-- `sd_json_variant_is_number` -/
def is_number : Variant R → Bool
  | integer _ | unsigned _ | real _ => true
  | _ => false

/-- `sd_json_variant_is_integer` -/
def is_integer [Double R] [DoubleCast R] : Variant R → Bool
  | integer _ => true
  | unsigned u => (u : Int) ≤ INT64_MAX
  | real x => fp_equal (DoubleCast.of_int64 (DoubleCast.to_int64 x)) x
  | _ => false

/-- `sd_json_variant_is_unsigned` -/
def is_unsigned [Double R] [DoubleCast R] : Variant R → Bool
  | integer i => 0 ≤ i
  | unsigned _ => true
  | real x => fp_equal (Double.ofNat (DoubleCast.to_uint64 x)) x
  | _ => false

/-- `sd_json_variant_by_key`. A sorted object is searched by bisection there,
    which finds the same member when no key is there twice. -/
def by_key : Variant R → List UInt8 → Option (Variant R)
  | object l, key => (l.find? fun m => m.1 = key).map (·.2)
  | _, _ => none

/-- No object in the variant has a key twice. -/
inductive DistinctKeys : Variant R → Prop
  | null : DistinctKeys .null
  | boolean (b : Bool) : DistinctKeys (.boolean b)
  | integer (i : Int) : DistinctKeys (.integer i)
  | unsigned (u : Nat) : DistinctKeys (.unsigned u)
  | real (x : R) : DistinctKeys (.real x)
  | string (s : List UInt8) : DistinctKeys (.string s)
  | array {l : List (Variant R)} (h : ∀ v ∈ l, DistinctKeys v) : DistinctKeys (.array l)
  | object {l : List (List UInt8 × Variant R)} (hl : (l.map (·.1)).Nodup)
      (h : ∀ m ∈ l, DistinctKeys m.2) : DistinctKeys (.object l)

variable {key : List UInt8} {l : List (List UInt8 × Variant R)}

/-- With distinct keys, the member found is the one with the key. -/
theorem by_key_eq_some (hl : (l.map (·.1)).Nodup) {v : Variant R} :
    (object l).by_key key = some v ↔ (key, v) ∈ l := by
  unfold by_key
  induction l with
  | nil => simp
  | cons m l ih =>
    obtain ⟨hm, hl⟩ := nodup_cons.mp hl
    by_cases hk : m.1 = key
    · subst hk
      have hout : (m.1, v) ∉ l := fun h => hm (mem_map.mpr ⟨_, h, rfl⟩)
      simp only [find?_cons, decide_true, Option.map_some, Option.some.injEq, mem_cons,
        hout, or_false]
      exact ⟨fun h => by rw [← h], fun h => (congrArg Prod.snd h).symm⟩
    · have hne : (key, v) ≠ m := fun h => hk (by rw [← h])
      simp only [find?_cons, decide_eq_false hk, mem_cons, hne, false_or]
      exact ih hl

theorem by_key_eq_none : (object l).by_key key = none ↔ ∀ m ∈ l, m.1 ≠ key := by
  simp [by_key]

end Variant

/-! ## Section 3: The constructors -/

variable {R : Type}

/-- `sd_json_variant_new_integer` -/
def sd_json_variant_new_integer (i : Int) : Variant R := .integer i

/-- `sd_json_variant_new_unsigned` -/
def sd_json_variant_new_unsigned (u : Nat) : Variant R := .unsigned u

/-- `sd_json_variant_new_boolean` -/
def sd_json_variant_new_boolean (b : Bool) : Variant R := .boolean b

/-- `sd_json_variant_new_null` -/
def sd_json_variant_new_null : Variant R := .null

/-- `sd_json_variant_new_real` -/
def sd_json_variant_new_real [Double R] (d : R) : Variant R :=
  match Double.fpclassify d with
  | .nan | .infinite => .null     -- JSON doesn't know NaN, +Infinity or -Infinity
  | .zero => .real (Double.ofNat 0)
  | .normal => .real d

/-- `sd_json_variant_new_string` -/
def sd_json_variant_new_string (s : List UInt8) : Outcome (Variant R) :=
  if s = [] then .ok (.string [])
  else if utf8_is_valid s then .ok (.string s)
  else .err EUCLEAN

/-- `json_variant_array_put_element` -/
def json_variant_array_put_element (array : List (Variant R)) (element : Variant R) :
    Outcome (List (Variant R)) :=
  if DEPTH_MAX ≤ element.depth then .err ELNRNG
  else .ok (array ++ [element])

/-- The loop of `sd_json_variant_new_array`. -/
def json_variant_array_put_elements :
    List (Variant R) → List (Variant R) → Outcome (List (Variant R))
  | v, [] => .ok v
  | v, e :: array => do
    let v ← json_variant_array_put_element v e
    json_variant_array_put_elements v array

/-- `sd_json_variant_new_array` -/
def sd_json_variant_new_array (array : List (Variant R)) : Outcome (Variant R) := do
  let v ← json_variant_array_put_elements [] array
  pure (.array v)

/-- The loop of `sd_json_variant_new_object`, two elements at a time: the key
    and its value. -/
def json_variant_object_put_elements :
    List (List UInt8 × Variant R) → List (Variant R) → Outcome (List (List UInt8 × Variant R))
  | v, .string k :: c :: array =>
    if DEPTH_MAX ≤ c.depth then .err ELNRNG
    else json_variant_object_put_elements (v ++ [(k, c)]) array
  | v, [] => .ok v
  | _, _ => .err EINVAL     -- every second one needs to be a string

/-- `sd_json_variant_new_object` -/
def sd_json_variant_new_object (array : List (Variant R)) : Outcome (Variant R) :=
  if array.length % 2 ≠ 0 then .err EINVAL
  else do
    let v ← json_variant_object_put_elements [] array
    pure (.object v)

/-! ## Section 4: What the constructors accept -/

/-- All of them may be put into a container. -/
def Shallow (l : List (Variant R)) : Prop := ∀ v ∈ l, v.depth < DEPTH_MAX

instance (l : List (Variant R)) : Decidable (Shallow l) := decidableBAll _ l

variable {l : List (Variant R)}

theorem put_elements_ok (h : Shallow l) (acc : List (Variant R)) :
    json_variant_array_put_elements acc l = .ok (acc ++ l) := by
  induction l generalizing acc with
  | nil => simp [json_variant_array_put_elements]
  | cons v l ih =>
    have hv : ¬ DEPTH_MAX ≤ v.depth := Nat.not_le.mpr (h v (by simp))
    have hl : Shallow l := fun w hw => h w (by simp [hw])
    simp [json_variant_array_put_elements, json_variant_array_put_element, hv, ih hl]

theorem put_elements_deep (h : ¬ Shallow l) (acc : List (Variant R)) :
    json_variant_array_put_elements acc l = .err ELNRNG := by
  induction l generalizing acc with
  | nil => exact (h fun v hv => (not_mem_nil hv).elim).elim
  | cons v l ih =>
    by_cases hv : DEPTH_MAX ≤ v.depth
    · simp [json_variant_array_put_elements, json_variant_array_put_element, hv]
    · have hl : ¬ Shallow l := by
        intro hl
        refine h fun w hw => ?_
        rcases mem_cons.mp hw with rfl | hw
        · exact Nat.lt_of_not_le hv
        · exact hl w hw
      simp [json_variant_array_put_elements, json_variant_array_put_element, hv, ih hl]

/-- An array is made of any elements that are not too deep. -/
theorem new_array_eq (l : List (Variant R)) :
    sd_json_variant_new_array l = if Shallow l then .ok (.array l) else .err ELNRNG := by
  unfold sd_json_variant_new_array
  split
  · next h => rw [put_elements_ok h]; rfl
  · next h => rw [put_elements_deep h]; rfl

/-- The elements of an object, keys and values in turn. -/
def flat (l : List (List UInt8 × Variant R)) : List (Variant R) :=
  l.flatMap fun m => [.string m.1, m.2]

@[simp] theorem flat_nil : flat ([] : List (List UInt8 × Variant R)) = [] := rfl

@[simp] theorem flat_cons (m : List UInt8 × Variant R) (l : List (List UInt8 × Variant R)) :
    flat (m :: l) = .string m.1 :: m.2 :: flat l := rfl

theorem flat_append (l l' : List (List UInt8 × Variant R)) : flat (l ++ l') = flat l ++ flat l' := by
  simp [flat]

theorem length_flat (l : List (List UInt8 × Variant R)) : (flat l).length = 2 * l.length := by
  induction l with
  | nil => rfl
  | cons m l ih => rw [flat_cons, length_cons, length_cons, length_cons]; omega

theorem put_pairs_eq (l acc : List (List UInt8 × Variant R)) :
    json_variant_object_put_elements acc (flat l) =
      if Shallow (l.map (·.2)) then .ok (acc ++ l) else .err ELNRNG := by
  induction l generalizing acc with
  | nil => simp [json_variant_object_put_elements, Shallow]
  | cons m l ih =>
    rw [flat_cons, json_variant_object_put_elements, ih]
    by_cases hv : DEPTH_MAX ≤ m.2.depth
    · rw [if_pos hv, if_neg]
      intro h
      exact Nat.not_lt.mpr hv (h m.2 (by simp))
    · rw [if_neg hv]
      have hiff : Shallow ((m :: l).map (·.2)) ↔ Shallow (l.map (·.2)) := by
        simp [Shallow, Nat.lt_of_not_le hv]
      simp only [hiff, append_assoc, singleton_append]

/-- An object is made of any keys and values that are not too deep. -/
theorem new_object_flat (l : List (List UInt8 × Variant R)) : sd_json_variant_new_object (flat l) =
      if Shallow (l.map (·.2)) then .ok (.object l) else .err ELNRNG := by
  unfold sd_json_variant_new_object
  rw [if_neg (by rw [length_flat]; omega), put_pairs_eq]
  split
  · rfl
  · rfl

end SdCompat.Json
