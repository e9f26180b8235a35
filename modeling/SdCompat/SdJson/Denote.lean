import SdCompat.SdJson.Construct

/-! # The value of a JSON variant (sd-json.c)

    What a variant stands for, wherever its parts are kept. The negative zero is
    not told from the other one, as it is not by `json_variant_formalize`.
-/

namespace SdCompat.Json.Kept

variable {R : Type} [Double R] [DoubleCast R]

/-- A number, with one zero only. -/
def real_value (x : R) : Variant R := .real (if iszero_safe x then Double.ofNat 0 else x)

def Magic.value : Magic → Variant R
  | .true => .boolean Bool.true
  | .false => .boolean Bool.false
  | .null => .null
  | .zero_integer => .integer 0
  | .zero_unsigned => .unsigned 0
  | .zero_real => real_value (Double.ofNat 0)
  | .empty_string => .string []
  | .empty_array => .array []
  | .empty_object => .object []

def Scalar.value : Scalar R → Variant R
  | .null => .null
  | .boolean b => .boolean b
  | .integer i => .integer i
  | .unsigned u => .unsigned u
  | .real x => real_value x
  | .string s => .string s

namespace Pointer

mutual
/-- The value of a variant. -/
def value : Pointer R → Variant R
  | null => .null
  | magic m => m.value
  | const_string s => .string s
  | scalar _ x => x.value
  | array _ l => .array (values l)
  | object _ l => .object (members l)
  | reference _ v => v.value

/-- Those of elements. -/
def values : List (Pointer R) → List (Variant R)
  | [] => []
  | v :: l => v.value :: values l

/-- Those of keys with their values. -/
def members : List (Pointer R) → List (List UInt8 × Variant R)
  | k :: v :: l => ((sd_json_variant_string k).getD [], v.value) :: members l
  | _ => []
end

omit [DoubleCast R] in
theorem values_eq (l : List (Pointer R)) : values l = l.map value := by
  induction l with
  | nil => rfl
  | cons v l ih => rw [values, ih, List.map_cons]

/-- The key and the value of a pair. -/
def member (p : Pointer R × Pointer R) : List UInt8 × Variant R :=
  ((sd_json_variant_string p.1).getD [], p.2.value)

omit [DoubleCast R] in
theorem members_eq (l : List (Pointer R)) : members l = (pairs_of l).map member := by
  induction l using pairs_of.induct with
  | case1 k v l ih =>
    rw [members, ih]
    rfl
  | case2 l hshort =>
    match l with
    | [] => rfl
    | [u] => rfl
    | k :: v :: l => exact absurd rfl (hshort k v l)

omit [DoubleCast R] in
theorem value_dereference (v : Pointer R) : (json_variant_dereference v).value = v.value :=
  dereference_same value (fun _ _ => by rw [value]) v

/-- A formal variant has the same value. -/
theorem value_formalize (v : Pointer R) : (json_variant_formalize v).value = v.value := by
  rw [← formalize_dereference, ← value_dereference v]
  have hno := dereference_ne_reference v
  generalize json_variant_dereference v = w at hno ⊢
  cases w with
  | null => rfl
  | magic m => rw [formalize_magic]
  | const_string s =>
    by_cases hs : s = []
    · rw [hs]
      rfl
    · have hne : ¬ sd_json_variant_string (.const_string s : Pointer R) = some [] :=
        fun h => hs (Option.some.inj h)
      exact congrArg value (if_neg hne)
  | scalar k x =>
    cases x with
    | null => rfl
    | boolean b =>
      cases b with
      | true => rfl
      | false => rfl
    | integer i =>
      by_cases hi : i = 0
      · rw [hi]
        rfl
      · exact congrArg value (if_neg hi)
    | unsigned u =>
      by_cases hu : u = 0
      · rw [hu]
        rfl
      · exact congrArg value (if_neg hu)
    | real x =>
      by_cases hx : iszero_safe x = true
      · refine (congrArg value (if_pos hx)).trans ?_
        change real_value (Double.ofNat 0) = real_value x
        unfold real_value
        rw [if_pos hx, ite_self]
      · exact congrArg value (if_neg hx)
    | string s =>
      by_cases hs : s = []
      · rw [hs]
        rfl
      · have hne : ¬ sd_json_variant_string (.scalar k (.string s) : Pointer R) = some [] :=
          fun h => hs (Option.some.inj h)
        exact congrArg value (if_neg hne)
  | array k l =>
    cases l with
    | nil => rfl
    | cons u l => rfl
  | object k l =>
    cases l with
    | nil => rfl
    | cons u l => rfl
  | reference k u => exact absurd rfl (hno _ _)

theorem value_conservative (v : Pointer R) :
    (json_variant_conservative_formalize v).value = v.value := by
  unfold json_variant_conservative_formalize
  split
  · rfl
  · split
    · rfl
    · exact value_formalize v

/-- What is stored in place of a variant has its value. -/
theorem value_set (a : Header) (b : Pointer R) : (json_variant_set a b).value = b.value := by
  rw [← value_dereference b]
  have hno := dereference_ne_reference b
  unfold json_variant_set
  generalize json_variant_dereference b = c at hno ⊢
  have hstring : ∀ s, c.value = .string s →
      (if s.length ≤ INLINE_STRING_MAX then .scalar a (.string s)
        else .reference a (json_variant_conservative_formalize c) : Pointer R).value = c.value := by
    intro s hs
    split
    · exact hs.symm
    · exact (by rw [value] : value (.reference a _) = _).trans (value_conservative c)
  have hreference : (Pointer.reference a (json_variant_conservative_formalize c)).value = c.value :=
    (by rw [value] : value (.reference a _) = _).trans (value_conservative c)
  cases c with
  | null => rfl
  | magic m =>
    cases m with
    | empty_array => exact hreference
    | empty_object => exact hreference
    | _ => rfl
  | const_string s => exact hstring s rfl
  | scalar k x =>
    cases x with
    | string s => exact hstring s rfl
    | _ => rfl
  | array k l => exact hreference
  | object k l => exact hreference
  | reference k u => exact absurd rfl (hno _ _)

omit [DoubleCast R] in
/-- What stands for a string is one. -/
theorem string_of_value {v : Pointer R} {s : List UInt8} (h : v.value = .string s) :
    sd_json_variant_type v = some .string ∧ sd_json_variant_string v = some s := by
  rw [← value_dereference] at h
  rw [← type_dereference, ← string_dereference]
  have hno := dereference_ne_reference v
  generalize json_variant_dereference v = w at h hno ⊢
  cases w with
  | null => cases h
  | magic m =>
    cases m with
    | empty_string =>
      cases h
      exact ⟨rfl, rfl⟩
    | _ => cases h
  | const_string t =>
    cases h
    exact ⟨rfl, rfl⟩
  | scalar k x =>
    cases x with
    | string t =>
      cases h
      exact ⟨rfl, rfl⟩
    | _ => cases h
  | array k l =>
    cases h
  | object k l =>
    cases h
  | reference k u => exact absurd rfl (hno _ _)

/-- The value by the type, for the simple types. -/
theorem value_of_type (v : Pointer R) :
    match sd_json_variant_type v with
    | some .integer => v.value = .integer (sd_json_variant_integer v)
    | some .unsigned => v.value = .unsigned (sd_json_variant_unsigned v)
    | some .real => v.value = real_value (sd_json_variant_real v)
    | some .boolean => v.value = .boolean (sd_json_variant_boolean v)
    | some .null => v.value = .null
    | some .string => ∃ s, sd_json_variant_string v = some s ∧ v.value = .string s
    | _ => True := by
  rw [← type_dereference, ← value_dereference, ← integer_dereference, ← unsigned_dereference,
    ← real_dereference, ← boolean_dereference, ← string_dereference]
  have hno := dereference_ne_reference v
  generalize json_variant_dereference v = w at hno ⊢
  cases w with
  | null => trivial
  | magic m =>
    cases m with
    | empty_string => exact ⟨[], rfl, rfl⟩
    | empty_array => trivial
    | empty_object => trivial
    | _ => rfl
  | const_string s => exact ⟨s, rfl, rfl⟩
  | scalar k x =>
    cases x with
    | string s => exact ⟨s, rfl, rfl⟩
    | _ => rfl
  | array k l => trivial
  | object k l => trivial
  | reference k u => exact absurd rfl (hno _ _)

end Pointer

end SdCompat.Json.Kept
