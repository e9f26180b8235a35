import SdCompat.SdVarlink.Idl

/-! # Checking messages against an interface (sd-varlink-idl.c)

    `varlink_idl_validate_symbol` checks a value against a symbol: each field
    of the direction against the member with its name, and then whether each
    key of the object is the name of a field. The second loop does not ask for
    the direction. An argument of the other direction is let through without
    its value having been looked at.

    Log messages are left out. `reterr_bad_field` is the second result, with
    `none` when it is not set or is set to `NULL`.
-/

open SdCompat.Json

namespace SdCompat.Varlink

open Variant List Option Outcome

variable {R : Type} [Double R] [DoubleCast R]

/-! ## Section 1: Model -/

/-- The type of the value alone, for the types that have no symbol. -/
def validate_base_type (field_type : FieldType) (v : Variant R) : Outcome Nat :=
  match field_type with
  | .BOOL => if ¬ v.is_boolean then .err .EMEDIUMTYPE else .ok 0
  | .INT =>
    -- Strings are allowed, since integers with > 53 bits are often passed in as strings
    if ¬ v.is_integer ∧ ¬ v.is_unsigned ∧ ¬ v.is_string then .err .EMEDIUMTYPE else .ok 0
  | .FLOAT => if ¬ v.is_number then .err .EMEDIUMTYPE else .ok 0
  | .STRING => if ¬ v.is_string then .err .EMEDIUMTYPE else .ok 0
  | .OBJECT => if ¬ v.is_object then .err .EMEDIUMTYPE else .ok 0
  | .ANY => .ok 0
  | .FIELD_COMMENT => .ok 0
  | .STRUCT | .ENUM | .NAMED_TYPE | .ENUM_VALUE => .abort

/-- The loop over the fields of an enum: each field until the one that is found
    is a value or a comment. -/
def find_enum_value (s : List UInt8) : List Field → Outcome Bool
  | [] => .ok false
  | field :: fields =>
    if field.field_type = .FIELD_COMMENT then find_enum_value s fields
    else if field.field_type ≠ .ENUM_VALUE then .abort
    else if field.name = s then .ok true
    else find_enum_value s fields

/-- The second loop over an object: the first key that is not the name of a
    field. -/
def find_undefined (symbol : Symbol) : List (List UInt8 × Variant R) → Option (List UInt8)
  | [] => none
  | m :: l =>
    if (varlink_idl_find_field symbol m.1).isNone then some m.1 else find_undefined symbol l

omit [Double R] [DoubleCast R] in
theorem sizeOf_pos (v : Variant R) : 0 < sizeOf v := by
  cases v with
  | null => simp
  | _ =>
    simp only [boolean.sizeOf_spec, integer.sizeOf_spec, unsigned.sizeOf_spec,
      real.sizeOf_spec, string.sizeOf_spec, array.sizeOf_spec,
      object.sizeOf_spec]
    omega

omit [Double R] [DoubleCast R] in
/-- What is found in an object is smaller than the object. -/
theorem sizeOf_by_key (v : Variant R) (key : List UInt8) :
    (v.by_key key).elim 0 sizeOf < sizeOf v := by
  cases hv : v.by_key key with
  | none => exact sizeOf_pos v
  | some c =>
    cases v with
    | object l =>
      obtain ⟨m, hm, rfl⟩ := map_eq_some_iff.mp hv
      have hlt := sizeOf_lt_of_mem (mem_of_find?_eq_some hm)
      have hsnd : sizeOf m.2 < sizeOf m := by
        cases m
        simp only [Prod.mk.sizeOf_spec]
        omega
      show sizeOf m.2 < sizeOf (object l)
      simp only [object.sizeOf_spec]
      omega
    | _ => cases hv

mutual

/-- `varlink_idl_validate_field_element_type` -/
def varlink_idl_validate_field_element_type (symbols : List Symbol) (field : Field)
    (v : Variant R) : Outcome Nat :=
  if v.is_null then .err .EMEDIUMTYPE
  else
    match field.field_type with
    | .STRUCT | .ENUM | .NAMED_TYPE =>
      match field.symbol.bind fun p => symbols[p]? with
      | none => .abort
      | some symbol => (varlink_idl_validate_symbol symbols symbol v .REGULAR).1
    | field_type => validate_base_type field_type v
termination_by (sizeOf v, 2, 0)

/-- The loop over the elements of an array. -/
def validate_elements (symbols : List Symbol) (field : Field) :
    List (Variant R) → Outcome Nat
  | [] => .ok 0
  | v :: l => do
    let _ ← varlink_idl_validate_field_element_type symbols field v
    validate_elements symbols field l
termination_by l => (sizeOf l, 0, 0)

/-- The loop over the values of a map. -/
def validate_values (symbols : List Symbol) (field : Field) :
    List (List UInt8 × Variant R) → Outcome Nat
  | [] => .ok 0
  | (_, v) :: l => do
    let _ ← varlink_idl_validate_field_element_type symbols field v
    validate_values symbols field l
termination_by l => (sizeOf l, 0, 0)

/-- `varlink_idl_validate_field` -/
def varlink_idl_validate_field (symbols : List Symbol) (field : Field) (v : Option (Variant R)) :
    Outcome Nat :=
  match v with
  | none => if ¬ field.nullable then .err .ENOANO else .ok 0
  | some v =>
    if v.is_null then
      if ¬ field.nullable then .err .ENOANO else .ok 0
    else if field.array then
      match v with
      | .array l => validate_elements symbols field l
      | _ => .err .EMEDIUMTYPE
    else if field.map then
      match v with
      | .object l => validate_values symbols field l
      | _ => .err .EMEDIUMTYPE
    else do
      let _ ← varlink_idl_validate_field_element_type symbols field v
      .ok 0
termination_by (v.elim 0 sizeOf, 3, 0)

/-- The first loop over an object: the fields of the direction. -/
def validate_fields (symbols : List Symbol) (direction : FieldDirection) (v : Variant R) :
    List Field → Outcome Nat × Option (List UInt8)
  | [] => (.ok 0, none)
  | field :: fields =>
    if field.field_type = .FIELD_COMMENT then validate_fields symbols direction v fields
    else if field.field_direction ≠ direction then validate_fields symbols direction v fields
    else
      match varlink_idl_validate_field symbols field (v.by_key field.name) with
      | .err e => (.err e, some field.name)
      | .abort => (.abort, none)
      | .ok _ => validate_fields symbols direction v fields
termination_by fields => (sizeOf v, 0, fields.length)
decreasing_by
  · exact .right _ (.right _ (Nat.lt_succ_self _))
  · exact .right _ (.right _ (Nat.lt_succ_self _))
  · exact .left _ _ (sizeOf_by_key v field.name)
  · exact .right _ (.right _ (Nat.lt_succ_self _))

/-- `varlink_idl_validate_symbol` -/
def varlink_idl_validate_symbol (symbols : List Symbol) (symbol : Symbol) (v : Variant R)
    (direction : FieldDirection) : Outcome Nat × Option (List UInt8) :=
  match symbol.symbol_type with
  | .ENUM_TYPE =>
    match v with
    | .string s =>
      match find_enum_value s symbol.fields with
      | .ok true => (.ok 1, none)
      | .ok false => (.err .EMEDIUMTYPE, some s)
      | .err e => (.err e, none)
      | .abort => (.abort, none)
    | _ => (.err .EMEDIUMTYPE, symbol.name)
  | .STRUCT_TYPE | .METHOD | .ERROR =>
    match v with
    | .object l =>
      match validate_fields symbols direction (.object l) symbol.fields with
      | (.ok _, _) =>
        match find_undefined symbol l with
        | some name => (.err .EBUSY, some name)
        | none => (.ok 1, none)
      | refused => refused
    | _ => (.err .EMEDIUMTYPE, symbol.name)
  | .INTERFACE_COMMENT | .SYMBOL_COMMENT => (.abort, none)
termination_by (sizeOf v, 1, 0)

end

/-- `sd_varlink_method_flags_t` -/
structure MethodFlags where
  oneway : Bool
  more : Bool
  upgrade : Bool
  deriving DecidableEq, Repr

/-- `varlink_idl_validate_method_call` -/
def varlink_idl_validate_method_call (symbols : List Symbol) (method : Option Symbol)
    (v : Option (Variant R)) (flags : MethodFlags) : Outcome Nat × Option (List UInt8) :=
  match method with
  | none => (.ok 0, none)
  | some method =>
    if method.symbol_type ≠ .METHOD then (.err .EBADMSG, none)
    else if method.requires_more ∧ ¬ flags.more then (.err .EBADE, none)
    else if method.requires_upgrade ∧ ¬ flags.upgrade then (.err .EBADE, none)
    else varlink_idl_validate_symbol symbols method (v.getD (.object [])) .INPUT

/-- `varlink_idl_validate_method_reply` -/
def varlink_idl_validate_method_reply (symbols : List Symbol) (method : Option Symbol)
    (v : Option (Variant R)) (continues : Bool) : Outcome Nat × Option (List UInt8) :=
  match method with
  | none => (.ok 0, none)
  | some method =>
    if method.symbol_type ≠ .METHOD then (.err .EBADMSG, none)
    else if continues ∧ ¬ method.supports_more ∧ ¬ method.requires_more then (.err .EBADE, none)
    else varlink_idl_validate_symbol symbols method (v.getD (.object [])) .OUTPUT

/-- `varlink_idl_validate_error` -/
def varlink_idl_validate_error (symbols : List Symbol) (error : Option Symbol)
    (v : Option (Variant R)) : Outcome Nat × Option (List UInt8) :=
  match error with
  | none => (.ok 0, none)
  | some error =>
    if error.symbol_type ≠ .ERROR then (.err .EBADMSG, none)
    else varlink_idl_validate_symbol symbols error (v.getD (.object [])) .REGULAR

/-! ## Section 2: What a declaration says -/

/-- The real number is one of the integers of 64 bits. -/
def IsIntegral (x : R) : Prop :=
  fp_equal (DoubleCast.of_int64 (DoubleCast.to_int64 x)) x ∨
    fp_equal (Double.ofNat (DoubleCast.to_uint64 x)) x

/-- The types that are described by a symbol. -/
def FieldType.Typed (field_type : FieldType) : Prop :=
  field_type = .STRUCT ∨ field_type = .ENUM ∨ field_type = .NAMED_TYPE

/-- A value of a type that has no symbol. An integer may be written as a
    string. -/
def HasBaseType (v : Variant R) : FieldType → Prop
  | .BOOL => ∃ b, v = .boolean b
  | .INT => (∃ i, v = .integer i) ∨ (∃ u, v = .unsigned u) ∨ (∃ x, v = .real x ∧ IsIntegral x) ∨
      ∃ s, v = .string s
  | .FLOAT => (∃ i, v = .integer i) ∨ (∃ u, v = .unsigned u) ∨ ∃ x, v = .real x
  | .STRING => ∃ s, v = .string s
  | .OBJECT => ∃ l, v = .object l
  | .ANY => v ≠ .null
  | .STRUCT | .ENUM | .NAMED_TYPE | .ENUM_VALUE | .FIELD_COMMENT => False

mutual

/-- The value is of the type of the field, its array and map flags aside. -/
inductive IsElement (symbols : List Symbol) : Field → Variant R → Prop
  | base {field : Field} {v : Variant R} (h : HasBaseType v field.field_type) :
      IsElement symbols field v
  | symbol {field : Field} {v : Variant R} {p : Nat} {symbol : Symbol}
      (ht : field.field_type.Typed)
      (hp : field.symbol = some p) (hs : symbols[p]? = some symbol)
      (h : IsType symbols symbol v) : IsElement symbols field v

/-- The value is of a struct or enum type. -/
inductive IsType (symbols : List Symbol) : Symbol → Variant R → Prop
  | enum {symbol : Symbol} {s : List UInt8} (ht : symbol.symbol_type = .ENUM_TYPE)
      (h : ∃ field ∈ symbol.proper, field.name = s) : IsType symbols symbol (.string s)
  | struct {symbol : Symbol} {l : List (List UInt8 × Variant R)}
      (ht : symbol.symbol_type = .STRUCT_TYPE)
      (h : Conforms symbols (symbol.fields_of .REGULAR) (symbol.fields_of .REGULAR) l) :
      IsType symbols symbol (.object l)

/-- The members of an object are as the fields say: each has a name that is
    known, each value is one of the fields with its name, and the fields that
    cannot be null are there. -/
inductive Conforms (symbols : List Symbol) :
    List Field → List Field → List (List UInt8 × Variant R) → Prop
  | mk {known fields : List Field} {l : List (List UInt8 × Variant R)}
      (declared : ∀ m ∈ l, ∃ field ∈ known, field.name = m.1)
      (valid : ∀ m ∈ l, ∀ field ∈ fields, field.name = m.1 → IsValue symbols field m.2)
      (present : ∀ field ∈ fields, field.nullable = false →
        ∃ m ∈ l, m.1 = field.name ∧ m.2 ≠ .null) :
      Conforms symbols known fields l

/-- The value is one of the field. -/
inductive IsValue (symbols : List Symbol) : Field → Variant R → Prop
  | null {field : Field} (h : field.nullable = true) : IsValue symbols field .null
  | array {field : Field} {l : List (Variant R)} (ha : field.array = true)
      (h : ∀ v ∈ l, IsElement symbols field v) : IsValue symbols field (.array l)
  | map {field : Field} {l : List (List UInt8 × Variant R)} (ha : field.array = false)
      (hm : field.map = true) (h : ∀ m ∈ l, IsElement symbols field m.2) :
      IsValue symbols field (.object l)
  | plain {field : Field} {v : Variant R} (ha : field.array = false) (hm : field.map = false)
      (h : IsElement symbols field v) : IsValue symbols field v

end

/-- **What the declaration of a symbol says of a message** in one direction. -/
def Declared (symbols : List Symbol) (symbol : Symbol) (direction : FieldDirection)
    (v : Variant R) : Prop :=
  ∃ l, v = .object l ∧
    Conforms symbols (symbol.fields_of direction) (symbol.fields_of direction) l

/-- A message with the fields of the direction as they are declared, in which
    only some keys are those of fields of the other direction. -/
def Stray (symbols : List Symbol) (symbol : Symbol) (direction : FieldDirection)
    (v : Variant R) : Prop :=
  ∃ l, v = .object l ∧ Conforms symbols symbol.proper (symbol.fields_of direction) l ∧
    ∃ m ∈ l, ∀ field ∈ symbol.fields_of direction, field.name ≠ m.1

/-! ## Section 3: Checks that decide -/

/-- The check ends without an assertion failing, and succeeds when `P` holds. -/
def Decides (x : Outcome Nat) (P : Prop) : Prop := x ≠ .abort ∧ (x.isOk = true ↔ P)

namespace Decides

variable {x : Outcome Nat} {P Q : Prop}

theorem ok {n : Nat} (h : P) : Decides (.ok n) P :=
  ⟨by simp, by simpa [isOk] using h⟩

theorem err {e : Errno} (h : ¬ P) : Decides (.err e) P :=
  ⟨by simp, by simpa [isOk] using h⟩

/-- A check that is one comparison. -/
theorem ite {c : Prop} [Decidable c] {n : Nat} {e : Errno} (h : c ↔ ¬ P) :
    Decides (if c then .err e else .ok n) P := by
  by_cases hc : c
  · rw [if_pos hc]
    exact .err (h.mp hc)
  · rw [if_neg hc]
    exact .ok (Classical.not_not.mp fun hp => hc (h.mpr hp))

theorem congr (h : Decides x P) (he : P ↔ Q) : Decides x Q := ⟨h.1, h.2.trans he⟩

/-- One check after the other. -/
theorem bind {f : Nat → Outcome Nat} (hx : Decides x P) (hf : ∀ n, Decides (f n) Q) :
    Decides (x >>= f) (P ∧ Q) := by
  cases x with
  | ok n =>
    have hp : P := hx.2.mp rfl
    exact (hf n).congr ⟨fun hq => ⟨hp, hq⟩, fun h => h.2⟩
  | err e =>
    have hp : ¬ P := fun hp => by simpa [isOk] using hx.2.mpr hp
    exact .err fun h => hp h.1
  | abort => exact absurd rfl hx.1

end Decides

/-! ## Section 4: Elements and fields -/

section element
variable {symbols : List Symbol} {field : Field} {v : Variant R}

theorem validate_base_type_decides (hv : v ≠ .null) {field_type : FieldType}
    (hs : field_type ≠ .STRUCT) (he : field_type ≠ .ENUM) (hn : field_type ≠ .NAMED_TYPE)
    (hv' : field_type ≠ .ENUM_VALUE) (hc : field_type ≠ .FIELD_COMMENT) :
    Decides (validate_base_type field_type v) (HasBaseType v field_type) := by
  cases field_type with
  | BOOL => exact .ite (by cases v <;> simp [is_boolean, HasBaseType])
  | INT =>
    refine .ite ?_
    cases v with
    | real x => simp [is_integer, is_unsigned, is_string, HasBaseType, IsIntegral]
    | _ => simp [is_integer, is_unsigned, is_string, HasBaseType]
  | FLOAT => exact .ite (by cases v <;> simp [is_number, HasBaseType])
  | STRING => exact .ite (by cases v <;> simp [is_string, HasBaseType])
  | OBJECT => exact .ite (by cases v <;> simp [is_object, HasBaseType])
  | ANY => exact .ok hv
  | STRUCT => exact absurd rfl hs
  | ENUM => exact absurd rfl he
  | NAMED_TYPE => exact absurd rfl hn
  | ENUM_VALUE => exact absurd rfl hv'
  | FIELD_COMMENT => exact absurd rfl hc

/-- Which symbol a field of a struct, enum or named type has. -/
theorem Field.Consistent.symbol {symbol : Symbol} (h : field.Consistent symbols symbol)
    (ht : field.field_type.Typed) : ∃ p s, field.symbol = some p ∧ symbols[p]? = some s ∧
      (s.symbol_type = .STRUCT_TYPE ∨ s.symbol_type = .ENUM_TYPE) := by
  rcases ht with ht | ht | ht
  · obtain ⟨p, s, hp, hs, hst⟩ := h.struct ht
    exact ⟨p, s, hp, hs, .inl hst⟩
  · obtain ⟨p, s, hp, hs, hst⟩ := h.enum ht
    exact ⟨p, s, hp, hs, .inr hst⟩
  · exact h.named_type ht

omit [DoubleCast R] [Double R] in
theorem is_null_iff : v.is_null = true ↔ v = .null := by
  cases v <;> simp [is_null]

theorem not_isElement_null : ¬ IsElement symbols field (.null : Variant R) := by
  intro h
  cases h with
  | base h => cases hf : field.field_type <;> simp [hf, HasBaseType] at h
  | symbol ht hp hs h => cases h

theorem element_type_eq_symbol {p : Nat} {s : Symbol} (hv : v ≠ .null)
    (ht : field.field_type.Typed) (hp : field.symbol = some p) (hs : symbols[p]? = some s) :
    varlink_idl_validate_field_element_type symbols field v =
      (varlink_idl_validate_symbol symbols s v .REGULAR).1 := by
  rw [varlink_idl_validate_field_element_type, if_neg (fun h => hv (is_null_iff.mp h))]
  have hbind : (field.symbol.bind fun p => symbols[p]?) = some s := by rw [hp]; exact hs
  rcases ht with ht | ht | ht
  · rw [ht]; dsimp only; rw [hbind]
  · rw [ht]; dsimp only; rw [hbind]
  · rw [ht]; dsimp only; rw [hbind]

theorem element_type_eq_base (hv : v ≠ .null) (ht : ¬ field.field_type.Typed) :
    varlink_idl_validate_field_element_type symbols field v =
      validate_base_type field.field_type v := by
  rw [varlink_idl_validate_field_element_type, if_neg (fun h => hv (is_null_iff.mp h))]
  cases hf : field.field_type with
  | STRUCT => exact absurd (.inl hf) ht
  | ENUM => exact absurd (.inr (.inl hf)) ht
  | NAMED_TYPE => exact absurd (.inr (.inr hf)) ht
  | _ => rfl

/-- What is known of the symbols that fields refer to, for one value. -/
def TypesDecide (symbols : List Symbol) (v : Variant R) : Prop :=
  ∀ symbol ∈ symbols, symbol.symbol_type = .STRUCT_TYPE ∨ symbol.symbol_type = .ENUM_TYPE →
    Decides (varlink_idl_validate_symbol symbols symbol v .REGULAR).1 (IsType symbols symbol v)

/-- A field of something else than an enum. -/
def Field.Checked (symbols : List Symbol) (field : Field) : Prop :=
  field.field_type ≠ .FIELD_COMMENT ∧ ∃ symbol : Symbol, symbol.symbol_type ≠ .ENUM_TYPE ∧
    field.Consistent symbols symbol

theorem element_decides (hfield : field.Checked symbols) (htypes : TypesDecide symbols v) :
    Decides (varlink_idl_validate_field_element_type symbols field v)
      (IsElement symbols field v) := by
  obtain ⟨hcomment, symbol, hne, hfield⟩ := hfield
  by_cases hv : v = .null
  · subst hv
    rw [varlink_idl_validate_field_element_type]
    exact .err not_isElement_null
  by_cases ht : field.field_type.Typed
  · obtain ⟨p, s, hp, hs, hst⟩ := hfield.symbol ht
    rw [element_type_eq_symbol hv ht hp hs]
    refine (htypes s (mem_of_getElem? hs) hst).congr ⟨.symbol ht hp hs, fun h => ?_⟩
    cases h with
    | base h =>
      rcases ht with ht | ht | ht
      · rw [ht] at h; exact h.elim
      · rw [ht] at h; exact h.elim
      · rw [ht] at h; exact h.elim
    | symbol _ hp' hs' h =>
      obtain rfl := some.inj (hp.symm.trans hp')
      obtain rfl := some.inj (hs.symm.trans hs')
      exact h
  · rw [element_type_eq_base hv ht]
    have hvalue : field.field_type ≠ .ENUM_VALUE := fun h => hne (hfield.enum_value.mp h)
    refine (validate_base_type_decides hv (fun h => ht (.inl h)) (fun h => ht (.inr (.inl h)))
      (fun h => ht (.inr (.inr h))) hvalue hcomment).congr ⟨.base, fun h => ?_⟩
    cases h with
    | base h => exact h
    | symbol ht' _ _ _ => exact absurd ht' ht

theorem elements_decide {l : List (Variant R)}
    (h : ∀ v ∈ l, Decides (varlink_idl_validate_field_element_type symbols field v)
      (IsElement symbols field v)) :
    Decides (validate_elements symbols field l) (∀ v ∈ l, IsElement symbols field v) := by
  induction l with
  | nil =>
    rw [validate_elements]
    exact .ok (by simp)
  | cons v l ih =>
    rw [validate_elements]
    have hv := h v (.head _)
    have hl := ih fun w hw => h w (.tail _ hw)
    exact (hv.bind fun _ => hl).congr forall_mem_cons.symm

variable {l : List (List UInt8 × Variant R)}

theorem values_decide
    (h : ∀ m ∈ l, Decides (varlink_idl_validate_field_element_type symbols field m.2) (IsElement symbols field m.2)) :
    Decides (validate_values symbols field l) (∀ m ∈ l, IsElement symbols field m.2) := by
  induction l with
  | nil =>
    rw [validate_values]
    exact .ok (by simp)
  | cons m l ih =>
    rw [validate_values]
    have hm := h m (.head _)
    have hl := ih fun w hw => h w (.tail _ hw)
    exact (hm.bind fun _ => hl).congr (by rw [forall_mem_cons])

/-- A value is checked with what is known of itself and of its members. -/
theorem field_decides (hfield : field.Checked symbols) (hv : TypesDecide symbols v)
    (harray : ∀ l, v = .array l → ∀ w ∈ l, TypesDecide symbols w)
    (hobject : ∀ l, v = .object l → ∀ m ∈ l, TypesDecide symbols m.2) :
    Decides (varlink_idl_validate_field symbols field (some v)) (IsValue symbols field v) := by
  rw [varlink_idl_validate_field.eq_def]
  dsimp only
  by_cases hnull : v = .null
  · subst hnull
    refine .ite ⟨fun hn h => ?_, fun h hn => h (.null hn)⟩
    cases h with
    | null h => exact hn h
    | plain _ _ h => exact not_isElement_null h
  rw [if_neg fun h => hnull (is_null_iff.mp h)]
  by_cases ha : field.array = true
  · rw [if_pos ha]
    -- anything but an array is refused
    have hrefused : (∀ l, v ≠ .array l) → ¬ IsValue symbols field v := by
      intro hne h
      cases h with
      | null _ => exact hnull rfl
      | array _ _ => exact hne _ rfl
      | map ha' _ _ => rw [ha] at ha'; cases ha'
      | plain ha' _ _ => rw [ha] at ha'; cases ha'
    cases v with
    | array l =>
      refine (elements_decide fun w hw => element_decides hfield (harray l rfl w hw)).congr
        ⟨.array ha, fun h => ?_⟩
      cases h with
      | array _ h => exact h
      | plain ha' _ _ => rw [ha] at ha'; cases ha'
    | _ => exact .err (hrefused (by simp))
  rw [if_neg ha]
  have ha := eq_false_of_ne_true ha
  by_cases hm : field.map = true
  · rw [if_pos hm]
    have hrefused : (∀ l, v ≠ .object l) → ¬ IsValue symbols field v := by
      intro hne h
      cases h with
      | null _ => exact hnull rfl
      | array ha' _ => rw [ha] at ha'; cases ha'
      | map _ _ _ => exact hne _ rfl
      | plain _ hm' _ => rw [hm] at hm'; cases hm'
    cases v with
    | object l =>
      refine (values_decide fun m hmem => element_decides hfield (hobject l rfl m hmem)).congr
        ⟨.map ha hm, fun h => ?_⟩
      cases h with
      | map _ _ h => exact h
      | plain _ hm' _ => rw [hm] at hm'; cases hm'
    | _ => exact .err (hrefused (by simp))
  rw [if_neg hm]
  have hm := eq_false_of_ne_true hm
  refine ((element_decides hfield hv).bind fun _ => .ok (P := True) trivial).congr
    ⟨fun h => .plain ha hm h.1, fun h => ?_⟩
  cases h with
  | null _ => exact absurd rfl hnull
  | array ha' _ => rw [ha] at ha'; cases ha'
  | map _ hm' _ => rw [hm] at hm'; cases hm'
  | plain _ _ h => exact ⟨h, trivial⟩

/-! ## Section 5: Objects -/

/-- What the first loop over an object asks of a field. -/
def FieldOk (symbols : List Symbol) (l : List (List UInt8 × Variant R)) (field : Field) : Prop :=
  (∀ m ∈ l, field.name = m.1 → IsValue symbols field m.2) ∧
    (field.nullable = false → ∃ m ∈ l, m.1 = field.name ∧ m.2 ≠ .null)

/-- The values of an object, with their own members. -/
def MembersDecide (symbols : List Symbol) (l : List (List UInt8 × Variant R)) : Prop :=
  ∀ m ∈ l, ∀ field : Field, field.Checked symbols →
    Decides (varlink_idl_validate_field symbols field (some m.2)) (IsValue symbols field m.2)

/-- The member with the name of the field is checked, if there is one. -/
theorem by_key_decides (hl : (l.map (·.1)).Nodup) (hfield : field.Checked symbols)
    (hmem : MembersDecide symbols l) :
    Decides (varlink_idl_validate_field symbols field ((Variant.object l).by_key field.name))
      (FieldOk symbols l field) := by
  cases hkey : (object l).by_key field.name with
  | none =>
    rw [varlink_idl_validate_field]
    have habsent := by_key_eq_none.mp hkey
    refine .ite ⟨fun hn hok => ?_, fun h hn => ?_⟩
    · obtain ⟨m, hm, he, _⟩ := hok.2 (eq_false_of_ne_true hn)
      exact habsent m hm he
    · refine h ⟨fun m hm he => absurd he.symm (habsent m hm), fun hf => ?_⟩
      rw [hn] at hf
      cases hf
  | some v =>
    have hv := (by_key_eq_some hl).mp hkey
    -- any member of this name is this one
    have honly : ∀ m ∈ l, field.name = m.1 → m.2 = v := by
      intro m hm he
      have hm' : (object l).by_key field.name = some m.2 :=
        (by_key_eq_some hl).mpr (by rw [he]; exact hm)
      exact some.inj (hm'.symm.trans hkey)
    refine (hmem _ hv field hfield).congr ⟨fun h => ⟨fun m hm he => ?_, fun hn => ?_⟩, fun h => ?_⟩
    · rw [honly m hm he]
      exact h
    · refine ⟨_, hv, rfl, fun hnull => ?_⟩
      rw [show v = .null from hnull] at h
      cases h with
      | null h => rw [hn] at h; cases h
      | plain _ _ h => exact not_isElement_null h
    · exact h.1 _ hv rfl

/-- The first loop. -/
theorem fields_decide (hl : (l.map (·.1)).Nodup) (direction : FieldDirection)
    (hmem : MembersDecide symbols l) {fields : List Field}
    (hfields : ∀ field ∈ fields, field.field_type ≠ .FIELD_COMMENT → field.Checked symbols) :
    Decides (validate_fields symbols direction (.object l) fields).1
      (∀ field ∈ fields, field.field_type ≠ .FIELD_COMMENT → field.field_direction = direction →
        FieldOk symbols l field) := by
  induction fields with
  | nil =>
    rw [validate_fields]
    exact .ok (by simp)
  | cons field fields ih =>
    have ih := ih fun f hf => hfields f (.tail _ hf)
    rw [validate_fields]
    by_cases hc : field.field_type = .FIELD_COMMENT
    · rw [if_pos hc]
      exact ih.congr (by simp [hc])
    rw [if_neg hc]
    by_cases hd : field.field_direction = direction
    · rw [if_neg (not_not.mpr hd)]
      have hfield := by_key_decides hl (hfields field (.head _) hc) hmem
      have hboth : Decides (varlink_idl_validate_field symbols field
          ((object l).by_key field.name) >>= fun _ =>
            (validate_fields symbols direction (.object l) fields).1)
          (∀ f ∈ field :: fields, f.field_type ≠ .FIELD_COMMENT → f.field_direction = direction →
            FieldOk symbols l f) := by
        refine (hfield.bind fun _ => ih).congr ?_
        simp [hc, hd]
      cases hr : varlink_idl_validate_field symbols field ((object l).by_key field.name) with
      | ok n => rw [hr] at hboth; exact hboth
      | err e => rw [hr] at hboth; exact hboth
      | abort => exact absurd hr hfield.1
    · rw [if_pos hd]
      exact ih.congr (by simp [hd])

end element

/-- The second loop asks whether each key is the name of a field. -/
theorem find_undefined_eq_none {symbol : Symbol} (hname : ∀ field ∈ symbol.proper, field.name ≠ [])
    {l : List (List UInt8 × Variant R)} :
    find_undefined symbol l = none ↔ ∀ m ∈ l, ∃ field ∈ symbol.proper, field.name = m.1 := by
  induction l with
  | nil => simp [find_undefined]
  | cons m l ih =>
    rw [forall_mem_cons, ← varlink_idl_find_field_isSome hname, ← ih, find_undefined]
    cases hf : varlink_idl_find_field symbol m.1 with
    | none => simp
    | some field => simp

theorem find_enum_value_eq {s : List UInt8} {fields : List Field}
    (hfields : ∀ field ∈ fields, field.field_type ≠ .FIELD_COMMENT →
      field.field_type = .ENUM_VALUE) : ∃ b, find_enum_value s fields = .ok b ∧
      (b = true ↔ ∃ field ∈ fields, field.field_type ≠ .FIELD_COMMENT ∧ field.name = s) := by
  induction fields with
  | nil => exact ⟨false, rfl, by simp⟩
  | cons field fields ih =>
    obtain ⟨b, hb, hiff⟩ := ih fun f hf => hfields f (.tail _ hf)
    unfold find_enum_value
    by_cases hc : field.field_type = .FIELD_COMMENT
    · exact ⟨b, by rw [if_pos hc, hb], by simp [hiff, hc]⟩
    rw [if_neg hc, if_neg (not_not.mpr (hfields field (.head _) hc))]
    by_cases hs : field.name = s
    · exact ⟨true, by rw [if_pos hs], by simp [hc, hs]⟩
    · exact ⟨b, by rw [if_neg hs, hb], by simp [hiff, hs]⟩

/-! ## Section 6: Symbols -/

section symbol
variable {symbols : List Symbol} {symbol : Symbol} {v : Variant R}

theorem Symbol.Consistent.checked (h : symbol.Consistent symbols)
    (hne : symbol.symbol_type ≠ .ENUM_TYPE) {field : Field} (hf : field ∈ symbol.fields)
    (hc : field.field_type ≠ .FIELD_COMMENT) : field.Checked symbols :=
  ⟨hc, symbol, hne, h field (Symbol.mem_proper.mpr ⟨hf, hc⟩)⟩

/-- Symbols that describe objects. -/
def Symbol.OfObjects (symbol : Symbol) : Prop :=
  symbol.symbol_type = .STRUCT_TYPE ∨ symbol.symbol_type = .METHOD ∨ symbol.symbol_type = .ERROR

/-- An object is checked in two loops. -/
theorem object_eq (ht : symbol.OfObjects) (l : List (List UInt8 × Variant R))
    (direction : FieldDirection) :
    varlink_idl_validate_symbol symbols symbol (.object l) direction =
      match validate_fields symbols direction (.object l) symbol.fields with
      | (.ok _, _) =>
        match find_undefined symbol l with
        | some name => (.err .EBUSY, some name)
        | none => (.ok 1, none)
      | refused => refused := by
  rw [varlink_idl_validate_symbol.eq_def]
  rcases ht with ht | ht | ht
  · rw [ht]
  · rw [ht]
  · rw [ht]

/-- An object is accepted with any fields that are known, whatever their
    direction, if those of the direction are right. -/
theorem object_decides (h : symbol.Consistent symbols) (ht : symbol.OfObjects) {l : List (List UInt8 × Variant R)}
    (hl : (l.map (·.1)).Nodup) (hmem : MembersDecide symbols l) (direction : FieldDirection) :
    Decides (varlink_idl_validate_symbol symbols symbol (.object l) direction).1
      (Conforms symbols symbol.proper (symbol.fields_of direction) l) := by
  have hne : symbol.symbol_type ≠ .ENUM_TYPE := by
    rcases ht with ht | ht | ht
    · simp [ht]
    · simp [ht]
    · simp [ht]
  have hname : ∀ field ∈ symbol.proper, field.name ≠ [] := fun field hf => (h field hf).name
  have hfields := fields_decide hl direction hmem fun field hf hc =>
    h.checked hne hf hc
  rw [object_eq ht]
  -- the fields the first loop has looked at are those of the direction
  have hconforms : Conforms symbols symbol.proper (symbol.fields_of direction) l ↔
      (∀ field ∈ symbol.fields, field.field_type ≠ .FIELD_COMMENT →
        field.field_direction = direction → FieldOk symbols l field) ∧
      ∀ m ∈ l, ∃ field ∈ symbol.proper, field.name = m.1 := by
    refine ⟨fun hc => ?_, fun ⟨hok, hdecl⟩ => ?_⟩
    · cases hc with
      | mk declared valid present =>
        refine ⟨fun field hf hc hd => ?_, declared⟩
        have hmem : field ∈ symbol.fields_of direction :=
          Symbol.mem_fields_of.mpr ⟨Symbol.mem_proper.mpr ⟨hf, hc⟩, hd⟩
        exact ⟨fun m hm he => valid m hm field hmem he, present field hmem⟩
    · have hall : ∀ field ∈ symbol.fields_of direction, FieldOk symbols l field := by
        intro field hf
        obtain ⟨hp, hd⟩ := Symbol.mem_fields_of.mp hf
        obtain ⟨hf, hc⟩ := Symbol.mem_proper.mp hp
        exact hok field hf hc hd
      exact .mk hdecl (fun m hm field hf he => (hall field hf).1 m hm he)
        fun field hf => (hall field hf).2
  obtain ⟨habort, hiff⟩ := hfields
  cases hr : validate_fields symbols direction (.object l) symbol.fields with
  | mk r bad_field =>
    rw [hr] at habort hiff
    cases r with
    | abort => exact absurd rfl habort
    | err e =>
      refine .err fun hc => ?_
      have hok := hiff.mpr (hconforms.mp hc).1
      simp [isOk] at hok
    | ok n =>
      have hok := hiff.mp rfl
      cases hu : find_undefined symbol l with
      | none => exact .ok (hconforms.mpr ⟨hok, (find_undefined_eq_none hname).mp hu⟩)
      | some name =>
        refine .err fun hc => ?_
        have hnone := (find_undefined_eq_none hname).mpr (hconforms.mp hc).2
        rw [hu] at hnone
        cases hnone

theorem not_object_eq (ht : symbol.OfObjects) (hv : ∀ l, v ≠ .object l) (direction : FieldDirection) :
    varlink_idl_validate_symbol symbols symbol v direction = (.err .EMEDIUMTYPE, symbol.name) := by
  rw [varlink_idl_validate_symbol.eq_def]
  rcases ht with ht | ht | ht
  · rw [ht]; cases v <;> simp_all
  · rw [ht]; cases v <;> simp_all
  · rw [ht]; cases v <;> simp_all

/-- In a symbol without directions all fields are those of the direction. -/
theorem Symbol.Consistent.fields_of_regular (h : symbol.Consistent symbols)
    (ht : symbol.symbol_type ≠ .METHOD) : symbol.fields_of .REGULAR = symbol.proper := by
  unfold Symbol.fields_of
  rw [filter_eq_self]
  intro field hf
  exact decide_eq_true ((h field hf).direction.mpr ht)

/-- A value is checked against the types with what is known of its members. -/
theorem types_decide_of (hc : Consistent symbols)
    (hobject : ∀ l, v = .object l → (l.map (·.1)).Nodup ∧ MembersDecide symbols l) :
    TypesDecide symbols v := by
  intro symbol hs ht
  rcases ht with ht | ht
  · by_cases hv : ∃ l, v = .object l
    · obtain ⟨l, rfl⟩ := hv
      obtain ⟨hl, hmem⟩ := hobject l rfl
      refine (object_decides (hc symbol hs) (.inl ht) hl hmem .REGULAR).congr ?_
      have hfields := (hc symbol hs).fields_of_regular (by simp [ht])
      refine ⟨fun h => .struct ht (by rw [hfields] at h ⊢; exact h), fun h => ?_⟩
      cases h with
      | struct _ h => rw [hfields] at h ⊢; exact h
    · have hv : ∀ l, v ≠ .object l := fun l he => hv ⟨l, he⟩
      rw [not_object_eq (.inl ht) hv]
      refine .err fun h => ?_
      cases h with
      | enum ht' _ => rw [ht] at ht'; cases ht'
      | struct _ _ => exact hv _ rfl
  · have hvalues : ∀ field ∈ symbol.fields, field.field_type ≠ .FIELD_COMMENT →
        field.field_type = .ENUM_VALUE := fun field hf hcomment =>
      (hc symbol hs field (Symbol.mem_proper.mpr ⟨hf, hcomment⟩)).enum_value.mpr ht
    rw [varlink_idl_validate_symbol.eq_def, ht]
    cases v with
    | string s =>
      dsimp only
      obtain ⟨b, hb, hiff⟩ := find_enum_value_eq (s := s) hvalues
      rw [hb]
      have htype : (∃ field ∈ symbol.fields, field.field_type ≠ .FIELD_COMMENT ∧ field.name = s) ↔
          IsType symbols symbol (.string s : Variant R) := by
        refine ⟨fun ⟨field, hf, hcomment, he⟩ =>
          .enum ht ⟨field, Symbol.mem_proper.mpr ⟨hf, hcomment⟩, he⟩, fun h => ?_⟩
        cases h with
        | enum _ h =>
          obtain ⟨field, hf, he⟩ := h
          obtain ⟨hf, hcomment⟩ := Symbol.mem_proper.mp hf
          exact ⟨field, hf, hcomment, he⟩
      cases b with
      | true => exact .ok (htype.mp (hiff.mp rfl))
      | false => exact .err fun h => by cases hiff.mpr (htype.mpr h)
    | object l =>
      refine .err fun h => ?_
      cases h with
      | struct ht' _ => rw [ht] at ht'; cases ht'
    | _ => exact .err nofun

/-- **Checking decides**: of a value of any depth, against any type and any
    field. By induction on the value, each level from those below it. -/
theorem value_decides (hc : Consistent symbols) (hv : v.DistinctKeys) :
    TypesDecide symbols v ∧ ∀ field : Field, field.Checked symbols →
      Decides (varlink_idl_validate_field symbols field (some v)) (IsValue symbols field v) := by
  have hself : ∀ w : Variant R,
      (∀ l, w = .object l → (l.map (·.1)).Nodup ∧ MembersDecide symbols l) →
      (∀ l, w = .array l → ∀ u ∈ l, TypesDecide symbols u) →
      (∀ l, w = .object l → ∀ m ∈ l, TypesDecide symbols m.2) →
      TypesDecide symbols w ∧ ∀ field : Field, field.Checked symbols →
        Decides (varlink_idl_validate_field symbols field (some w)) (IsValue symbols field w) :=
    fun w hobject harray hmembers =>
      ⟨types_decide_of hc hobject, fun field hf =>
        field_decides hf (types_decide_of hc hobject) harray hmembers⟩
  induction hv with
  | array h ih =>
    refine hself _ (by simp) (fun l he u hu => ?_) (by simp)
    cases he
    exact (ih u hu).1
  | object hl h ih =>
    refine hself _ (fun l he => ?_) (by simp) (fun l he m hm => ?_)
    · cases he
      exact ⟨hl, fun m hm => (ih m hm).2⟩
    · cases he
      exact (ih m hm).1
  | _ => exact hself _ (by simp) (by simp) (by simp)

end symbol

/-! ## Section 7: Values do not fail like flags -/

section quiet
variable {symbols : List Symbol} {field : Field}

theorem validate_base_type_ne (field_type : FieldType) (v : Variant R) :
    validate_base_type field_type v ≠ .err .EBADE := by
  unfold validate_base_type
  cases field_type <;> dsimp only <;> first | (split <;> simp) | simp

theorem bind_ne {x : Outcome Nat} {f : Nat → Outcome Nat} (hx : x ≠ .err .EBADE)
    (hf : ∀ n, f n ≠ .err .EBADE) : (x >>= f) ≠ .err .EBADE := by
  cases x with
  | ok n => exact hf n
  | err e => exact hx
  | abort => nofun

theorem elements_ne {l : List (Variant R)}
    (h : ∀ v ∈ l, varlink_idl_validate_field_element_type symbols field v ≠ .err .EBADE) :
    validate_elements symbols field l ≠ .err .EBADE := by
  induction l with
  | nil =>
    rw [validate_elements]
    nofun
  | cons v l ih =>
    rw [validate_elements]
    exact bind_ne (h v (.head _)) fun _ => ih fun w hw => h w (.tail _ hw)

variable {l : List (List UInt8 × Variant R)}

theorem values_ne
    (h : ∀ m ∈ l, varlink_idl_validate_field_element_type symbols field m.2 ≠ .err .EBADE) :
    validate_values symbols field l ≠ .err .EBADE := by
  induction l with
  | nil =>
    rw [validate_values]
    nofun
  | cons m l ih =>
    rw [validate_values]
    exact bind_ne (h m (.head _)) fun _ => ih fun w hw => h w (.tail _ hw)

theorem fields_ne (direction : FieldDirection)
    (h : ∀ m ∈ l, ∀ field, varlink_idl_validate_field symbols field (some m.2) ≠ .err .EBADE)
    (fields : List Field) :
    (validate_fields symbols direction (.object l) fields).1 ≠ .err .EBADE := by
  induction fields with
  | nil =>
    rw [validate_fields]
    nofun
  | cons field fields ih =>
    rw [validate_fields]
    split
    · exact ih
    split
    · exact ih
    have hfield : varlink_idl_validate_field symbols field ((object l).by_key field.name) ≠
        .err .EBADE := by
      cases hkey : (object l).by_key field.name with
      | none =>
        rw [varlink_idl_validate_field]
        split <;> simp
      | some v =>
        obtain ⟨m, hm, rfl⟩ := map_eq_some_iff.mp hkey
        exact h m (mem_of_find?_eq_some hm) field
    split
    · next e heq =>
      rw [heq] at hfield
      exact fun he => hfield (congrArg _ (err.inj he))
    · simp
    · exact ih

theorem find_enum_value_ne (s : List UInt8) (fields : List Field) :
    find_enum_value s fields ≠ .err .EBADE := by
  induction fields with
  | nil => nofun
  | cons field fields ih =>
    unfold find_enum_value
    split
    · exact ih
    split
    · simp
    split
    · simp
    · exact ih

variable {v : Variant R}

theorem symbol_ne {direction : FieldDirection}
    (h : ∀ l, v = .object l → ∀ m ∈ l, ∀ field, varlink_idl_validate_field symbols field (some m.2) ≠ .err .EBADE)
    (symbol : Symbol) :
    (varlink_idl_validate_symbol symbols symbol v direction).1 ≠ .err .EBADE := by
  by_cases ht : symbol.OfObjects
  · by_cases hv : ∃ l, v = .object l
    · obtain ⟨l, rfl⟩ := hv
      have hfields := fields_ne direction (h l rfl) symbol.fields
      rw [object_eq ht]
      split
      · split <;> simp
      · exact hfields
    · rw [not_object_eq ht fun l he => hv ⟨l, he⟩]
      simp
  · rw [varlink_idl_validate_symbol.eq_def]
    cases hs : symbol.symbol_type with
    | ENUM_TYPE =>
      cases v with
      | string s =>
        have henum := find_enum_value_ne s symbol.fields
        dsimp only
        split
        · simp
        · simp
        · next e heq =>
          rw [heq] at henum
          exact fun he => henum (congrArg _ (err.inj he))
        · simp
      | _ => simp
    | STRUCT_TYPE => exact absurd (.inl hs) ht
    | METHOD => exact absurd (.inr (.inl hs)) ht
    | ERROR => exact absurd (.inr (.inr hs)) ht
    | INTERFACE_COMMENT => simp
    | SYMBOL_COMMENT => simp

theorem element_ne
    (h : ∀ symbol, (varlink_idl_validate_symbol symbols symbol v .REGULAR).1 ≠ .err .EBADE) :
    varlink_idl_validate_field_element_type symbols field v ≠ .err .EBADE := by
  by_cases hv : v = .null
  · subst hv
    rw [varlink_idl_validate_field_element_type]
    nofun
  by_cases ht : field.field_type.Typed
  · cases hs : field.symbol.bind fun p => symbols[p]? with
    | none =>
      rw [varlink_idl_validate_field_element_type, if_neg (fun h => hv (is_null_iff.mp h)), hs]
      rcases ht with ht | ht | ht
      · rw [ht]; nofun
      · rw [ht]; nofun
      · rw [ht]; nofun
    | some symbol =>
      obtain ⟨p, hp, hs⟩ := bind_eq_some_iff.mp hs
      rw [element_type_eq_symbol hv ht hp hs]
      exact h symbol
  · rw [element_type_eq_base hv ht]
    exact validate_base_type_ne _ _

theorem field_ne
    (h : ∀ field, varlink_idl_validate_field_element_type symbols field v ≠ .err .EBADE)
    (harray : ∀ l, v = .array l → ∀ w ∈ l, ∀ field, varlink_idl_validate_field_element_type symbols field w ≠ .err .EBADE)
    (hobject : ∀ l, v = .object l → ∀ m ∈ l, ∀ field, varlink_idl_validate_field_element_type symbols field m.2 ≠ .err .EBADE) :
    varlink_idl_validate_field symbols field (some v) ≠ .err .EBADE := by
  rw [varlink_idl_validate_field.eq_def]
  dsimp only
  split
  · split <;> simp
  split
  · cases v with
    | array l => exact elements_ne fun w hw => harray l rfl w hw field
    | _ => simp
  split
  · cases v with
    | object l => exact values_ne fun m hm => hobject l rfl m hm field
    | _ => simp
  · exact bind_ne (h field) fun _ => by simp

/-- Whatever is wrong with a value, it is not said in the way in which flags
    are refused. -/
theorem validate_ne (symbols : List Symbol) (v : Variant R) :
    (∀ field, varlink_idl_validate_field_element_type symbols field v ≠ .err .EBADE) ∧
      ∀ field, varlink_idl_validate_field symbols field (some v) ≠ .err .EBADE := by
  have hself : ∀ w : Variant R,
      (∀ l, w = .array l → ∀ u ∈ l,
        (∀ field, varlink_idl_validate_field_element_type symbols field u ≠ .err .EBADE) ∧
          ∀ field, varlink_idl_validate_field symbols field (some u) ≠ .err .EBADE) →
      (∀ l, w = .object l → ∀ m ∈ l,
        (∀ field, varlink_idl_validate_field_element_type symbols field m.2 ≠ .err .EBADE) ∧
          ∀ field, varlink_idl_validate_field symbols field (some m.2) ≠ .err .EBADE) →
      (∀ field, varlink_idl_validate_field_element_type symbols field w ≠ .err .EBADE) ∧
        ∀ field, varlink_idl_validate_field symbols field (some w) ≠ .err .EBADE := by
    intro w harray hobject
    have helement : ∀ field, varlink_idl_validate_field_element_type symbols field w ≠ .err .EBADE :=
      fun field => element_ne fun symbol => symbol_ne (fun l he m hm => (hobject l he m hm).2) symbol
    exact ⟨helement, fun field => field_ne helement (fun l he u hu => (harray l he u hu).1)
      fun l he m hm => (hobject l he m hm).1⟩
  induction v using ind with
  | null => exact hself _ (by simp) (by simp)
  | boolean b => exact hself _ (by simp) (by simp)
  | integer i => exact hself _ (by simp) (by simp)
  | unsigned u => exact hself _ (by simp) (by simp)
  | real x => exact hself _ (by simp) (by simp)
  | string s => exact hself _ (by simp) (by simp)
  | array l ih =>
    refine hself _ (fun l' he u hu => ?_) (by simp)
    cases he
    exact ih u hu
  | object l ih =>
    refine hself _ (by simp) fun l' he m hm => ?_
    cases he
    exact ih m hm

/-- `-EBADE` is about the flags of the call. -/
theorem method_call_EBADE {method : Symbol} {v : Option (Variant R)} {flags : MethodFlags}
    (h : (varlink_idl_validate_method_call symbols (some method) v flags).1 = .err .EBADE) :
    method.symbol_type = .METHOD ∧ ((method.requires_more = true ∧ flags.more = false) ∨
      (method.requires_upgrade = true ∧ flags.upgrade = false)) := by
  unfold varlink_idl_validate_method_call at h
  dsimp only at h
  split at h
  · cases h
  next ht =>
  refine ⟨not_not.mp ht, ?_⟩
  split at h
  · next hm => exact .inl ⟨hm.1, eq_false_of_ne_true hm.2⟩
  split at h
  · next hu => exact .inr ⟨hu.1, eq_false_of_ne_true hu.2⟩
  · exact absurd h (symbol_ne (fun l _ m _ => (validate_ne symbols m.2).2) method)

end quiet

/-! ## Section 8: Messages -/

section message
variable {symbols : List Symbol} {symbol : Symbol}

/-- What is there to check, `NULL` being an empty object. -/
def parameters (v : Option (Variant R)) : Variant R := v.getD (.object [])

theorem Conforms.mono {known known' fields : List Field} {l : List (List UInt8 × Variant R)}
    (h : Conforms symbols known fields l) (hk : ∀ field ∈ known, field ∈ known') :
    Conforms symbols known' fields l := by
  cases h with
  | mk declared valid present =>
    refine .mk (fun m hm => ?_) valid present
    obtain ⟨field, hf, he⟩ := declared m hm
    exact ⟨field, hk field hf, he⟩

/-- A message is accepted as declared, unless it has a stray field. -/
theorem accepted_iff_declared (hc : Consistent symbols) (hs : symbol.Consistent symbols)
    (ht : symbol.symbol_type = .METHOD ∨ symbol.symbol_type = .ERROR) {v : Variant R}
    (hv : v.DistinctKeys) (direction : FieldDirection) :
    (((varlink_idl_validate_symbol symbols symbol v direction).1.isOk = true ↔
      Declared symbols symbol direction v) ↔ ¬ Stray symbols symbol direction v) := by
  have ht : symbol.OfObjects := .inr ht
  by_cases hobj : ∃ l, v = .object l
  · obtain ⟨l, rfl⟩ := hobj
    cases hv with
    | object hl h =>
      have hmem : MembersDecide symbols l := fun m hm => (value_decides hc (h m hm)).2
      have haccepted := (object_decides hs ht hl hmem direction).2
      have hdeclared : Declared symbols symbol direction (.object l) ↔
          Conforms symbols (symbol.fields_of direction) (symbol.fields_of direction) l :=
        ⟨fun ⟨_, he, h⟩ => by cases he; exact h, fun h => ⟨l, rfl, h⟩⟩
      rw [haccepted, hdeclared]
      constructor
      · rintro hiff ⟨_, he, hconf, m, hm, hstray⟩
        cases he
        cases hiff.mp hconf with
        | mk declared _ _ =>
          obtain ⟨field, hf, hname⟩ := declared m hm
          exact hstray field hf hname
      · intro hstray
        refine ⟨fun hconf => ?_, fun hconf =>
          hconf.mono fun field hf => (Symbol.mem_fields_of.mp hf).1⟩
        have hdecl : ∀ m ∈ l, ∃ field ∈ symbol.fields_of direction, field.name = m.1 := by
          intro m hm
          by_contra hno
          exact hstray ⟨l, rfl, hconf, m, hm, fun field hf he => hno ⟨field, hf, he⟩⟩
        cases hconf with
        | mk _ valid present => exact .mk hdecl valid present
  · have hobj : ∀ l, v ≠ .object l := fun l he => hobj ⟨l, he⟩
    rw [not_object_eq ht hobj]
    refine iff_of_true (iff_of_false (by simp [isOk]) ?_) ?_
    · rintro ⟨l, he, _⟩
      exact hobj l he
    · rintro ⟨l, he, _⟩
      exact hobj l he

/-- A symbol without directions has no other direction. -/
theorem not_stray_of_regular (hs : symbol.Consistent symbols) (ht : symbol.symbol_type ≠ .METHOD)
    (v : Variant R) : ¬ Stray symbols symbol .REGULAR v := by
  rintro ⟨l, _, hconf, m, hm, hstray⟩
  rw [hs.fields_of_regular ht] at hstray
  cases hconf with
  | mk declared _ _ =>
    obtain ⟨field, hf, he⟩ := declared m hm
    exact hstray field hf he

/-- The flags of the call are those the method takes. -/
def Symbol.TakesCall (method : Symbol) (flags : MethodFlags) : Prop :=
  (method.requires_more = true → flags.more = true) ∧
    (method.requires_upgrade = true → flags.upgrade = true)

/-- A reply may be marked so for this method. -/
def Symbol.TakesReply (method : Symbol) (continues : Bool) : Prop :=
  continues = true → method.supports_more = true ∨ method.requires_more = true

/-- **The checks of messages**, for consistent symbols and values without
    duplicate keys. A method call, and likewise a reply, is accepted exactly
    when it is as declared, unless all that is wrong with it is a field of the
    other direction. Errors are accepted exactly when they are as declared. -/
theorem messages_validated (hc : Consistent symbols) (hs : symbol.Consistent symbols)
    (v : Option (Variant R)) (hv : (parameters v).DistinctKeys) :
    (symbol.symbol_type = .METHOD → ∀ flags, symbol.TakesCall flags →
      (((varlink_idl_validate_method_call symbols (some symbol) v flags).1.isOk = true ↔
        Declared symbols symbol .INPUT (parameters v)) ↔
          ¬ Stray symbols symbol .INPUT (parameters v))) ∧
    (symbol.symbol_type = .METHOD → ∀ continues, symbol.TakesReply continues →
      (((varlink_idl_validate_method_reply symbols (some symbol) v continues).1.isOk = true ↔
        Declared symbols symbol .OUTPUT (parameters v)) ↔
          ¬ Stray symbols symbol .OUTPUT (parameters v))) ∧
    (symbol.symbol_type = .ERROR →
      ((varlink_idl_validate_error symbols (some symbol) v).1.isOk = true ↔
        Declared symbols symbol .REGULAR (parameters v))) := by
  refine ⟨fun ht flags hflags => ?_, fun ht continues hflags => ?_, fun ht => ?_⟩
  · have heq : varlink_idl_validate_method_call symbols (some symbol) v flags =
        varlink_idl_validate_symbol symbols symbol (parameters v) .INPUT := by
      unfold varlink_idl_validate_method_call
      dsimp only
      rw [if_neg (not_not.mpr ht), if_neg fun h => h.2 (hflags.1 h.1),
        if_neg fun h => h.2 (hflags.2 h.1)]
      rfl
    rw [heq]
    exact accepted_iff_declared hc hs (.inl ht) hv .INPUT
  · have heq : varlink_idl_validate_method_reply symbols (some symbol) v continues =
        varlink_idl_validate_symbol symbols symbol (parameters v) .OUTPUT := by
      unfold varlink_idl_validate_method_reply
      dsimp only
      rw [if_neg (not_not.mpr ht), if_neg fun h => (hflags h.1).elim h.2.1 h.2.2]
      rfl
    rw [heq]
    exact accepted_iff_declared hc hs (.inl ht) hv .OUTPUT
  · have heq : varlink_idl_validate_error symbols (some symbol) v =
        varlink_idl_validate_symbol symbols symbol (parameters v) .REGULAR := by
      unfold varlink_idl_validate_error
      dsimp only
      rw [if_neg (not_not.mpr ht)]
      rfl
    rw [heq]
    exact (accepted_iff_declared hc hs (.inr ht) hv .REGULAR).mpr
      (not_stray_of_regular hs (by simp [ht]) _)

end message

/-! ## Section 9: A method with a reply -/

/-- `method Get () -> (size: int)` -/
def get_size : Symbol where
  name := some (ascii "Get")
  symbol_type := .METHOD
  supports_more := false
  requires_more := false
  requires_upgrade := false
  fields := [⟨ascii "size", .INT, false, false, false, .OUTPUT, none⟩]

theorem get_size_consistent : get_size.Consistent [] := by
  intro field hf
  obtain rfl := mem_singleton.mp (show field ∈ [_] from hf)
  exact ⟨by decide, by decide, by simp, by simp, by simp, by decide⟩

/-- `{"size":3}` -/
def size_three : Variant Float := .object [(ascii "size", .integer 3)]

/-- A reply of the right type is accepted. -/
theorem messages_validated_one :
    (varlink_idl_validate_method_reply [] (some get_size) (some size_three) false).1.isOk =
      true := by
  have hfields : get_size.fields_of .OUTPUT =
      [⟨ascii "size", .INT, false, false, false, .OUTPUT, none⟩] := by decide
  have hdecl : Declared [] get_size .OUTPUT (parameters (some size_three)) := by
    refine ⟨_, rfl, ?_⟩
    rw [hfields]
    refine .mk (by simp) (fun m hm field hf _ => ?_) (by simp)
    obtain rfl := mem_singleton.mp hm
    obtain rfl := mem_singleton.mp hf
    exact .plain rfl rfl (.base (.inl ⟨3, rfl⟩))
  have hnot : ¬ Stray [] get_size .OUTPUT (parameters (some size_three)) := by
    rintro ⟨l, he, -, m, hm, hstray⟩
    cases he
    obtain rfl := mem_singleton.mp hm
    exact hstray _ (.head _) rfl
  have h := messages_validated (by simp [Consistent]) get_size_consistent (some size_three)
    (.object (by simp) (by simp; exact .integer 3))
  exact ((h.2.1 rfl false nofun).mpr hnot).mpr hdecl

/-- A call of the method with an array for `size`, which is no argument of
    the call but a number in the reply, is accepted. -/
theorem output_field_in_call :
    ¬ ∀ (symbols : List Symbol) (symbol : Symbol) (v : Variant Float) (flags : MethodFlags),
      Consistent symbols → symbol.Consistent symbols → v.DistinctKeys →
      symbol.symbol_type = .METHOD → symbol.TakesCall flags →
      ((varlink_idl_validate_method_call symbols (some symbol) (some v) flags).1.isOk = true ↔
        Declared symbols symbol .INPUT v) := by
  intro h
  have hiff := h [] get_size (.object [(ascii "size", .array [])]) ⟨false, false, false⟩ (by simp [Consistent])
    get_size_consistent (.object (by simp) (by simp; exact .array (by simp))) rfl ⟨nofun, nofun⟩
  have haccepted : (varlink_idl_validate_method_call [] (some get_size)
      (some (.object [(ascii "size", .array [])]) : Option (Variant Float)) ⟨false, false, false⟩).1.isOk =
        true := by
    simp [varlink_idl_validate_method_call, varlink_idl_validate_symbol, validate_fields, get_size,
      find_undefined, varlink_idl_find_field, ascii, isOk]
  obtain ⟨l, he, hconf⟩ := hiff.mp haccepted
  cases he
  cases hconf with
  | mk declared _ _ =>
    obtain ⟨field, hf, _⟩ := declared _ (.head _)
    have hnone : get_size.fields_of .INPUT = [] := by decide
    cases hf

end SdCompat.Varlink
