import SdCompat.SdJson.Variant

/-! # Varlink interfaces (sd-varlink-idl.h, sd-varlink-idl.c)

    The symbols of interface definitions: methods, errors, and struct and enum
    types, with the anonymous symbols that describe fields among them. Where C
    has the address of a symbol there is its place in the list of all symbols.
    The end of the fields of a symbol is the end of a list, so there is no end
    marker.
-/

namespace SdCompat.Varlink

/-- `sd_varlink_symbol_type_t` -/
inductive SymbolType where
  | ENUM_TYPE | STRUCT_TYPE | METHOD | ERROR | INTERFACE_COMMENT | SYMBOL_COMMENT
  deriving DecidableEq, Repr

/-- `sd_varlink_field_type_t` -/
inductive FieldType where
  | STRUCT | ENUM | NAMED_TYPE | BOOL | INT | FLOAT | STRING | OBJECT | ENUM_VALUE
  | FIELD_COMMENT | ANY
  deriving DecidableEq, Repr

/-- `sd_varlink_field_direction_t` -/
inductive FieldDirection where
  | REGULAR | INPUT | OUTPUT
  deriving DecidableEq, Repr

/-- `sd_varlink_field`, with its flags as three fields. -/
structure Field where
  name : List UInt8
  field_type : FieldType
  array : Bool
  map : Bool
  nullable : Bool
  field_direction : FieldDirection
  symbol : Option Nat
  deriving DecidableEq, Repr

/-- `sd_varlink_symbol`, with its flags as three fields. -/
structure Symbol where
  name : Option (List UInt8)
  symbol_type : SymbolType
  supports_more : Bool
  requires_more : Bool
  requires_upgrade : Bool
  fields : List Field
  deriving DecidableEq, Repr

/-- `varlink_idl_find_field` -/
def varlink_idl_find_field (symbol : Symbol) (name : List UInt8) : Option Field :=
  if name = [] then none
  else symbol.fields.find? fun field => field.field_type ≠ .FIELD_COMMENT ∧ field.name = name

namespace Symbol

/-- The fields of a symbol, without comments. -/
def proper (symbol : Symbol) : List Field :=
  symbol.fields.filter fun field => field.field_type ≠ .FIELD_COMMENT

/-- The fields of a direction, without comments. -/
def fields_of (symbol : Symbol) (direction : FieldDirection) : List Field :=
  symbol.proper.filter fun field => field.field_direction = direction

variable {field : Field} {symbol : Symbol}

theorem mem_proper :
    field ∈ symbol.proper ↔ field ∈ symbol.fields ∧ field.field_type ≠ .FIELD_COMMENT := by
  simp [proper]

theorem mem_fields_of {direction : FieldDirection} : field ∈ symbol.fields_of direction ↔
      field ∈ symbol.proper ∧ field.field_direction = direction := by
  simp [fields_of]

end Symbol

/-- A field is found by its name if it has one. -/
theorem varlink_idl_find_field_isSome {symbol : Symbol} {name : List UInt8}
    (hname : ∀ field ∈ symbol.proper, field.name ≠ []) :
    (varlink_idl_find_field symbol name).isSome ↔ ∃ field ∈ symbol.proper, field.name = name := by
  unfold varlink_idl_find_field
  by_cases hn : name = []
  · subst hn
    simp only [if_true, Option.isSome_none, Bool.false_eq_true, false_iff]
    rintro ⟨field, hf, he⟩
    exact hname field hf he
  · simp only [if_neg hn, Symbol.mem_proper]
    simp [and_assoc]

/-! ## Consistent symbols -/

/-- The field says of which type it is, with a symbol where that takes one. -/
structure Field.Consistent (symbols : List Symbol) (symbol : Symbol) (field : Field) : Prop where
  name : field.name ≠ []
  enum_value : field.field_type = .ENUM_VALUE ↔ symbol.symbol_type = .ENUM_TYPE
  struct : field.field_type = .STRUCT → ∃ p s, field.symbol = some p ∧ symbols[p]? = some s ∧
    s.symbol_type = .STRUCT_TYPE
  enum : field.field_type = .ENUM → ∃ p s, field.symbol = some p ∧ symbols[p]? = some s ∧
    s.symbol_type = .ENUM_TYPE
  named_type : field.field_type = .NAMED_TYPE → ∃ p s, field.symbol = some p ∧
    symbols[p]? = some s ∧ (s.symbol_type = .STRUCT_TYPE ∨ s.symbol_type = .ENUM_TYPE)
  /-- Methods have fields for input and for output, and only they have. -/
  direction : field.field_direction = .REGULAR ↔ symbol.symbol_type ≠ .METHOD

/-- All fields of a symbol are consistent. -/
def Symbol.Consistent (symbols : List Symbol) (symbol : Symbol) : Prop :=
  ∀ field ∈ symbol.proper, field.Consistent symbols symbol

/-- All symbols there are are consistent. -/
def Consistent (symbols : List Symbol) : Prop :=
  ∀ symbol ∈ symbols, symbol.Consistent symbols

end SdCompat.Varlink
