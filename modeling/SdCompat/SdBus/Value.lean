import SdCompat.SdBus.MessageAppend

/-! # Values and their marshalled form

    What a message is made of, independent of the code that writes and reads
    it: the types of the wire format, the values of each type, and the bytes a
    value is marshalled to at an offset.
-/

open Bytes

namespace SdCompat.Bus

/-! ## Section 1: Types -/

/-- The types without members. -/
inductive BasicType where
  | fixed (t : FixedType)
  | boolean | string | object_path | signature | unix_fd
  deriving DecidableEq, Repr

def BasicType.code : BasicType → UInt8
  | fixed t => t.code
  | boolean => SD_BUS_TYPE_BOOLEAN
  | string => SD_BUS_TYPE_STRING
  | object_path => SD_BUS_TYPE_OBJECT_PATH
  | signature => SD_BUS_TYPE_SIGNATURE
  | unix_fd => SD_BUS_TYPE_UNIX_FD

def BasicType.align : BasicType → Nat
  | fixed t => (bus_type_get_size t.code).getD 1
  | signature => 1
  | _ => 4

/-- A complete type; a dictionary entry is one only inside an array. -/
inductive Ty where
  | basic (t : BasicType)
  | variant
  | array (elem : Ty)
  | struct (members : List Ty)
  | dict_entry (key : BasicType) (value : Ty)
  deriving Repr

namespace Ty

mutual

/-- The signature of a type. -/
def sig : Ty → List UInt8
  | basic t => [t.code]
  | variant => [SD_BUS_TYPE_VARIANT]
  | array elem => SD_BUS_TYPE_ARRAY :: elem.sig
  | struct members => SD_BUS_TYPE_STRUCT_BEGIN :: sigs members ++ [SD_BUS_TYPE_STRUCT_END]
  | dict_entry key value =>
    SD_BUS_TYPE_DICT_ENTRY_BEGIN :: key.code :: value.sig ++ [SD_BUS_TYPE_DICT_ENTRY_END]

/-- The signatures of some types, one after another. -/
def sigs : List Ty → List UInt8
  | [] => []
  | t :: ts => t.sig ++ sigs ts

end

def align : Ty → Nat
  | basic t => t.align
  | variant => 1
  | array _ => 4
  | _ => 8

mutual

/-- The type may stand where this many arrays and structs are around it. -/
def Ok (allow_dict_entry : Bool) (array_depth struct_depth : Nat) : Ty → Prop
  | basic _ => True
  | variant => True
  | array elem => array_depth < 32 ∧ elem.Ok true (array_depth + 1) struct_depth
  | struct members =>
    struct_depth < 32 ∧ members ≠ [] ∧ AllOk array_depth (struct_depth + 1) members
  | dict_entry _ value =>
    allow_dict_entry = true ∧ struct_depth < 32 ∧ value.Ok false array_depth (struct_depth + 1)

/-- The members of a struct. -/
def AllOk (array_depth struct_depth : Nat) : List Ty → Prop
  | [] => True
  | t :: ts => t.Ok false array_depth struct_depth ∧ AllOk array_depth struct_depth ts

end

theorem sig_ne_nil (t : Ty) : t.sig ≠ [] := by
  cases t <;> simp [sig]

end Ty

/-! ## Section 2: Values -/

/-- A value of a basic type; of a file descriptor it is the index. -/
inductive BasicValue where
  | fixed (t : FixedType) (n : Nat)
  | boolean (b : Bool)
  | string (s : List UInt8)
  | object_path (s : List UInt8)
  | signature (s : List UInt8)
  | unix_fd (index : Nat)
  deriving DecidableEq, Repr

namespace BasicValue

def type : BasicValue → BasicType
  | fixed t _ => .fixed t
  | boolean _ => .boolean
  | string _ => .string
  | object_path _ => .object_path
  | signature _ => .signature
  | unix_fd _ => .unix_fd

/-- The bytes behind the padding. -/
def encode (e : Endian) : BasicValue → List UInt8
  | fixed t n => ofNat e ((bus_type_get_size t.code).getD 1) n
  | boolean b => ofNat e 4 (if b then 1 else 0)
  | string s => ofNat e 4 s.length ++ (s ++ [0])
  | object_path s => ofNat e 4 s.length ++ (s ++ [0])
  | signature s => ofNat e 1 s.length ++ (s ++ [0])
  | unix_fd index => ofNat e 4 index

/-- The value is one that may be sent. -/
def Valid : BasicValue → Prop
  | fixed t n => n < 256 ^ (bus_type_get_size t.code).getD 1
  | boolean _ => True
  | string s => 0 ∉ s ∧ utf8_is_valid s = true ∧ s.length < 0xffffffff
  | object_path s => 0 ∉ s ∧ object_path_is_valid s = true
  | signature s => 0 ∉ s ∧ signature_is_valid s true = true
  | unix_fd index => index < 256 ^ 4

end BasicValue

/-- A value; an array knows the type of its elements. -/
inductive Value where
  | basic (v : BasicValue)
  | variant (v : Value)
  | array (elem : Ty) (vs : List Value)
  | struct (vs : List Value)
  | dict_entry (key : BasicValue) (value : Value)
  deriving Repr

namespace Value

mutual

def type : Value → Ty
  | basic v => .basic v.type
  | variant _ => .variant
  | array elem _ => .array elem
  | struct vs => .struct (types vs)
  | dict_entry key value => .dict_entry key.type value.type

def types : List Value → List Ty
  | [] => []
  | v :: vs => v.type :: types vs

end

mutual

/-- The bytes of a value that starts at this offset, with its padding. -/
def encode (e : Endian) (pos : Nat) : Value → List UInt8
  | basic v => zeroes pos v.type.align ++ v.encode e
  | variant v =>
    ofNat e 1 v.type.sig.length ++ (v.type.sig ++ [0]) ++
      v.encode e (pos + (v.type.sig.length + 2))
  | array elem vs =>
    zeroes pos 4 ++
      ofNat e 4 (encodes e (alignTo (alignTo pos 4 + 4) elem.align) vs).length ++
      zeroes (alignTo pos 4 + 4) elem.align ++
      encodes e (alignTo (alignTo pos 4 + 4) elem.align) vs
  | struct vs => zeroes pos 8 ++ encodes e (alignTo pos 8) vs
  | dict_entry key value =>
    zeroes pos 8 ++ key.encode e ++ value.encode e (alignTo pos 8 + (key.encode e).length)

/-- The bytes of some values, one after another. -/
def encodes (e : Endian) (pos : Nat) : List Value → List UInt8
  | [] => []
  | v :: vs => v.encode e pos ++ encodes e (pos + (v.encode e pos).length) vs

end

theorem encodes_append (e : Endian) (pos : Nat) (vs ws : List Value) : encodes e pos (vs ++ ws) =
      encodes e pos vs ++ encodes e (pos + (encodes e pos vs).length) ws := by
  induction vs generalizing pos with
  | nil => simp [encodes]
  | cons v vs ih =>
    rw [List.cons_append, encodes, encodes, ih, List.append_assoc, List.length_append,
      ← Nat.add_assoc]

/-- Two values, one after the other. -/
theorem encodes_pair (e : Endian) (pos : Nat) (v w : Value) :
    encodes e pos [v, w] = v.encode e pos ++ w.encode e (pos + (v.encode e pos).length) := by
  simp [encodes]

mutual

/-- A value that may be sent: its parts may, the elements of an array have its
    type, and a variant has a complete type. -/
def Valid : Value → Prop
  | basic v => v.Valid
  | variant v =>
    v.Valid ∧ v.type.Ok false 0 0 ∧ v.type.sig.length ≤ SD_BUS_MAXIMUM_SIGNATURE_LENGTH
  | array elem vs => AllValid vs ∧ ∀ t ∈ types vs, t = elem
  | struct vs => AllValid vs
  | dict_entry key value => key.Valid ∧ value.Valid

def AllValid : List Value → Prop
  | [] => True
  | v :: vs => v.Valid ∧ AllValid vs

end

end Value

end SdCompat.Bus
