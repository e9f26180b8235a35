import SdCompat.SdBus.Label

/-! # The keys of an address (sd-bus.c, bus-internal.c)

    An address is a transport, a colon and keys with values. Addresses are
    separated by `;` and keys by `,`; in a value both are escaped. The cursor
    over the address string is the rest of the string.

    * `parse_address_key_escape`: an escaped value is read back.
-/

namespace SdCompat.Address

open List

open SdCompat.Bus (ascii_isalpha ascii_isdigit)
open SdCompat.Bus (hexchar unhexchar_hexchar high_low)

/-! ## Section 1: The functions of the source -/

/-- `startswith` -/
def startswith (s token : List UInt8) : Option (List UInt8) := memory_startswith s token

/-- Whether the character ends a value. -/
def ends_value (c : UInt8) : Bool := c == 0x3b || c == 0x2c

/-- The loop of `parse_address_key`: the bytes of the value and where it ends. -/
def address_value : List UInt8 → Option (List UInt8 × List UInt8)
  | [] => some ([], [])
  | c :: a =>
    if ends_value c then some ([], c :: a)
    else if c = 0x25 then
      match a with
      | x :: y :: a =>
        match unhexchar x, unhexchar y with
        | some x, some y => (address_value a).map fun (r, a) => ((x <<< 4 ||| y) :: r, a)
        | _, _ => none
      | _ => none
    else (address_value a).map fun (r, a) => (c :: r, a)

/-- `if (*a == ',') a++` -/
def after_comma (a : List UInt8) : List UInt8 :=
  match a with
  | c :: rest => if c = 0x2c then rest else c :: rest
  | [] => []

/-- The start of `parse_address_key`: where the value is, when the key is there. -/
def key_start (p : List UInt8) (key value : Option (List UInt8)) :
    Outcome (Option (List UInt8)) :=
  match key with
  | none => .ok (some p)
  | some key =>
    match startswith p key with
    | some (c :: a) =>
      if c ≠ 0x3d then .ok none
      else if value.isSome then .err .EINVAL
      else .ok (some a)
    | _ => .ok none

/-- `parse_address_key`: the value and the cursor after it, or nothing when
    another key is there. The value is a C string, which an escaped NUL ends. -/
def parse_address_key (p : List UInt8) (key value : Option (List UInt8)) :
    Outcome (Option (List UInt8 × List UInt8)) := do
  match ← key_start p key value with
  | none => .ok none
  | some a =>
    match address_value a with
    | none => .err .EINVAL
    | some (r, a) => .ok (some (r.takeWhile (· ≠ 0), after_comma a))

/-- The loop of `bus_address_escape`. -/
def bus_address_escape : List UInt8 → List UInt8
  | [] => []
  | c :: v =>
    if ascii_isdigit c || ascii_isalpha c || (ascii "_-/.").contains c then
      c :: bus_address_escape v
    else 0x25 :: hexchar (c >>> 4) :: hexchar c :: bus_address_escape v

/-! ## Section 2: Values that were escaped -/

/-- A character that is left as it is neither ends a value nor starts an escape
    code. -/
theorem kept (c : UInt8)
    (h : (ascii_isdigit c || ascii_isalpha c || (ascii "_-/.").contains c) = true) :
    ends_value c = false ∧ c ≠ 0x25 :=
  forall_byte (P := fun c =>
    (ascii_isdigit c || ascii_isalpha c || (ascii "_-/.").contains c) = true →
      ends_value c = false ∧ c ≠ 0x25) (by decide +kernel) c h

/-- The loop reads an escaped value and stops after it. -/
theorem address_value_escape (value : List UInt8) {continuation : List UInt8}
    (hc : ∀ c ∈ continuation.head?, ends_value c = true) :
    address_value (bus_address_escape value ++ continuation) = some (value, continuation) := by
  induction value with
  | nil =>
    cases continuation with
    | nil =>
      rw [bus_address_escape, nil_append, address_value]
    | cons c a =>
      rw [bus_address_escape, nil_append]
      unfold address_value
      rw [if_pos (hc c rfl)]
  | cons c v ih =>
    rw [bus_address_escape]
    by_cases hk : (ascii_isdigit c || ascii_isalpha c || (ascii "_-/.").contains c) = true
    · -- the character stands for itself
      obtain ⟨hend, hne⟩ := kept c hk
      rw [if_pos hk, cons_append]
      unfold address_value
      rw [if_neg (by simp [hend]), if_neg hne, ih]
      rfl
    · -- an escape code: `%` and two digits
      rw [if_neg hk, cons_append, cons_append, cons_append]
      unfold address_value
      rw [if_neg (by decide), if_pos rfl]
      simp only [unhexchar_hexchar, high_low, ih, Option.map_some]

/-- What `bus_address_escape` writes for a key is read back. -/
theorem parse_address_key_escape (key value continuation : List UInt8)
    (hvalue : 0 ∉ value)
    (hc : continuation = [] ∨ (∃ rest, continuation = 0x2c :: rest) ∨
      ∃ rest, continuation = 0x3b :: rest) :
    parse_address_key (key ++ 0x3d :: (bus_address_escape value ++ continuation)) (some key)
      none = .ok (some (value, after_comma continuation)) := by
  have hstart : key_start (key ++ 0x3d :: (bus_address_escape value ++ continuation)) (some key)
      none = .ok (some (bus_address_escape value ++ continuation)) := by
    unfold key_start startswith memory_startswith
    simp
  have hread : address_value (bus_address_escape value ++ continuation)
      = some (value, continuation) := by
    apply address_value_escape
    rcases hc with rfl | ⟨rest, rfl⟩ | ⟨rest, rfl⟩
    · simp
    · simp [ends_value]
    · simp [ends_value]
  have hwhole : value.takeWhile (· ≠ 0) = value := by
    rw [takeWhile_eq_self_iff]
    intro c hcv
    simpa using fun h : c = 0 => hvalue (h ▸ hcv)
  rw [parse_address_key, hstart, Outcome.ok_bind]
  simp only [hread, hwhole]

/-- A path with a blank, a comma and a byte above 127, and another key after
    it. -/
theorem parse_address_key_escape_path :
    parse_address_key (ascii "path" ++ 0x3d :: (bus_address_escape [0x2f, 0x20, 0x2c, 0xff] ++
        ascii ",guid=0")) (some (ascii "path")) none
      = .ok (some ([0x2f, 0x20, 0x2c, 0xff], ascii "guid=0")) :=
  parse_address_key_escape (ascii "path") [0x2f, 0x20, 0x2c, 0xff] (ascii ",guid=0")
    (by decide) (.inr (.inl ⟨ascii "guid=0", rfl⟩))

end SdCompat.Address
