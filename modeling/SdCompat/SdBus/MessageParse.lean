import SdCompat.SdBus.MessageRead

/-! # Parsing a message (bus-message.c)

    `bus_message_from_malloc`: the fixed header, then the header fields, which
    are an array of structs of a code and a variant.
-/

open Bytes

namespace SdCompat.Bus

open Call

/-- The four types of message. -/
def SD_BUS_MESSAGE_METHOD_CALL : UInt8 := 1
def SD_BUS_MESSAGE_METHOD_RETURN : UInt8 := 2
def SD_BUS_MESSAGE_METHOD_ERROR : UInt8 := 3
def SD_BUS_MESSAGE_SIGNAL : UInt8 := 4

/-- The codes of the header fields. -/
def BUS_MESSAGE_HEADER_PATH : UInt8 := 1
def BUS_MESSAGE_HEADER_INTERFACE : UInt8 := 2
def BUS_MESSAGE_HEADER_MEMBER : UInt8 := 3
def BUS_MESSAGE_HEADER_ERROR_NAME : UInt8 := 4
def BUS_MESSAGE_HEADER_REPLY_SERIAL : UInt8 := 5
def BUS_MESSAGE_HEADER_DESTINATION : UInt8 := 6
def BUS_MESSAGE_HEADER_SENDER : UInt8 := 7
def BUS_MESSAGE_HEADER_SIGNATURE : UInt8 := 8
def BUS_MESSAGE_HEADER_UNIX_FDS : UInt8 := 9

/-- `BUS_LITTLE_ENDIAN` and `BUS_BIG_ENDIAN` -/
def bus_endian (c : UInt8) : Option Endian :=
  if c = 0x6c then some .little else if c = 0x42 then some .big else none

/-! ## Section 1: Parts of the header fields

    These functions read the fields of a message, and move the index `ri`. -/

/-- The header fields that are read, and their byte order. -/
structure Fields where
  endian : Endian
  fields : List UInt8
  deriving DecidableEq, Repr

namespace Fields

/-- The bytes pointed to. -/
def bytes (f : Fields) (q : BodyRange) : List UInt8 := slice f.fields q.offset q.size

/-- The number there. -/
def bswap (f : Fields) (q : BodyRange) : Nat := toNat f.endian (f.bytes q)

end Fields

/-- `message_peek_fields` -/
def message_peek_fields (f : Fields) (align nbytes : Nat) : Call Nat BodyRange := do
  match peek_part f.fields (← get) align nbytes with
  | none => fail .EBADMSG
  | some q => do
    modify fun _ => q.stop
    pure q

/-- `message_peek_field_uint32` -/
def message_peek_field_uint32 (f : Fields) : Call Nat Nat := do
  let q ← message_peek_fields f 4 4
  pure (f.bswap q)

/-- `message_peek_field_string`; without a validator it is UTF-8. -/
def message_peek_field_string (f : Fields) (valid : Option (List UInt8 → Bool)) :
    Call Nat (List UInt8) := do
  let l ← message_peek_field_uint32 f
  -- avoid overflow right below
  check (l != 0xffffffff) .EBADMSG
  let q ← message_peek_fields f 1 (l + 1)
  check (validate (valid.getD utf8_is_valid) (f.bytes q) l) .EBADMSG
  pure (f.bytes q).dropLast

/-- `message_peek_field_signature` -/
def message_peek_field_signature (f : Fields) : Call Nat (List UInt8) := do
  let q ← message_peek_fields f 1 1
  let l := f.bswap q
  -- avoid overflow right below
  check (l != 0xff) .EBADMSG
  let q ← message_peek_fields f 1 (l + 1)
  check (validate_signature (f.bytes q) l) .EBADMSG
  pure (f.bytes q).dropLast

/-! ## Section 2: Fields that are not known -/

mutual

/-- `message_skip_fields`; `array_size` is `none` for `UINT32_MAX`. To run out
    of fuel is shown as an abort. -/
def message_skip_fields (f : Fields) :
    Nat → Option Nat → List UInt8 → Nat → Call Nat PUnit
  | 0, _, _, _ => abort
  | fuel + 1, array_size, signature, depth => do
    -- maximum container nesting depth
    check (depth < BUS_CONTAINER_DEPTH) .EBADMSG
    let original_index ← get
    message_skip_loop f fuel original_index array_size signature depth

/-- Its loop over the types of the signature. -/
def message_skip_loop (f : Fields) :
    Nat → Nat → Option Nat → List UInt8 → Nat → Call Nat PUnit
  | 0, _, _, _, _ => abort
  | fuel + 1, original_index, array_size, signature, depth => do
    let ri ← get
    if array_size.any (· ≤ ri - original_index) then pure ⟨⟩
    else
      match signature with
      | [] => pure ⟨⟩
      | t :: s =>
        if t = SD_BUS_TYPE_STRING then do
          let _ ← message_peek_field_string f none
          message_skip_loop f fuel original_index array_size s depth
        else if t = SD_BUS_TYPE_OBJECT_PATH then do
          let _ ← message_peek_field_string f (some object_path_is_valid)
          message_skip_loop f fuel original_index array_size s depth
        else if t = SD_BUS_TYPE_SIGNATURE then do
          let _ ← message_peek_field_signature f
          message_skip_loop f fuel original_index array_size s depth
        else if bus_type_is_basic t then
          match bus_type_get_alignment t, bus_type_get_size t with
          | some align, some k => do
            let _ ← message_peek_fields f align k
            message_skip_loop f fuel original_index array_size s depth
          | _, _ => abort
        else if t = SD_BUS_TYPE_ARRAY then
          match signature_element_length s with
          | none => fail .EINVAL
          | some l =>
            if l < 1 then abort
            else
              match bus_type_get_alignment (s.headD 0) with
              | none => fail .EINVAL
              | some alignment => do
                let nas ← message_peek_field_uint32 f
                check (nas ≤ BUS_ARRAY_MAX_SIZE) .EBADMSG
                let _ ← message_peek_fields f alignment 0
                message_skip_fields f fuel (some nas) (s.take l) (depth + 1)
                message_skip_loop f fuel original_index array_size (s.drop l) depth
        else if t = SD_BUS_TYPE_VARIANT then do
          let sig ← message_peek_field_signature f
          message_skip_fields f fuel none sig (depth + 1)
          message_skip_loop f fuel original_index array_size s depth
        else if t = SD_BUS_TYPE_STRUCT || t = SD_BUS_TYPE_DICT_ENTRY then
          match signature_element_length (t :: s) with
          | none => fail .EINVAL
          | some l =>
            if l < 2 then abort
            else do
              message_skip_fields f fuel none (s.take l) (depth + 1)
              message_skip_loop f fuel original_index array_size ((t :: s).drop l) depth
        else fail .EBADMSG

end

/-- Enough fuel at depth zero: at each depth a round for each type. -/
def skip_fields_fuel : Nat := (BUS_CONTAINER_DEPTH + 1) * 258

/-! ## Section 3: The header fields -/

/-- What the header fields of a message say. -/
structure ParsedFields where
  path : Option (List UInt8)
  interface : Option (List UInt8)
  member : Option (List UInt8)
  error_name : Option (List UInt8)
  destination : Option (List UInt8)
  sender : Option (List UInt8)
  signature : Option (List UInt8)
  reply_cookie : Nat
  n_unix_fds_declared : Option Nat
  deriving DecidableEq, Repr

def ParsedFields.none : ParsedFields :=
  ⟨.none, .none, .none, .none, .none, .none, .none, 0, .none⟩

/-- A field that is a string: it is not there yet, its variant has this
    signature, and the string is valid. -/
def string_field (f : Fields) (there : Bool) (signature expected : List UInt8)
    (valid : List UInt8 → Bool) : Call Nat (List UInt8) := do
  check (!there) .EBADMSG
  check (signature == expected) .EBADMSG
  message_peek_field_string f (some valid)

/-- The value of one header field: the `switch` of `message_parse_fields`.
    `mem` tells whether the signature can be copied. -/
def parse_field (f : Fields) (mem : Bool) (field_type : UInt8) (signature : List UInt8)
    (p : ParsedFields) : Call Nat ParsedFields := do
  if field_type = 0 then fail .EBADMSG
  else if field_type = BUS_MESSAGE_HEADER_PATH then do
    let s ← string_field f p.path.isSome signature (ascii "o") object_path_is_valid
    pure { p with path := some s }
  else if field_type = BUS_MESSAGE_HEADER_INTERFACE then do
    let s ← string_field f p.interface.isSome signature (ascii "s") interface_name_is_valid
    pure { p with interface := some s }
  else if field_type = BUS_MESSAGE_HEADER_MEMBER then do
    let s ← string_field f p.member.isSome signature (ascii "s") member_name_is_valid
    pure { p with member := some s }
  else if field_type = BUS_MESSAGE_HEADER_ERROR_NAME then do
    let s ← string_field f p.error_name.isSome signature (ascii "s") error_name_is_valid
    pure { p with error_name := some s }
  else if field_type = BUS_MESSAGE_HEADER_DESTINATION then do
    let s ← string_field f p.destination.isSome signature (ascii "s") service_name_is_valid
    pure { p with destination := some s }
  else if field_type = BUS_MESSAGE_HEADER_SENDER then do
    let s ← string_field f p.sender.isSome signature (ascii "s") service_name_is_valid
    pure { p with sender := some s }
  else if field_type = BUS_MESSAGE_HEADER_SIGNATURE then do
    check p.signature.isNone .EBADMSG
    check (signature == ascii "g") .EBADMSG
    let s ← message_peek_field_signature f
    check mem .ENOMEM
    pure { p with signature := some s }
  else if field_type = BUS_MESSAGE_HEADER_REPLY_SERIAL then do
    check (p.reply_cookie == 0) .EBADMSG
    check (signature == ascii "u") .EBADMSG
    let serial ← message_peek_field_uint32 f
    check (serial != 0) .EBADMSG
    pure { p with reply_cookie := serial }
  else if field_type = BUS_MESSAGE_HEADER_UNIX_FDS then do
    check p.n_unix_fds_declared.isNone .EBADMSG
    check (signature == ascii "u") .EBADMSG
    let n ← message_peek_field_uint32 f
    pure { p with n_unix_fds_declared := some n }
  else do
    message_skip_fields f skip_fields_fuel none signature 0
    pure p

/-- One round of `message_parse_fields`: the code, the signature of the
    variant, and its value. -/
def parse_header_field (f : Fields) (mem : Bool) (p : ParsedFields) : Call Nat ParsedFields := do
  let q ← message_peek_fields f 8 1
  let signature ← message_peek_field_signature f
  parse_field f mem ((f.bytes q).headD 0) signature p

/-- The loop of `message_parse_fields`. Every field takes a byte at least. -/
def parse_fields_loop (f : Fields) (mem : Bool) :
    Nat → ParsedFields → Call Nat ParsedFields
  | 0, p => do
    if (← get) < f.fields.length then abort else pure p
  | fuel + 1, p => do
    if (← get) < f.fields.length then do
      let p ← parse_header_field f mem p
      parse_fields_loop f mem fuel p
    else pure p

/-- The number of descriptors that came matches the number declared; where
    some were cut off there are fewer. -/
def n_fds_valid (n_fds declared : Nat) (got_ctrunc : Bool) : Bool :=
  if declared < n_fds then false
  else if n_fds < declared then got_ctrunc
  else !got_ctrunc

/-- The fields that a message of this type has to have. -/
def required_fields (type : UInt8) (p : ParsedFields) : Bool :=
  if type = SD_BUS_MESSAGE_SIGNAL then
    p.path.isSome && p.interface.isSome && p.member.isSome && p.reply_cookie == 0
  else if type = SD_BUS_MESSAGE_METHOD_CALL then
    p.path.isSome && p.member.isSome && p.reply_cookie == 0
  else if type = SD_BUS_MESSAGE_METHOD_RETURN then p.reply_cookie != 0
  else if type = SD_BUS_MESSAGE_METHOD_ERROR then p.reply_cookie != 0 && p.error_name.isSome
  else true

/-- The message claims to be a local one. -/
def claims_local (p : ParsedFields) : Bool :=
  p.path == some (ascii "/org/freedesktop/DBus/Local") ||
    p.interface == some (ascii "org.freedesktop.DBus.Local") ||
    p.sender == some (ascii "org.freedesktop.DBus.Local")

/-- `message_parse_fields`, up to the error message. -/
def message_parse_fields (f : Fields) (mem : Bool) (type : UInt8) (n_fds : Nat)
    (got_ctrunc : Bool) : Outcome ParsedFields := do
  let p ← (parse_fields_loop f mem f.fields.length .none 0).1
  if !n_fds_valid n_fds (p.n_unix_fds_declared.getD 0) got_ctrunc then .err .EBADMSG
  else if !required_fields type p then .err .EBADMSG
  else if claims_local p then .err .EBADMSG
  else .ok p

/-! ## Section 4: The message -/

/-- The sizes and offsets of `BusMessageHeader`. -/
def sizeof_header : Nat := 16

/-- The parts of a buffer that `message_from_header` accepts. -/
structure RawMessage where
  endian : Endian
  type : UInt8
  flags : UInt8
  serial : Nat
  fields : List UInt8
  body : List UInt8
  deriving DecidableEq, Repr

/-- `message_from_header`; `mem` tells whether the message can be allocated. -/
def message_from_header (mem : Bool) (buffer : List UInt8) : Outcome RawMessage :=
  match buffer with
  | endian :: type :: flags :: version :: rest =>
    if buffer.length < sizeof_header then .err .EBADMSG
    else if !(version == 1 || version == 2) then .err .EBADMSG
    else if type = 0 then .err .EBADMSG
    else
      match bus_endian endian with
      | none => .err .EBADMSG
      | some e =>
        if !mem then .err .ENOMEM
        else
          let body_size := toNat e (slice rest 0 4)
          let serial := toNat e (slice rest 4 4)
          let fields_size := toNat e (slice rest 8 4)
          if serial = 0 then .err .EBADMSG
          else if buffer.length - sizeof_header < alignTo fields_size 8 then .err .EBADMSG
          else if body_size ≠ buffer.length - sizeof_header - alignTo fields_size 8 then
            .err .EBADMSG
          else
            .ok { endian := e, type := type, flags := flags, serial := serial,
                  fields := slice rest 12 fields_size,
                  body := rest.drop (12 + alignTo fields_size 8) }
  | _ => .err .EBADMSG

/-- The message that is made of its parts, before anything of the body is
    read. -/
def RawMessage.message (raw : RawMessage) (p : ParsedFields) (fds : List Int) : SdBusMessage where
  endian := raw.endian
  type := raw.type
  flags := raw.flags
  serial := raw.serial
  fields := raw.fields
  body := raw.body
  path := p.path
  interface := p.interface
  member := p.member
  destination := p.destination
  sender := p.sender
  error_name := p.error_name
  reply_cookie := p.reply_cookie
  fds := fds
  rindex := 0
  root_container :=
    { BusMessageContainer.root with signature := p.signature.getD [], end_ := raw.body.length }
  containers := []
  sealed := true
  poisoned := false
  allow_fds := false

/-- The allocations of `bus_message_from_malloc`. -/
structure ParseEnv where
  message : Bool
  signature : Bool

/-- `bus_message_from_malloc` -/
def bus_message_from_malloc (env : ParseEnv) (buffer : List UInt8) (fds : List Int)
    (got_ctrunc : Bool) : Outcome SdBusMessage := do
  let raw ← message_from_header env.message buffer
  let p ← message_parse_fields ⟨raw.endian, raw.fields⟩ env.signature raw.type fds.length
    got_ctrunc
  let m := raw.message p fds
  if raw.type = SD_BUS_MESSAGE_METHOD_ERROR then
    -- try to read the error message, but if we can't it's a non-issue
    match sd_bus_message_read_basic SD_BUS_TYPE_STRING m with
    | (.abort, _) => .abort
    | (_, m) => .ok m
  else .ok m

end SdCompat.Bus
