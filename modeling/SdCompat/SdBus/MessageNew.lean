import SdCompat.SdBus.MessageParse

/-! # New messages (bus-message.c, bus-socket.c)

    The functions that make a message with its header fields,
    `sd_bus_message_seal`, which ends the writing, and the bytes that are sent.
-/

open Bytes

namespace SdCompat.Bus

open Call

/-- The bit of `flags` for `BUS_MESSAGE_NO_REPLY_EXPECTED`. -/
def BUS_MESSAGE_NO_REPLY_EXPECTED : UInt8 := 1

/-! ## Section 1: Header fields -/

/-- `message_extend_fields`, with the bytes that are written to the place it
    makes; `false` for NULL. -/
def message_extend_fields (mem : Bool) (data : List UInt8) : Call SdBusMessage Bool := fun m =>
  if m.poisoned then (.ok false, m)
  else if 0xffffffff < alignTo (sizeof_header + m.fields.length) 8 + data.length then
    (.ok false, { m with poisoned := true })
  else if 0 < padding (sizeof_header + m.fields.length) 8 + data.length && !mem then
    (.ok false, { m with poisoned := true })
  else
    (.ok true, { m with fields := m.fields ++ zeroes (sizeof_header + m.fields.length) 8 ++ data })

/-- A header field: its code, the signature of the variant, which is one type,
    and the value. -/
def message_append_field (mem : Bool) (h type : UInt8) (value : List UInt8) :
    Call SdBusMessage PUnit := do
  if ← message_extend_fields mem ([h, 1, type, 0] ++ value) then pure ⟨⟩
  else fail .ENOMEM

/-- `message_append_field_string`; codes have 8 bits here. -/
def message_append_field_string (mem : Bool) (h type : UInt8) (s : List UInt8) :
    Call SdBusMessage PUnit := do
  check (s.length ≤ 0xffffffff) .EINVAL
  message_append_field mem h type (in_host_order 4 s.length ++ s ++ [0])

/-- `message_append_field_signature` -/
def message_append_field_signature (mem : Bool) (h : UInt8) (s : List UInt8) :
    Call SdBusMessage PUnit := do
  check (s.length ≤ SD_BUS_MAXIMUM_SIGNATURE_LENGTH) .EINVAL
  message_append_field mem h SD_BUS_TYPE_SIGNATURE (in_host_order 1 s.length ++ s ++ [0])

/-- `message_append_field_uint32` -/
def message_append_field_uint32 (mem : Bool) (h : UInt8) (x : Nat) : Call SdBusMessage PUnit :=
  message_append_field mem h SD_BUS_TYPE_UINT32 (in_host_order 4 x)

/-- `message_append_reply_cookie` -/
def message_append_reply_cookie (mem : Bool) (cookie : Nat) : Call SdBusMessage PUnit := do
  check (cookie ≤ 0xffffffff) .EOPNOTSUPP
  message_append_field_uint32 mem BUS_MESSAGE_HEADER_REPLY_SERIAL cookie

/-! ## Section 2: Making a message -/

/-- The surroundings of the functions below: what they take from the bus, the
    memory for the message and for each of its header fields, and those of the
    call that appends an error message. -/
structure NewEnv where
  message : Bool
  fields : UInt8 → Bool
  allow_fds : Bool
  interactive : Bool
  append : AppendEnv

/-- Start with a new message of this type, and keep it if all goes well. -/
def made (env : NewEnv) (type : UInt8) (x : Call SdBusMessage PUnit) : Outcome SdBusMessage :=
  if !env.message then .err .ENOMEM
  else
    match x (sd_bus_message_new type env.allow_fds env.interactive) with
    | (.ok _, m) => .ok m
    | (.err e, _) => .err e
    | (.abort, _) => .abort

/-- `_SD_BUS_MESSAGE_TYPE_MAX` -/
def SD_BUS_MESSAGE_TYPE_MAX : UInt8 := 5

/-- `sd_bus_message_new`, for any type. -/
def message_new (env : NewEnv) (type : UInt8) : Outcome SdBusMessage :=
  if !(type < SD_BUS_MESSAGE_TYPE_MAX) then .err .EINVAL
  else made env type (pure ⟨⟩)

/-- `t->header->flags |= BUS_MESSAGE_NO_REPLY_EXPECTED` -/
def expect_no_reply : Call SdBusMessage PUnit :=
  modify fun m => { m with flags := m.flags ||| BUS_MESSAGE_NO_REPLY_EXPECTED }

def append_path (env : NewEnv) (s : List UInt8) : Call SdBusMessage PUnit := do
  message_append_field_string (env.fields BUS_MESSAGE_HEADER_PATH) BUS_MESSAGE_HEADER_PATH
    SD_BUS_TYPE_OBJECT_PATH s
  modify fun m => { m with path := some s }

def append_interface (env : NewEnv) (s : List UInt8) : Call SdBusMessage PUnit := do
  message_append_field_string (env.fields BUS_MESSAGE_HEADER_INTERFACE)
    BUS_MESSAGE_HEADER_INTERFACE SD_BUS_TYPE_STRING s
  modify fun m => { m with interface := some s }

def append_member (env : NewEnv) (s : List UInt8) : Call SdBusMessage PUnit := do
  message_append_field_string (env.fields BUS_MESSAGE_HEADER_MEMBER) BUS_MESSAGE_HEADER_MEMBER
    SD_BUS_TYPE_STRING s
  modify fun m => { m with member := some s }

def append_destination (env : NewEnv) (s : List UInt8) : Call SdBusMessage PUnit := do
  message_append_field_string (env.fields BUS_MESSAGE_HEADER_DESTINATION)
    BUS_MESSAGE_HEADER_DESTINATION SD_BUS_TYPE_STRING s
  modify fun m => { m with destination := some s }

def append_error_name (env : NewEnv) (s : List UInt8) : Call SdBusMessage PUnit := do
  message_append_field_string (env.fields BUS_MESSAGE_HEADER_ERROR_NAME)
    BUS_MESSAGE_HEADER_ERROR_NAME SD_BUS_TYPE_STRING s
  modify fun m => { m with error_name := some s }

/-- What is done with a string that may be NULL. -/
def when_set (s : Option (List UInt8)) (x : List UInt8 → Call SdBusMessage PUnit) :
    Call SdBusMessage PUnit :=
  match s with
  | none => pure ⟨⟩
  | some s => x s

/-- `sd_bus_message_new_signal_to` -/
def sd_bus_message_new_signal_to (env : NewEnv) (destination : Option (List UInt8))
    (path interface member : List UInt8) : Outcome SdBusMessage :=
  if !destination.all service_name_is_valid then .err .EINVAL
  else if !object_path_is_valid path then .err .EINVAL
  else if !interface_name_is_valid interface then .err .EINVAL
  else if !member_name_is_valid member then .err .EINVAL
  else
    made env SD_BUS_MESSAGE_SIGNAL do
      expect_no_reply
      append_path env path
      append_interface env interface
      append_member env member
      when_set destination (append_destination env)

/-- `sd_bus_message_new_method_call` -/
def sd_bus_message_new_method_call (env : NewEnv) (destination : Option (List UInt8))
    (path : List UInt8) (interface : Option (List UInt8)) (member : List UInt8) :
    Outcome SdBusMessage :=
  if !destination.all service_name_is_valid then .err .EINVAL
  else if !object_path_is_valid path then .err .EINVAL
  else if !interface.all interface_name_is_valid then .err .EINVAL
  else if !member_name_is_valid member then .err .EINVAL
  else
    made env SD_BUS_MESSAGE_METHOD_CALL do
      append_path env path
      append_member env member
      when_set interface (append_interface env)
      when_set destination (append_destination env)

/-- `message_new_reply`, with what is done next with the message. -/
def message_new_reply (env : NewEnv) (call : SdBusMessage) (type : UInt8)
    (x : Call SdBusMessage PUnit) : Outcome SdBusMessage :=
  if !call.sealed then .err .EPERM
  else if call.type ≠ SD_BUS_MESSAGE_METHOD_CALL then .err .EINVAL
  else if call.serial = 0 then .err .EOPNOTSUPP
  else
    made env type do
      expect_no_reply
      modify fun m => { m with reply_cookie := call.serial }
      message_append_reply_cookie (env.fields BUS_MESSAGE_HEADER_REPLY_SERIAL) call.serial
      when_set call.sender (append_destination env)
      x

/-- `sd_bus_message_new_method_return` -/
def sd_bus_message_new_method_return (env : NewEnv) (call : SdBusMessage) :
    Outcome SdBusMessage :=
  message_new_reply env call SD_BUS_MESSAGE_METHOD_RETURN (pure ⟨⟩)

/-- `sd_bus_message_new_method_error`, for an error that is set: its name, and
    its message, which may be NULL. -/
def sd_bus_message_new_method_error (env : NewEnv) (call : SdBusMessage) (name : List UInt8)
    (message : Option (List UInt8)) : Outcome SdBusMessage :=
  message_new_reply env call SD_BUS_MESSAGE_METHOD_ERROR do
    append_error_name env name
    when_set message fun s => message_append_basic env.append (.string (some s))

/-! ## Section 3: The end of the writing -/

/-- The allocations of `sd_bus_message_seal`. -/
structure SealEnv where
  signature : Bool
  unix_fds : Bool

/-- If there is a signature, then add it. -/
def append_signature (env : SealEnv) (signature : List UInt8) : Call SdBusMessage PUnit :=
  if signature = [] then pure ⟨⟩
  else message_append_field_signature env.signature BUS_MESSAGE_HEADER_SIGNATURE signature

/-- If there are file descriptors, then add their number. -/
def append_unix_fds (env : SealEnv) (n_fds : Nat) : Call SdBusMessage PUnit :=
  if n_fds = 0 then pure ⟨⟩
  else message_append_field_uint32 env.unix_fds BUS_MESSAGE_HEADER_UNIX_FDS n_fds

/-- `sd_bus_message_seal`; `enforced_reply_signature` is that of the message.
    No part of the body is a memfd. -/
def sd_bus_message_seal (env : SealEnv) (enforced_reply_signature : Option (List UInt8))
    (cookie : Nat) : Call SdBusMessage PUnit := do
  let m ← get
  check (!m.sealed) .EPERM
  check m.containers.isEmpty .EBADMSG
  check (!m.poisoned) .ESTALE
  check (cookie ≤ 0xffffffff) .EOPNOTSUPP
  check (!(m.type == SD_BUS_MESSAGE_METHOD_RETURN &&
    enforced_reply_signature.any (· != m.root_container.signature))) .ENOMSG
  append_signature env m.root_container.signature
  append_unix_fds env m.fds.length
  modify fun m =>
    { m with serial := cookie,
             root_container := { m.root_container with end_ := m.body.length, index := 0 },
             sealed := true }

/-- What the `iovec` of a sealed message has: the header, the fields with
    their padding, and the body. The numbers of the header are in the order of
    the host. -/
def SdBusMessage.serialized (m : SdBusMessage) : List UInt8 :=
  [0x6c, m.type, m.flags, 1] ++ in_host_order 4 m.body.length ++ in_host_order 4 m.serial ++
    in_host_order 4 m.fields.length ++ m.fields ++ zeroes m.fields.length 8 ++ m.body

end SdCompat.Bus
