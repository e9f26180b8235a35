import SdCompat.SdBus.MessageNew

/-! # Copying messages (bus-message.c)

    `sd_bus_message_copy` reads a message and appends what it reads to another
    one, and `bus_message_remarshal` replaces a message by a copy in the byte
    order of the host.
-/

namespace SdCompat.Bus

open Call

/-! ## Section 1: The body -/

/-- `bus_type_is_container` -/
def bus_type_is_container (c : UInt8) : Bool :=
  c == SD_BUS_TYPE_ARRAY || c == SD_BUS_TYPE_VARIANT || c == SD_BUS_TYPE_STRUCT ||
    c == SD_BUS_TYPE_DICT_ENTRY

/-- The surroundings of the calls that are made while a message is copied, by
    their places: the memory of the reader, what the calls that append find,
    and the results of `fcntl(F_DUPFD_CLOEXEC)` for the descriptors. -/
structure CopyEnv where
  read : ReadEnv
  append : List Nat → AppendEnv
  dup : List Nat → Int → Except Errno Int

/-- What the calls of round number `i` see. -/
def CopyEnv.sub (env : CopyEnv) (i : Nat) : CopyEnv where
  read := env.read.sub i
  append place := env.append (i :: place)
  dup place := env.dup (i :: place)

/-- What a call that appends this value sees. -/
def CopyEnv.append_value (env : CopyEnv) : ReadValue → AppendEnv
  | .unix_fd fd => { env.append [] with dup := env.dup [] fd }
  | _ => env.append []

/-- The type whose values are copied as they are, with this code. -/
def FixedType.of_code (c : UInt8) : Option FixedType :=
  [FixedType.byte, .int16, .uint16, .int32, .uint32, .int64, .uint64, .double].find?
    (·.code == c)

/-- The pointer that is passed on to `sd_bus_message_append_basic`: to the
    string, or to where the value was stored. -/
def basic_arg (type : UInt8) : ReadValue → BasicArg
  | .number n =>
    if type = SD_BUS_TYPE_BOOLEAN then .boolean (some n)
    else
      match FixedType.of_code type with
      | some t => .fixed t n
      | none => .not_basic type
  | .string s =>
    if type = SD_BUS_TYPE_STRING then .string (some s)
    else if type = SD_BUS_TYPE_OBJECT_PATH then .object_path (some s)
    else .signature (some s)
  | .unix_fd fd => .unix_fd (some fd)

/-- The message that is written, and the one that is read. -/
structure Copying where
  m : SdBusMessage
  source : SdBusMessage

/-- A call on the message that is written. -/
def on_message {α : Type} (x : Call SdBusMessage α) : Call Copying α := fun s =>
  ((x s.m).1, { s with m := (x s.m).2 })

/-- A call on the message that is read. -/
def on_source {α : Type} (x : Call SdBusMessage α) : Call Copying α := fun s =>
  ((x s.source).1, { s with source := (x s.source).2 })

mutual

/-- `sd_bus_message_copy`. To run out of fuel is shown as an abort. -/
def sd_bus_message_copy : Nat → CopyEnv → Bool → Call Copying Bool
  | 0, _, _ => abort
  | fuel + 1, env, all => do
    let s ← get
    check (!s.m.sealed) .EPERM
    check s.source.sealed .EPERM
    copy_loop fuel env all false

/-- Its loop. -/
def copy_loop : Nat → CopyEnv → Bool → Bool → Call Copying Bool
  | 0, _, _, _ => abort
  | fuel + 1, env, all, done_something => do
    match ← on_source (sd_bus_message_peek_type (env.read.sub 0) true) with
    | none => pure done_something
    | some p => do
      if bus_type_is_container p.type then do
        let _ ← on_source (sd_bus_message_enter_container (env.read.sub 1) p.type p.contents)
        on_message (sd_bus_message_open_container (env.append []) p.type (p.contents.getD []))
        let _ ← sd_bus_message_copy fuel (env.sub 0) true
        on_message sd_bus_message_close_container
        on_source sd_bus_message_exit_container
      else
        match ← on_source (sd_bus_message_read_basic p.type) with
        -- `assert(r > 0)`
        | none => abort
        | some (_, v) =>
          on_message (sd_bus_message_append_basic (env.append_value v) (basic_arg p.type v))
      if all then copy_loop fuel (env.sub 1) all true else pure true

end

/-! ## Section 2: The message -/

/-- The bit of `flags` for `BUS_MESSAGE_NO_AUTO_START`. -/
def BUS_MESSAGE_NO_AUTO_START : UInt8 := 2

/-- The surroundings of `bus_message_remarshal`; `timeout` is the error of
    `sd_bus_get_method_call_timeout`, if it is called and fails. -/
structure RemarshalEnv where
  new : NewEnv
  copy : CopyEnv
  timeout : Option Errno
  seal_ : SealEnv

/-- `message_append_field_string` into the field of a message that is not set
    yet. -/
def append_name (mem : Bool) (h : UInt8) (set : List UInt8 → SdBusMessage → SdBusMessage)
    (s : Option (List UInt8)) (there : SdBusMessage → Bool) : Call SdBusMessage PUnit := do
  if !there (← get) then
    when_set s fun s => do
      message_append_field_string mem h SD_BUS_TYPE_STRING s
      modify (set s)
  else pure ⟨⟩

/-- The new message, by the type of the old one: its fields up to the
    destination. The name of an error is appended, but the pointer to it goes to
    `error.message`, which no function here reads, and not to `error.name`. -/
def remarshal_new (env : RemarshalEnv) (m : SdBusMessage) : Outcome SdBusMessage :=
  if m.type = SD_BUS_MESSAGE_SIGNAL then
    match m.path, m.interface, m.member with
    | some path, some interface, some member =>
      sd_bus_message_new_signal_to env.new none path interface member
    | _, _, _ => .err .EINVAL
  else if m.type = SD_BUS_MESSAGE_METHOD_CALL then
    match m.path, m.member with
    | some path, some member =>
      sd_bus_message_new_method_call env.new m.destination path m.interface member
    | _, _ => .err .EINVAL
  else if m.type = SD_BUS_MESSAGE_METHOD_RETURN || m.type = SD_BUS_MESSAGE_METHOD_ERROR then
    made env.new m.type do
      modify fun n => { n with reply_cookie := m.reply_cookie }
      message_append_reply_cookie (env.new.fields BUS_MESSAGE_HEADER_REPLY_SERIAL) m.reply_cookie
      if m.type = SD_BUS_MESSAGE_METHOD_ERROR then
        when_set m.error_name
          (message_append_field_string (env.new.fields BUS_MESSAGE_HEADER_ERROR_NAME)
            BUS_MESSAGE_HEADER_ERROR_NAME SD_BUS_TYPE_STRING)
      else pure ⟨⟩
  else .err .EINVAL

/-- The rest of its header. -/
def remarshal_header (env : RemarshalEnv) (m : SdBusMessage) : Call SdBusMessage PUnit := do
  append_name (env.new.fields BUS_MESSAGE_HEADER_DESTINATION) BUS_MESSAGE_HEADER_DESTINATION
    (fun s n => { n with destination := some s }) m.destination (·.destination.isSome)
  append_name (env.new.fields BUS_MESSAGE_HEADER_SENDER) BUS_MESSAGE_HEADER_SENDER
    (fun s n => { n with sender := some s }) m.sender (·.sender.isSome)
  modify fun n =>
    { n with flags := n.flags |||
        (m.flags &&& (BUS_MESSAGE_NO_REPLY_EXPECTED ||| BUS_MESSAGE_NO_AUTO_START)) }

/-- `bus_message_remarshal`: the message that replaces `m`. Its fuel is for the
    copy. -/
def bus_message_remarshal (env : RemarshalEnv) (fuel : Nat) (m : SdBusMessage) :
    Outcome SdBusMessage := do
  let n ← remarshal_new env m
  let run : Call Copying PUnit := do
    on_message (remarshal_header env m)
    let _ ← sd_bus_message_copy fuel env.copy true
    if m.flags &&& BUS_MESSAGE_NO_REPLY_EXPECTED = 0 then
      match env.timeout with
      | some e => fail e
      | none => pure ⟨⟩
    else pure ⟨⟩
    on_message (sd_bus_message_seal env.seal_ none m.serial)
  match run ⟨n, m⟩ with
  | (.ok _, s) => .ok s.m
  | (.err e, _) => .err e
  | (.abort, _) => .abort

end SdCompat.Bus
