import SdCompat.SdBus.Message

/-! # Appending to a message (bus-message.c)

    The functions that build a message: basic values, containers, space for a
    string.
-/

open Bytes

namespace SdCompat.Bus

open Call

/-- The surroundings of a call: which of its allocations succeed, and the
    result of `fcntl(F_DUPFD_CLOEXEC)`. -/
structure AppendEnv where
  signature : Bool
  fds : Bool
  body : Bool
  padding : Bool
  containers : Bool
  contents : Bool
  dup : Except Errno Int

/-! ## Section 1: Extending the body -/

/-- Add to the number in the array length at this offset. -/
def add_array_size (expand : Nat) (body : List UInt8) (a : Nat) : List UInt8 :=
  replace body a (ofNat BUS_NATIVE_ENDIAN 4 (toNat BUS_NATIVE_ENDIAN (slice body a 4) + expand))

/-- `message_extend_containers` -/
def message_extend_containers (expand : Nat) (m : SdBusMessage) : SdBusMessage :=
  { m with body := (m.containers.filterMap (·.array_size)).foldl (add_array_size expand) m.body }

/-- The message with these bytes put at the next aligned place of the body,
    and the open arrays made longer by what was added. -/
def body_extended (align : Nat) (data : List UInt8) (m : SdBusMessage) : SdBusMessage :=
  message_extend_containers (padding m.body.length align + data.length)
    { m with body := m.body ++ List.replicate (padding m.body.length align) 0 ++ data }

/-- `message_extend_body`, with the bytes that are written to the place it
    makes; returns their offset, or `none` for NULL. `mem` tells whether its
    allocations succeed. -/
def message_extend_body (mem : Bool) (align : Nat) (data : List UInt8) :
    Call SdBusMessage (Option Nat) := fun m =>
  if m.poisoned then (.ok none, m)
  else if 0xffffffff < alignTo m.body.length align + data.length then
    (.ok none, { m with poisoned := true })
  else if 0 < padding m.body.length align + data.length && !mem then
    (.ok none, { m with poisoned := true })
  else
    (.ok (some (alignTo m.body.length align)), body_extended align data m)

/-- The message is poisoned, or the body is extended. -/
theorem message_extend_body_cases (mem : Bool) (align : Nat) (data : List UInt8)
    (m : SdBusMessage) :
    (∃ m', message_extend_body mem align data m = (.ok none, m') ∧ m'.poisoned = true) ∨
    (message_extend_body mem align data m =
        (.ok (some (alignTo m.body.length align)), body_extended align data m) ∧
      alignTo m.body.length align + data.length ≤ 0xffffffff) := by
  unfold message_extend_body
  by_cases hp : m.poisoned
  · exact .inl ⟨m, if_pos hp, hp⟩
  rw [if_neg hp]
  by_cases hs : 0xffffffff < alignTo m.body.length align + data.length
  · exact .inl ⟨_, if_pos hs, rfl⟩
  rw [if_neg hs]
  by_cases hm : 0 < padding m.body.length align + data.length && !mem
  · exact .inl ⟨_, if_pos hm, rfl⟩
  · exact .inr ⟨if_neg hm, by omega⟩

/-- Extend the body, or fail for lack of memory. -/
def extend_body (mem : Bool) (align : Nat) (data : List UInt8) : Call SdBusMessage Nat := do
  match ← message_extend_body mem align data with
  | none => fail .ENOMEM
  | some a => pure a

/-- `strextend` on the signature of the last container. -/
def extend_signature (env : AppendEnv) (t : List UInt8) : Call SdBusMessage PUnit :=
  if env.signature then
    modify fun m => m.update_last fun c => { c with signature := c.signature ++ t }
  else do
    modify fun m => { m with poisoned := true }
    fail .ENOMEM

/-- The signature of the container has what is appended next, which `same`
    tells; where it has come to its end it is extended, but only in the
    top-level container. -/
def next_in_signature (env : AppendEnv) (c : BusMessageContainer) (same : Bool)
    (t : List UInt8) : Call SdBusMessage PUnit :=
  match c.current with
  | some _ => check same Errno.ENXIO
  | none => do
    check (c.enclosing == 0) Errno.ENXIO
    extend_signature env t

/-- Move the index of the last container, unless it is an array. -/
def set_index (index : Nat) (m : SdBusMessage) : SdBusMessage :=
  if m.last_container.enclosing ≠ SD_BUS_TYPE_ARRAY then
    m.update_last fun c => { c with index := index }
  else m

/-! ## Section 2: Basic values -/

/-- The types whose values are copied as they are. -/
inductive FixedType where
  | byte | int16 | uint16 | int32 | uint32 | int64 | uint64 | double
  deriving DecidableEq, Repr

def FixedType.code : FixedType → UInt8
  | byte => SD_BUS_TYPE_BYTE
  | int16 => SD_BUS_TYPE_INT16
  | uint16 => SD_BUS_TYPE_UINT16
  | int32 => SD_BUS_TYPE_INT32
  | uint32 => SD_BUS_TYPE_UINT32
  | int64 => SD_BUS_TYPE_INT64
  | uint64 => SD_BUS_TYPE_UINT64
  | double => SD_BUS_TYPE_DOUBLE

/-- The type code and what the pointer points to, `none` for NULL. Of the
    fixed types it is the number its bytes make. -/
inductive BasicArg where
  | fixed (t : FixedType) (n : Nat)
  | boolean (p : Option Int)
  | string (p : Option (List UInt8))
  | object_path (p : Option (List UInt8))
  | signature (p : Option (List UInt8))
  | unix_fd (p : Option Int)
  /-- A code that is not that of a basic type. -/
  | not_basic (t : UInt8)

def BasicArg.type : BasicArg → UInt8
  | fixed t _ => t.code
  | boolean _ => SD_BUS_TYPE_BOOLEAN
  | string _ => SD_BUS_TYPE_STRING
  | object_path _ => SD_BUS_TYPE_OBJECT_PATH
  | signature _ => SD_BUS_TYPE_SIGNATURE
  | unix_fd _ => SD_BUS_TYPE_UNIX_FD
  | not_basic t => t

/-- A number in the byte order of the host. -/
def in_host_order (w n : Nat) : List UInt8 := ofNat BUS_NATIVE_ENDIAN w n

/-- `message_push_fd`: the copy of the descriptor, to be counted later. -/
def message_push_fd (env : AppendEnv) (fd : Int) : Call SdBusMessage Int := do
  if fd < 0 then fail .EINVAL
  else if !(← get).allow_fds then fail .EOPNOTSUPP
  else
    match env.dup with
    | .error e => fail e
    | .ok copy =>
      if !env.fds then do
        modify fun m => { m with poisoned := true }
        fail .ENOMEM
      else pure copy

/-- What `message_append_basic` writes: alignment and bytes, and the
    descriptor that goes with them; fails if the value is refused. -/
def basic_data (env : AppendEnv) : BasicArg → Call SdBusMessage (Nat × List UInt8 × Option Int)
  | .string p =>
    let s := p.getD []
    if !utf8_is_valid s then fail .EINVAL
    else pure (4, in_host_order 4 s.length ++ s ++ [0], none)
  | .object_path none => fail .EINVAL
  | .object_path (some s) =>
    if !object_path_is_valid s then fail .EINVAL
    else pure (4, in_host_order 4 s.length ++ s ++ [0], none)
  | .signature p =>
    let s := p.getD []
    if !signature_is_valid s true then fail .EINVAL
    else pure (1, in_host_order 1 s.length ++ s ++ [0], none)
  | .boolean p => pure (4, in_host_order 4 (if p.getD 0 ≠ 0 then 1 else 0), none)
  | .unix_fd none => fail .EINVAL
  | .unix_fd (some fd) => do
    let copy ← message_push_fd env fd
    let m ← get
    pure (4, in_host_order 4 m.fds.length, some copy)
  | .fixed t n =>
    match bus_type_get_alignment t.code, bus_type_get_size t.code with
    | some align, some sz => pure (align, in_host_order sz n, none)
    | _, _ => abort
  | .not_basic _ => abort

/-- `message_append_basic` -/
def message_append_basic (env : AppendEnv) (a : BasicArg) : Call SdBusMessage PUnit := do
  let m ← get
  check (!m.sealed) .EPERM
  check (bus_type_is_basic a.type) .EINVAL
  check (!m.poisoned) .ESTALE
  let c := m.last_container
  next_in_signature env c (c.current == some a.type) [a.type]
  let (align, data, fd) ← basic_data env a
  let _ ← extend_body env.body align data
  modify fun m => set_index (c.index + 1) { m with fds := m.fds ++ fd.toList }

/-- `sd_bus_message_append_basic` -/
def sd_bus_message_append_basic (env : AppendEnv) (a : BasicArg) : Call SdBusMessage PUnit :=
  message_append_basic env a

/-- `sd_bus_message_append_string_space`, with what the caller puts in the
    space; the size of the place is computed in `size_t`. -/
def sd_bus_message_append_string_space (env : AppendEnv) (s : List UInt8) :
    Call SdBusMessage PUnit := do
  let m ← get
  check (!m.sealed) .EPERM
  check (!m.poisoned) .ESTALE
  let c := m.last_container
  next_in_signature env c (c.current == some SD_BUS_TYPE_STRING) [SD_BUS_TYPE_STRING]
  let _ ← extend_body env.body 4 (in_host_order 4 s.length ++ s ++ [0])
  modify fun m => set_index (c.index + 1) m

/-! ## Section 3: Containers -/

/-- What `bus_message_open_*` checks when the signature is set already: the
    container is next in it. -/
def signature_has (c : BusMessageContainer) (first : UInt8) (contents : List UInt8)
    (last : List UInt8) : Bool :=
  (first :: contents ++ last).isPrefixOf (c.signature.drop c.index)

/-- `bus_message_open_array`: the offset of the array length. -/
def bus_message_open_array (env : AppendEnv) (c : BusMessageContainer) (contents : List UInt8) :
    Call SdBusMessage (Option Nat) := do
  check (signature_is_single contents true) .EINVAL
  next_in_signature env c (signature_has c SD_BUS_TYPE_ARRAY contents [])
    (SD_BUS_TYPE_ARRAY :: contents)
  match bus_type_get_alignment (contents.headD 0) with
  | none => fail .EINVAL
  | some alignment => do
    let a ← extend_body env.body 4 (in_host_order 4 0)
    let _ ← extend_body env.padding alignment []
    modify fun m => set_index (c.index + 1 + contents.length) m
    pure (some a)

/-- `bus_message_open_variant` -/
def bus_message_open_variant (env : AppendEnv) (c : BusMessageContainer) (contents : List UInt8) :
    Call SdBusMessage (Option Nat) := do
  check (signature_is_single contents false) .EINVAL
  check (contents.head? != some SD_BUS_TYPE_DICT_ENTRY_BEGIN) .EINVAL
  next_in_signature env c (c.current == some SD_BUS_TYPE_VARIANT) [SD_BUS_TYPE_VARIANT]
  let _ ← extend_body env.body 1 (in_host_order 1 contents.length ++ contents ++ [0])
  modify fun m => set_index (c.index + 1) m
  pure none

/-- `bus_message_open_struct` -/
def bus_message_open_struct (env : AppendEnv) (c : BusMessageContainer) (contents : List UInt8) :
    Call SdBusMessage (Option Nat) := do
  check (signature_is_valid contents false) .EINVAL
  next_in_signature env c
    (signature_has c SD_BUS_TYPE_STRUCT_BEGIN contents [SD_BUS_TYPE_STRUCT_END])
    (SD_BUS_TYPE_STRUCT_BEGIN :: contents ++ [SD_BUS_TYPE_STRUCT_END])
  let _ ← extend_body env.body 8 []
  modify fun m => set_index (c.index + 1 + contents.length + 1) m
  pure none

/-- `bus_message_open_dict_entry` -/
def bus_message_open_dict_entry (env : AppendEnv) (c : BusMessageContainer)
    (contents : List UInt8) : Call SdBusMessage (Option Nat) := do
  check (signature_is_pair contents) .EINVAL
  check (c.enclosing == SD_BUS_TYPE_ARRAY) Errno.ENXIO
  check (c.current.isSome && signature_has c SD_BUS_TYPE_DICT_ENTRY_BEGIN contents
    [SD_BUS_TYPE_DICT_ENTRY_END]) Errno.ENXIO
  let _ ← extend_body env.body 8 []
  pure none

/-- The choice among the functions above. -/
def bus_message_open (env : AppendEnv) (c : BusMessageContainer) (type : UInt8)
    (contents : List UInt8) : Call SdBusMessage (Option Nat) :=
  if type = SD_BUS_TYPE_ARRAY then bus_message_open_array env c contents
  else if type = SD_BUS_TYPE_VARIANT then bus_message_open_variant env c contents
  else if type = SD_BUS_TYPE_STRUCT then bus_message_open_struct env c contents
  else if type = SD_BUS_TYPE_DICT_ENTRY then bus_message_open_dict_entry env c contents
  else fail .EINVAL

/-- `sd_bus_message_open_container` -/
def sd_bus_message_open_container (env : AppendEnv) (type : UInt8) (contents : List UInt8) :
    Call SdBusMessage PUnit := do
  let m ← get
  check (!m.sealed) .EPERM
  check (!m.poisoned) .ESTALE
  if !(env.containers && env.contents) then do
    modify fun m => { m with poisoned := true }
    fail .ENOMEM
  else do
    -- the index in the parent container, in case this container is aborted
    modify fun m => m.update_last fun c => { c with saved_index := c.index }
    let c := m.last_container
    let before := m.body.length
    let array_size ← bus_message_open env c type contents
    modify fun m =>
      { m with containers := { enclosing := type, signature := contents, index := 0,
                               saved_index := 0, before := before, begin := 0, end_ := 0,
                               array_size := array_size } :: m.containers }

/-- `sd_bus_message_close_container` -/
def sd_bus_message_close_container : Call SdBusMessage PUnit := do
  let m ← get
  check (!m.sealed) .EPERM
  match m.containers with
  | [] => fail .EINVAL
  | c :: rest => do
    check (!m.poisoned) .ESTALE
    check (c.enclosing == SD_BUS_TYPE_ARRAY || c.current.isNone) .EINVAL
    modify fun m => { m with containers := rest }

end SdCompat.Bus
