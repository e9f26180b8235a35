import SdCompat.SdBus.MessageAppend

/-! # Reading a message (bus-message.c)

    The functions that walk over the body of a sealed message. All lengths and
    all signatures of variants come from the sender of the message.
-/

open Bytes

namespace SdCompat.Bus

open Call

/-- `BUS_CONTAINER_DEPTH` -/
def BUS_CONTAINER_DEPTH : Nat := 128

/-- `BUS_ARRAY_MAX_SIZE` -/
def BUS_ARRAY_MAX_SIZE : Nat := 67108864

/-- Which allocations of a call succeed: each has its place, the numbers of
    the calls on the way to it. -/
def ReadEnv : Type := List Nat → Bool

/-- What the call number `i` sees. -/
def ReadEnv.sub (env : ReadEnv) (i : Nat) : ReadEnv := fun place => env (i :: place)

/-! ## Section 1: Parts of the body -/

/-- A pointer into the body, and how many bytes it is good for. -/
structure BodyRange where
  offset : Nat
  size : Nat
  deriving DecidableEq, Repr

/-- The offset behind it. -/
def BodyRange.stop (q : BodyRange) : Nat := q.offset + q.size

namespace SdBusMessage

/-- The bytes pointed to. -/
def bytes (m : SdBusMessage) (q : BodyRange) : List UInt8 := slice m.body q.offset q.size

/-- `BUS_MESSAGE_BSWAP16`, `BUS_MESSAGE_BSWAP32`, `BUS_MESSAGE_BSWAP64` -/
def bswap (m : SdBusMessage) (q : BodyRange) : Nat := toNat m.endian (m.bytes q)

end SdBusMessage

/-- `message_end_of_signature` -/
def message_end_of_signature (m : SdBusMessage) : Bool := m.last_container.current.isNone

/-- `message_end_of_array` -/
def message_end_of_array (index : Nat) : Call SdBusMessage Bool := do
  let m ← get
  if m.last_container.enclosing ≠ SD_BUS_TYPE_ARRAY then pure false
  else
    match m.last_container.array_size with
    | none => abort
    | some a => pure (m.last_container.begin + m.bswap ⟨a, 4⟩ ≤ index)

/-- What `message_peek_body` and `message_peek_fields` do: the next `nbytes`
    bytes of the buffer, after padding that is zero; `none` for `-EBADMSG`. -/
def peek_part (buf : List UInt8) (rindex align nbytes : Nat) : Option BodyRange :=
  if buf.length < alignTo rindex align then none
  else if buf.length < alignTo rindex align + nbytes then none
  else if !(slice buf rindex (padding rindex align)).all (· == 0) then none
  else some ⟨alignTo rindex align, nbytes⟩

/-- `message_peek_body`. The body of a message that was received is one part,
    so that `find_part` finds it. -/
def message_peek_body (m : SdBusMessage) : Nat → Nat → Nat → Option BodyRange := peek_part m.body

/-- `message_peek_body`, with its error. -/
def peek_body (rindex align nbytes : Nat) : Call SdBusMessage BodyRange := do
  match message_peek_body (← get) rindex align nbytes with
  | none => fail .EBADMSG
  | some q => pure q

/-- `validate_nul`: the string has no NUL in it, and ends with one. -/
def validate_nul (s : List UInt8) (l : Nat) : Bool :=
  !(s.take l).contains 0 && s[l]? == some 0

/-- `validate_string`, `validate_signature` and `validate_object_path`: the
    string ends with a NUL, and what is before it is valid. -/
def validate (valid : List UInt8 → Bool) (s : List UInt8) (l : Nat) : Bool :=
  validate_nul s l && valid (s.take l)

def validate_string : List UInt8 → Nat → Bool := validate utf8_is_valid

def validate_signature : List UInt8 → Nat → Bool := validate (signature_is_valid · true)

def validate_object_path : List UInt8 → Nat → Bool := validate object_path_is_valid

/-! ## Section 2: Basic values -/

/-- A string: four bytes of length, the string, and a NUL. -/
def peek_string (rindex : Nat) (ok : List UInt8 → Nat → Bool) : Call SdBusMessage BodyRange := do
  let q ← peek_body rindex 4 4
  let l := (← get).bswap q
  -- avoid overflow right below
  check (l != 0xffffffff) .EBADMSG
  let s ← peek_body q.stop 1 (l + 1)
  check (ok ((← get).bytes s) l) .EBADMSG
  pure s

/-- A signature: one byte of length, the signature, and a NUL. -/
def peek_signature (rindex : Nat) : Call SdBusMessage BodyRange := do
  let q ← peek_body rindex 1 1
  let l := (← get).bswap q
  -- avoid overflow right below
  check (l != 0xff) .EBADMSG
  let s ← peek_body q.stop 1 (l + 1)
  check (validate_signature ((← get).bytes s) l) .EBADMSG
  pure s

/-- What `sd_bus_message_read_basic` stores: a number, a pointer to a string
    in the body, or a file descriptor. -/
inductive ReadValue where
  | number (n : Nat)
  | string (s : List UInt8)
  | unix_fd (fd : Int)
  deriving DecidableEq, Repr

/-- The value of a basic type at the read index, and where it is. -/
def read_value (type : UInt8) (rindex : Nat) : Call SdBusMessage (BodyRange × ReadValue) := do
  if type = SD_BUS_TYPE_STRING || type = SD_BUS_TYPE_OBJECT_PATH then do
    let q ← peek_string rindex
      (if type = SD_BUS_TYPE_OBJECT_PATH then validate_object_path else validate_string)
    pure (q, .string ((← get).bytes q).dropLast)
  else if type = SD_BUS_TYPE_SIGNATURE then do
    let q ← peek_signature rindex
    pure (q, .string ((← get).bytes q).dropLast)
  else
    match bus_type_get_alignment type, bus_type_get_size type with
    | some align, some sz => do
      let q ← peek_body rindex align sz
      let m ← get
      if type = SD_BUS_TYPE_BOOLEAN then pure (q, .number (if m.bswap q = 0 then 0 else 1))
      else if type = SD_BUS_TYPE_UNIX_FD then
        match m.fds[m.bswap q]? with
        | none => fail .EBADMSG
        | some fd => pure (q, .unix_fd fd)
      else pure (q, .number (m.bswap q))
    | _, _ => abort

/-- Move on to the next type of the last container, unless it is an array. -/
def skip_index (n : Nat) : Call SdBusMessage PUnit :=
  modify fun m => set_index (m.last_container.index + n) m

/-- `m->rindex = rindex` -/
def set_rindex (rindex : Nat) : Call SdBusMessage PUnit :=
  modify fun m => { m with rindex := rindex }

/-- `sd_bus_message_read_basic`; `none` at the end of an array. -/
def sd_bus_message_read_basic (type : UInt8) :
    Call SdBusMessage (Option (BodyRange × ReadValue)) := do
  let m ← get
  check m.sealed .EPERM
  check (bus_type_is_basic type) .EINVAL
  check (!message_end_of_signature m) Errno.ENXIO
  if ← message_end_of_array m.rindex then pure none
  else do
    check (m.last_container.current == some type) Errno.ENXIO
    let (q, v) ← read_value type m.rindex
    set_rindex q.stop
    skip_index 1
    pure (some (q, v))

/-! ### What reading a basic value changes -/

section state
variable (m : SdBusMessage)

theorem peek_body_state (rindex align nbytes : Nat) : (peek_body rindex align nbytes m).2 = m := by
  apply bind_state_same rfl
  intro m'
  cases message_peek_body m' rindex align nbytes with
  | none => rfl
  | some q => rfl

theorem peek_string_state (rindex : Nat) (ok : List UInt8 → Nat → Bool) :
    (peek_string rindex ok m).2 = m := by
  apply bind_state_same (peek_body_state m ..)
  intro q
  apply bind_state_same rfl
  intro m'
  apply bind_state_same (check_state ..)
  intro _
  apply bind_state_same (peek_body_state m ..)
  intro s
  apply bind_state_same rfl
  intro m'
  exact bind_state_same (check_state ..) fun _ => rfl

theorem peek_signature_state (rindex : Nat) : (peek_signature rindex m).2 = m := by
  apply bind_state_same (peek_body_state m ..)
  intro q
  apply bind_state_same rfl
  intro m'
  apply bind_state_same (check_state ..)
  intro _
  apply bind_state_same (peek_body_state m ..)
  intro s
  apply bind_state_same rfl
  intro m'
  exact bind_state_same (check_state ..) fun _ => rfl

theorem read_value_state (type : UInt8) (rindex : Nat) : (read_value type rindex m).2 = m := by
  unfold read_value
  split
  · exact bind_state_same (peek_string_state m ..) fun q => rfl
  split
  · exact bind_state_same (peek_signature_state m ..) fun q => rfl
  match bus_type_get_alignment type, bus_type_get_size type with
  | some align, some sz =>
    apply bind_state_same (peek_body_state m ..)
    intro q
    apply bind_state_same rfl
    intro m'
    by_cases hb : type = SD_BUS_TYPE_BOOLEAN
    · rw [if_pos hb]
      rfl
    rw [if_neg hb]
    by_cases hf : type = SD_BUS_TYPE_UNIX_FD
    · rw [if_pos hf]
      cases m'.fds[m'.bswap q]? with
      | none => rfl
      | some fd => rfl
    · rw [if_neg hf]
      rfl
  | some _, none => rfl
  | none, _ => rfl

theorem message_end_of_array_state (rindex : Nat) : (message_end_of_array rindex m).2 = m := by
  apply bind_state_same rfl
  intro m'
  split
  · rfl
  · cases m'.last_container.array_size with
    | none => rfl
    | some a => rfl

/-- Reading a basic value moves the read index and the index of the last
    container, or changes nothing. -/
theorem sd_bus_message_read_basic_state (type : UInt8) :
    (sd_bus_message_read_basic type m).2 = m ∨
      ∃ q v, sd_bus_message_read_basic type m =
        (.ok (some (q, v)),
          set_index (m.last_container.index + 1) { m with rindex := q.stop }) := by
  unfold sd_bus_message_read_basic
  rw [get_bind_run]
  by_cases hs : m.sealed = true
  · rw [check_bind_run_true hs]
    by_cases ht : bus_type_is_basic type = true
    · rw [check_bind_run_true ht]
      by_cases he : (!message_end_of_signature m) = true
      · rw [check_bind_run_true he, bind_run]
        have hend := message_end_of_array_state m m.rindex
        match hr : message_end_of_array m.rindex m with
        | (.err e, s) =>
          rw [hr] at hend
          exact Or.inl hend
        | (.abort, s) =>
          rw [hr] at hend
          exact Or.inl hend
        | (.ok true, s) =>
          rw [hr] at hend
          exact Or.inl hend
        | (.ok false, s) =>
          rw [hr] at hend
          obtain rfl : s = m := hend
          dsimp only
          rw [if_neg Bool.false_ne_true]
          by_cases hc : (s.last_container.current == some type) = true
          · rw [check_bind_run_true hc, bind_run]
            have hv := read_value_state s type s.rindex
            match hrv : read_value type s.rindex s with
            | (.err e, s') =>
              rw [hrv] at hv
              exact Or.inl hv
            | (.abort, s') =>
              rw [hrv] at hv
              exact Or.inl hv
            | (.ok (q, v), s') =>
              rw [hrv] at hv
              obtain rfl : s' = s := hv
              exact Or.inr ⟨q, v, rfl⟩
          · rw [check_bind_run_false (Bool.not_eq_true _ ▸ hc)]
            exact Or.inl rfl
      · rw [check_bind_run_false (Bool.not_eq_true _ ▸ he)]
        exact Or.inl rfl
    · rw [check_bind_run_false (Bool.not_eq_true _ ▸ ht)]
      exact Or.inl rfl
  · rw [check_bind_run_false (Bool.not_eq_true _ ▸ hs)]
    exact Or.inl rfl

end state
/-! ## Section 3: What comes next -/

/-- What `sd_bus_message_peek_type` returns: the type and the contents, which
    are a copy, or a part of the body. -/
structure PeekedType where
  type : UInt8
  contents : Option (List UInt8)
  range : Option BodyRange
  deriving DecidableEq, Repr

/-- A copy of the contents. -/
def peeked_signature (env : ReadEnv) (type : UInt8) (contents : List UInt8) :
    Call SdBusMessage (Option PeekedType) := do
  check (env []) .ENOMEM
  pure (some ⟨type, some contents, none⟩)

/-- `sd_bus_message_peek_type`; `want` tells whether the contents are asked
    for. `none` at the end of the signature or of an array. -/
def sd_bus_message_peek_type (env : ReadEnv) (want : Bool) :
    Call SdBusMessage (Option PeekedType) := do
  let m ← get
  check m.sealed .EPERM
  if message_end_of_signature m then pure none
  else if ← message_end_of_array m.rindex then pure none
  else
    match m.last_container.signature.drop m.last_container.index with
    | [] => pure none
    | t :: s =>
      if bus_type_is_basic t then pure (some ⟨t, none, none⟩)
      else if t = SD_BUS_TYPE_ARRAY then
        if !want then pure (some ⟨SD_BUS_TYPE_ARRAY, none, none⟩)
        else
          match signature_element_length s with
          | none => fail .EINVAL
          | some l =>
            if l < 1 then abort
            else peeked_signature env SD_BUS_TYPE_ARRAY (s.take l)
      else if t = SD_BUS_TYPE_STRUCT_BEGIN || t = SD_BUS_TYPE_DICT_ENTRY_BEGIN then
        let type := if t = SD_BUS_TYPE_STRUCT_BEGIN then SD_BUS_TYPE_STRUCT
          else SD_BUS_TYPE_DICT_ENTRY
        if !want then pure (some ⟨type, none, none⟩)
        else
          match signature_element_length (t :: s) with
          | none => fail .EINVAL
          | some l =>
            if l < 3 then abort
            else peeked_signature env type (s.take (l - 2))
      else if t = SD_BUS_TYPE_VARIANT then
        if !want then pure (some ⟨SD_BUS_TYPE_VARIANT, none, none⟩)
        else do
          let q ← peek_signature m.rindex
          pure (some ⟨SD_BUS_TYPE_VARIANT, some ((← get).bytes q).dropLast, some q⟩)
      else fail .EINVAL

/-- `sd_bus_message_at_end` -/
def sd_bus_message_at_end (complete : Bool) : Call SdBusMessage Bool := do
  let m ← get
  check m.sealed .EPERM
  if complete && 0 < m.containers.length then pure false
  else if message_end_of_signature m then pure true
  else message_end_of_array m.rindex

/-- `sd_bus_message_rewind` -/
def sd_bus_message_rewind (complete : Bool) : Call SdBusMessage Bool := do
  let m ← get
  check m.sealed .EPERM
  if complete then do
    modify fun m =>
      { m with containers := [], root_container := { m.root_container with index := 0 },
               rindex := 0 }
    pure (!m.root_container.signature.isEmpty)
  else do
    modify fun m =>
      { m.update_last fun c => { c with index := 0 } with rindex := m.last_container.begin }
    pure (!m.last_container.signature.isEmpty)

/-! ## Section 4: Containers -/

/-- `bus_message_enter_array`: the offset of the array length. -/
def bus_message_enter_array (contents : List UInt8) : Call SdBusMessage Nat := do
  let m ← get
  check (signature_is_single contents true) .EINVAL
  check (signature_has m.last_container SD_BUS_TYPE_ARRAY contents []) Errno.ENXIO
  let q ← peek_body m.rindex 4 4
  check (m.bswap q ≤ BUS_ARRAY_MAX_SIZE) .EBADMSG
  match bus_type_get_alignment (contents.headD 0) with
  | none => fail .EINVAL
  | some alignment => do
    let e ← peek_body q.stop alignment 0
    set_rindex e.stop
    skip_index (1 + contents.length)
    pure q.offset

/-- `bus_message_enter_variant` -/
def bus_message_enter_variant (contents : List UInt8) : Call SdBusMessage PUnit := do
  let m ← get
  check (signature_is_single contents false) .EINVAL
  check (contents.head? != some SD_BUS_TYPE_DICT_ENTRY_BEGIN) .EINVAL
  check (m.last_container.current == some SD_BUS_TYPE_VARIANT) Errno.ENXIO
  let q ← peek_signature m.rindex
  check ((m.bytes q).dropLast == contents) Errno.ENXIO
  set_rindex q.stop
  skip_index 1

/-- What structs and dictionary entries share: they are next in the signature,
    and are aligned. -/
def enter_members (first : UInt8) (contents : List UInt8) (last : UInt8) :
    Call SdBusMessage PUnit := do
  let m ← get
  check (signature_has m.last_container first contents [last]) Errno.ENXIO
  let q ← peek_body m.rindex 8 0
  set_rindex q.stop
  skip_index (1 + contents.length + 1)

/-- `bus_message_enter_struct` -/
def bus_message_enter_struct (contents : List UInt8) : Call SdBusMessage PUnit := do
  check (signature_is_valid contents false) .EINVAL
  enter_members SD_BUS_TYPE_STRUCT_BEGIN contents SD_BUS_TYPE_STRUCT_END

/-- `bus_message_enter_dict_entry`; `false` at the end of the signature. -/
def bus_message_enter_dict_entry (contents : List UInt8) : Call SdBusMessage Bool := do
  let m ← get
  check (signature_is_pair contents) .EINVAL
  check (m.last_container.enclosing == SD_BUS_TYPE_ARRAY) Errno.ENXIO
  if message_end_of_signature m then pure false
  else do
    enter_members SD_BUS_TYPE_DICT_ENTRY_BEGIN contents SD_BUS_TYPE_DICT_ENTRY_END
    pure true

/-- The choice among the functions above; `none` if they return zero, else
    `array_size`. -/
def bus_message_enter (type : UInt8) (contents : List UInt8) :
    Call SdBusMessage (Option (Option Nat)) :=
  if type = SD_BUS_TYPE_ARRAY then do
    let array_size ← bus_message_enter_array contents
    pure (some (some array_size))
  else if type = SD_BUS_TYPE_VARIANT then do
    bus_message_enter_variant contents
    pure (some none)
  else if type = SD_BUS_TYPE_STRUCT then do
    bus_message_enter_struct contents
    pure (some none)
  else if type = SD_BUS_TYPE_DICT_ENTRY then do
    pure (if ← bus_message_enter_dict_entry contents then some none else none)
  else fail .EINVAL

/-- Enter an anonymous container: the type and the contents it has. -/
def anonymous_container (env : ReadEnv) (type : UInt8) :
    Call SdBusMessage (UInt8 × Option (List UInt8)) := do
  match ← sd_bus_message_peek_type env true with
  | none => do
    check (type == 0) Errno.ENXIO
    pure (0, none)
  | some p => do
    check (type == 0 || type == p.type) Errno.ENXIO
    pure (p.type, p.contents)

/-- The container `contents` is entered: it is the last one now. -/
def push_container (type : UInt8) (contents : List UInt8) (before : Nat)
    (array_size : Option Nat) : Call SdBusMessage PUnit :=
  modify fun m =>
    { m with containers := { enclosing := type, signature := contents, index := 0,
                             saved_index := 0, before := before, begin := m.rindex,
                             end_ := m.rindex, array_size := array_size } :: m.containers }

/-- `sd_bus_message_enter_container`, once type and contents are known. The
    contents are NULL for the type of a basic value, and `strdup` does not
    take NULL: the process crashes, which is shown as an abort. -/
def enter_container (env : ReadEnv) (type : UInt8) (contents : Option (List UInt8)) :
    Call SdBusMessage Bool := do
  let m ← get
  check (m.containers.length < BUS_CONTAINER_DEPTH) .EBADMSG
  check (env [1]) .ENOMEM
  check (!message_end_of_signature m) Errno.ENXIO
  if ← message_end_of_array m.rindex then pure false
  else
    match contents with
    | none => abort
    | some contents => do
      check (env [2]) .ENOMEM
      modify fun m => m.update_last fun c => { c with saved_index := c.index }
      match ← bus_message_enter type contents with
      | none => pure false
      | some array_size => do
        push_container type contents m.rindex array_size
        pure true

/-- `sd_bus_message_enter_container` -/
def sd_bus_message_enter_container (env : ReadEnv) (type : UInt8)
    (contents : Option (List UInt8)) : Call SdBusMessage Bool := do
  check (← get).sealed .EPERM
  check (type != 0 || contents.isNone) .EINVAL
  if type = 0 || contents.isNone then do
    let (type, contents) ← anonymous_container (env.sub 0) type
    enter_container env type contents
  else enter_container env type contents

/-- `sd_bus_message_exit_container` -/
def sd_bus_message_exit_container : Call SdBusMessage PUnit := do
  let m ← get
  check m.sealed .EPERM
  match m.containers with
  | [] => fail Errno.ENXIO
  | c :: rest => do
    if c.enclosing ≠ SD_BUS_TYPE_ARRAY then check c.current.isNone .EBUSY
    else
      match c.array_size with
      | none => abort
      | some a => check (c.begin + m.bswap ⟨a, 4⟩ == m.rindex) .EBUSY
    modify fun m => { m with containers := rest }

/-! ## Section 5: Skipping -/

mutual

/-- `sd_bus_message_skip` of these types. To run out of fuel is shown as an
    abort. -/
def skip_types : Nat → ReadEnv → List UInt8 → Call SdBusMessage Bool
  | 0, _, _ => abort
  | _ + 1, _, [] => pure false
  | fuel + 1, env, t :: types =>
    if bus_type_is_basic t then do
      match ← sd_bus_message_read_basic t with
      | none => pure false
      | some _ => do
        let _ ← skip_types fuel (env.sub 1) types
        pure true
    else if t = SD_BUS_TYPE_ARRAY then
      match signature_element_length types with
      | none => fail .EINVAL
      | some k => do
        let s := types.take k
        if !(← sd_bus_message_enter_container (env.sub 0) SD_BUS_TYPE_ARRAY (some s)) then
          pure false
        else do
          skip_elements fuel (env.sub 2) s
          sd_bus_message_exit_container
          let _ ← skip_types fuel (env.sub 1) (types.drop k)
          pure true
    else if t = SD_BUS_TYPE_VARIANT then do
      match ← sd_bus_message_peek_type (env.sub 3) true with
      | none => pure false
      | some p => do
        check (p.type == SD_BUS_TYPE_VARIANT) Errno.ENXIO
        if !(← sd_bus_message_enter_container (env.sub 0) SD_BUS_TYPE_VARIANT p.contents) then
          pure false
        else do
          -- `assert(r != 0)`
          if !(← skip_types fuel (env.sub 2) (p.contents.getD [])) then abort
          else do
            sd_bus_message_exit_container
            let _ ← skip_types fuel (env.sub 1) types
            pure true
    else if t = SD_BUS_TYPE_STRUCT_BEGIN || t = SD_BUS_TYPE_DICT_ENTRY_BEGIN then
      match signature_element_length (t :: types) with
      | none => fail .EINVAL
      | some k => do
        check (!(k < 2)) .ERANGE
        let s := types.take (k - 2)
        if !(← sd_bus_message_enter_container (env.sub 0)
            (if t = SD_BUS_TYPE_STRUCT_BEGIN then SD_BUS_TYPE_STRUCT else SD_BUS_TYPE_DICT_ENTRY)
            (some s)) then
          pure false
        else do
          let _ ← skip_types fuel (env.sub 2) s
          sd_bus_message_exit_container
          let _ ← skip_types fuel (env.sub 1) ((t :: types).drop k)
          pure true
    else fail .EINVAL

/-- The loop over the elements of an array. -/
def skip_elements : Nat → ReadEnv → List UInt8 → Call SdBusMessage PUnit
  | 0, _, _ => abort
  | fuel + 1, env, s => do
    if ← skip_types fuel (env.sub 0) s then skip_elements fuel (env.sub 1) s
    else pure ⟨⟩

end

/-- Enough fuel: in each container a round for each type, and in an array one
    for each byte that is left. -/
def skip_fuel (m : SdBusMessage) (types : List UInt8) : Nat :=
  (BUS_CONTAINER_DEPTH + 1) * (max types.length 255 + m.body.length + 3)

/-- `sd_bus_message_skip`; exactly one element where there are no types. -/
def sd_bus_message_skip (env : ReadEnv) (types : Option (List UInt8)) :
    Call SdBusMessage Bool := do
  let m ← get
  check m.sealed .EPERM
  match types with
  | some types => skip_types (skip_fuel m types) env types
  | none => do
    check (!message_end_of_signature m) Errno.ENXIO
    if ← message_end_of_array m.rindex then pure false
    else
      let s := m.last_container.signature.drop m.last_container.index
      match signature_element_length s with
      | none => fail .EINVAL
      | some l => skip_types (skip_fuel m (s.take l)) env (s.take l)

end SdCompat.Bus
