import SdCompat.Basic.Call
import SdCompat.Lib.Bytes
import SdCompat.Lib.Transition
import SdCompat.SdJson.Parse

/-! # Reading from a JSON stream (json-stream.c)

    `json_stream_read` reads into a buffer of allocated memory, of which
    `input_buffer_size` bytes from `input_buffer_index` on are in use;
    `json_stream_parse` takes the first message from it, up to the delimiter.
    Logging is left out, and so are callbacks and timeouts.
-/

open Bytes Transition

namespace SdCompat.Json

open Call Errno

/-! ## Section 1: Model -/

/-- How a `JsonStream` is set up: `JsonStreamParams` with the defaults filled
    in, and the flags that stay as they are. -/
structure StreamSetup where
  delimiter : Option (List UInt8)
  buffer_max : Nat
  read_chunk : Nat
  bounded_reads : Bool
  prefer_read : Bool
  input_sensitive : Bool
  allow_fd_passing : Bool
  buffer_max_pos : 0 < buffer_max
  read_chunk_pos : 0 < read_chunk
  delimiter_nul : ∀ d, delimiter = some d → 0 ∉ d

/-- The delimiter the code searches for: `s->delimiter ?: "\0"`, over
    `json_stream_delimiter_size` bytes. -/
def StreamSetup.delim (s : StreamSetup) : List UInt8 :=
  match s.delimiter with
  | none | some [] => [0]
  | some d => d

/-- What `JsonStream` has for reading. The last three fields are a record of
    what happens outside of it: the bytes that are still to come from the
    socket, those that were taken from it, and the descriptors closed. -/
structure JsonInput where
  setup : StreamSetup
  connecting : Bool
  read_disconnected : Bool
  input_buffer : List UInt8
  input_buffer_index : Nat
  input_buffer_size : Nat
  input_buffer_unscanned : Nat
  has_control_buffer : Bool
  input_fds : List Int
  unread : List UInt8
  taken : List UInt8
  closed : List Int

/-- What a read comes back with: an error, or `k + 1` bytes, or fewer when
    there is no room for so many or not so many are to come, so that there
    are none only at the end of the stream; with `recvmsg` also descriptors,
    and the flags `MSG_TRUNC` and `MSG_CTRUNC`. -/
inductive StreamRecv where
  | error (e : Errno)
  | data (k : Nat) (fds : List Int) (trunc ctrunc : Bool)
  deriving DecidableEq, Repr

/-- What one call of `json_stream_read` meets: new memory of the buffer, with
    whatever it holds (`none` when there is no memory), what `MSG_PEEK` shows,
    the memory for control messages and descriptors, and what is read. -/
structure StreamEnv where
  grow : Option (List UInt8)
  peek : StreamRecv
  control_mem : Bool
  fds_mem : Bool
  recv : StreamRecv

namespace JsonInput

/-- The delimiter. -/
abbrev delim (s : JsonInput) : List UInt8 := s.setup.delim

/-- The bytes that are in use. -/
def content (s : JsonInput) : List UInt8 :=
  slice s.input_buffer s.input_buffer_index s.input_buffer_size

/-- Bytes are written to the buffer behind those in use. -/
def poke (bytes : List UInt8) (s : JsonInput) : JsonInput :=
  { s with
    input_buffer := replace s.input_buffer (s.input_buffer_index + s.input_buffer_size) bytes }

/-- The first `n` of the bytes to come, if there are so many. -/
def available (n : Nat) (s : JsonInput) : List UInt8 := s.unread.take n

/-- Bytes are taken from the socket. -/
def take (n : Nat) (s : JsonInput) : JsonInput :=
  { s with unread := s.unread.drop n, taken := s.taken ++ s.unread.take n }

end JsonInput

/-- `n` bytes of new memory, or more. -/
def fresh (n : Nat) (memory : List UInt8) : List UInt8 :=
  memory ++ List.replicate (n - memory.length) 0

/-- `GREEDY_REALLOC` where there is memory -/
def greedy_realloc (p : List UInt8) (need : Nat) (memory : List UInt8) : List UInt8 :=
  if need ≤ p.length then p else p ++ fresh (need - p.length) memory

/-! ## Section 2: Reading -/

/-- The part of `json_stream_read` that makes room in the buffer. -/
def json_stream_make_room (env : StreamEnv) : Call JsonInput PUnit := do
  let s ← get
  if s.input_buffer.length ≤ s.input_buffer_index + s.input_buffer_size then do
    let add := min (s.setup.buffer_max - s.input_buffer_size) s.setup.read_chunk
    match env.grow with
    | none => fail ENOMEM
    | some memory =>
      if s.input_buffer_index = 0 && (!s.setup.input_sensitive || s.input_buffer_size = 0) then
        modify fun s =>
          { s with
            input_buffer := greedy_realloc s.input_buffer (s.input_buffer_size + add) memory }
      else
        modify fun s =>
          { s with
            input_buffer := replace (fresh (s.input_buffer_size + add) memory) 0 s.content
            input_buffer_index := 0 }
  else pure ⟨⟩

/-- `json_stream_peek_message_boundary`: how many bytes to read. -/
def json_stream_peek_message_boundary (env : StreamEnv) (rs : Nat) : Call JsonInput Nat := do
  let s ← get
  if !s.setup.bounded_reads then pure rs
  else if s.setup.prefer_read then pure 1
  else match env.peek with
    | .error e => if !ERRNO_IS_TRANSIENT e then fail e else pure 1
    | .data k _ _ _ => do
      let peeked := s.available (min (k + 1) rs)
      modify (·.poke peeked)
      if peeked.isEmpty then pure rs
      else match memmem_safe peeked s.delim with
        | some i => pure (i + s.delim.length)
        | none => pure peeked.length

/-- The descriptors that came along. They are only allowed with the first
    byte of a message. -/
def json_stream_take_fds (env : StreamEnv) (fds : List Int) : Call JsonInput PUnit := do
  let s ← get
  let refuse (e : Errno) : Call JsonInput PUnit := do
    modify fun s => { s with closed := s.closed ++ fds }
    fail e
  if !s.setup.allow_fd_passing || fds.isEmpty then pure ⟨⟩
  else if s.input_buffer_size ≠ 0 then refuse EPROTO
  else if INT_MAX - s.input_fds.length < fds.length then refuse EBADF
  else if !env.fds_mem then refuse ENOMEM
  else modify fun s => { s with input_fds := s.input_fds ++ fds }

/-- The end of `json_stream_read`: `n` more bytes are in the buffer. -/
def json_stream_read_done (n : Nat) : Call JsonInput Nat := do
  modify fun s =>
    -- also rescan the end of what was buffered, so a split delimiter is found
    let rescan := min s.input_buffer_size (s.delim.length - 1)
    { s with
      input_buffer_size := s.input_buffer_size + n
      input_buffer_unscanned := rescan + n }
  pure 1

/-- `json_stream_read` from the system call on, which may read `rs` bytes. -/
def json_stream_receive (env : StreamEnv) (rs : Nat) : Call JsonInput Nat := do
  let s ← get
  check (!s.setup.allow_fd_passing || s.has_control_buffer || env.control_mem) ENOMEM
  modify fun s =>
    { s with has_control_buffer := s.has_control_buffer || s.setup.allow_fd_passing }
  match env.recv with
  | .error e =>
    if ERRNO_IS_TRANSIENT e then pure 0
    else if ERRNO_IS_DISCONNECT e then do
      modify fun s => { s with read_disconnected := true }
      pure 1
    else fail e
  | .data k fds trunc ctrunc => do
    let bytes := s.available (min (k + 1) rs)
    modify fun s => (s.poke bytes).take bytes.length
    if s.setup.allow_fd_passing && trunc then do
      modify fun s => { s with closed := s.closed ++ fds }
      fail EXFULL
    else do
      -- with MSG_CTRUNC the descriptors that did arrive are dropped
      let lost := if s.setup.allow_fd_passing && ctrunc then fds else []
      let fds := if ctrunc then [] else fds
      modify fun s => { s with closed := s.closed ++ lost }
      if bytes.isEmpty then do
        modify fun s =>
          { s with
            closed := s.closed ++ if s.setup.allow_fd_passing then fds else []
            read_disconnected := true }
        pure 1
      else do
        json_stream_take_fds env fds
        json_stream_read_done bytes.length

/-- `json_stream_read` -/
def json_stream_read (env : StreamEnv) : Call JsonInput Nat := do
  let s ← get
  if s.connecting then pure 0
  else if 0 < s.input_buffer_unscanned then pure 0
  else if s.read_disconnected then pure 0
  else do
    check (s.input_buffer_size < s.setup.buffer_max) ENOBUFS
    json_stream_make_room env
    let s ← get
    let rs := s.input_buffer.length - (s.input_buffer_index + s.input_buffer_size)
    let rs ← json_stream_peek_message_boundary env rs
    json_stream_receive env rs

/-! ## Section 3: Parsing -/

variable {R : Type}

/-- `SD_JSON_PARSE_MUST_BE_OBJECT` -/
def MUST_BE_OBJECT : ParseFlags := ⟨true, false⟩

/-- The `sz` bytes of a message have gone from the front of the buffer. -/
def JsonInput.advance (sz : Nat) (s : JsonInput) : JsonInput :=
  { s with
    input_buffer_size := s.input_buffer_size - sz
    input_buffer_index := if s.input_buffer_size - sz = 0 then 0 else s.input_buffer_index + sz
    input_buffer_unscanned := s.input_buffer_size - sz }

/-- `json_stream_parse`: the variant, or `none` where it returns 0. -/
def json_stream_parse [Double R] : Call JsonInput (Option (Variant R)) := do
  let s ← get
  if s.input_buffer_unscanned = 0 then pure none
  else if s.input_buffer_size < s.input_buffer_unscanned ∨
      s.input_buffer.length < s.input_buffer_index + s.input_buffer_size then abort
  else
    let scanned := s.input_buffer_size - s.input_buffer_unscanned
    match memmem_safe (s.content.drop scanned) s.delim with
    | none => do
      modify fun s => { s with input_buffer_unscanned := 0 }
      pure none
    | some i => do
      let e := scanned + i
      let sz := e + s.delim.length
      -- the first byte of the delimiter becomes the NUL the parser wants
      modify fun s =>
        { s with
          input_buffer :=
            if s.setup.delimiter.isSome then replace s.input_buffer (s.input_buffer_index + e) [0]
            else s.input_buffer }
      let begin := (← get).input_buffer.drop s.input_buffer_index
      modify fun s =>
        { s with
          input_buffer :=
            if s.setup.input_sensitive then
              replace s.input_buffer s.input_buffer_index (List.replicate sz 0)
            else s.input_buffer }
      match sd_json_parse begin MUST_BE_OBJECT with
      | .ok v => do
        modify (·.advance sz)
        pure (some v)
      | .err e => do
        -- unrecoverable parse failure: drop all buffered data
        modify fun s =>
          { s with input_buffer_index := 0, input_buffer_size := 0, input_buffer_unscanned := 0 }
        fail e
      | .abort => abort

end SdCompat.Json
