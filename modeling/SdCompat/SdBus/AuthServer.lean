import SdCompat.Lib.Transition
import SdCompat.SdBus.Auth

/-! # Server side of the authentication phase (bus-socket.c)

    `bus_socket_auth_verify_server` as the code has it, over whatever part of
    the client's stream has been read; the steps that call it (reading and
    writing); and, over their runs, when a connection may be started.
-/

open Transition

namespace SdCompat.Auth

open Option

/-! ## Section 1: Lines -/

/-- `line_equals` -/
def line_equals (s line : List UInt8) : Bool := s == line

/-- `line_begins`: the line is `word`, or `word` followed by a space. -/
def line_begins (s word : List UInt8) : Bool :=
  match memory_startswith s word with
  | none => false
  | some p => p == [] || p.head? == some 0x20

/-! ## Section 2: Tokens

    `mem` tells whether the buffer for the decoded token could be allocated. -/

/-- The part `verify_anonymous_token` and `verify_external_token` share once
    the leading space is dropped: an even number of hexadecimal digits,
    decoding to a string without NUL bytes. -/
def decode_token (mem : Bool) (p : List UInt8) : Option (List UInt8) :=
  if p.length % 2 ≠ 0 then none
  else if !mem then none
  else
    match unhexmem_full p with
    | none => none
    | some token => if token.contains 0 then none else some token

/-- `verify_anonymous_token` -/
def verify_anonymous_token (mem : Bool) (b : SdBus) (p : List UInt8) : Bool :=
  if !b.anonymous_auth then false
  else if p = [] then true
  else
    match decode_token mem p.tail with
    | none => false
    | some token => utf8_is_valid token

/-- `verify_external_token` -/
def verify_external_token (mem : Bool) (b : SdBus) (p : List UInt8) : Bool :=
  if !b.anonymous_auth && b.ucred_uid.isNone then false
  else if p = [] then true
  else
    match decode_token mem p.tail with
    | none => false
    | some token =>
      match parse_uid token with
      | none => false
      | some u => b.anonymous_auth || b.ucred_uid = some u

/-- The token of a `DATA` line goes to the selected mechanism. -/
def verify_data_token (mem : Bool) (b : SdBus) (p : List UInt8) : Bool :=
  if b.auth = .anonymous then verify_anonymous_token mem b p
  else verify_external_token mem b p

/-! ## Section 3: Answers -/

/-- The lines the server answers with. -/
inductive Answer where
  | rejected
  | rejected_mechanisms
  | data
  | ok
  | error
  | agree_unix_fd
  deriving DecidableEq, Repr

/-- `SD_ID128_FORMAT_STR`: the id in lower case hexadecimal. -/
def id128_format (id : List UInt8) : List UInt8 :=
  let hexchar (x : UInt8) : UInt8 := if x < 10 then 0x30 + x else 0x61 + (x - 10)
  id.flatMap fun (c : UInt8) => [hexchar (c >>> 4), hexchar (c &&& 0xf)]

/-- The text of an answer. -/
def Answer.text (server_id : List UInt8) : Answer → List UInt8
  | rejected => ascii "REJECTED\r\n"
  | rejected_mechanisms => ascii "REJECTED EXTERNAL ANONYMOUS\r\n"
  | data => ascii "DATA\r\n"
  | ok => ascii "OK " ++ id128_format server_id ++ crlf
  | error => ascii "ERROR\r\n"
  | agree_unix_fd => ascii "AGREE_UNIX_FD\r\n"

/-- `bus_socket_auth_write`: append to the first vector, which is the only
    one the server uses. -/
def bus_socket_auth_write (mem : Bool) (b : SdBus) (t : List UInt8) : Outcome Nat × SdBus :=
  if 1 < b.auth_index then
    (.abort, b)
  else if !mem then
    (.err .ENOMEM, b)
  else
    (.ok 0, { b with
      auth_iovec := (b.auth_iovec.headD [] ++ t) :: b.auth_iovec.tail
      auth_index := 0 })

/-! ## Section 4: One line -/

/-- What a complete line asks for. -/
inductive LineAction where
  /-- Go on with the bus as it is now, and send an answer. -/
  | answer (b : SdBus) (a : Answer)
  /-- `BEGIN`, with a mechanism selected. -/
  | begin

/-- The branches of `bus_socket_auth_verify_server` on one line, up to the
    answer they queue. -/
def handle_line (mem : Bool) (b : SdBus) (line : List UInt8) : LineAction :=
  if line_begins line (ascii "AUTH ANONYMOUS") then
    if !verify_anonymous_token mem b (line.drop 14) then
      .answer b .rejected
    else if line.length ≤ 14 then
      .answer { b with auth := .anonymous } .data
    else
      .answer { b with auth := .anonymous } .ok
  else if line_begins line (ascii "AUTH EXTERNAL") then
    if !verify_external_token mem b (line.drop 13) then
      .answer b .rejected
    else if line.length ≤ 13 then
      .answer { b with auth := .external } .data
    else
      .answer { b with auth := .external } .ok
  else if line_begins line (ascii "AUTH") then
    .answer b .rejected_mechanisms
  else if line_equals line (ascii "CANCEL") || line_begins line (ascii "ERROR") then
    .answer { b with auth := .invalid } .rejected
  else if line_equals line (ascii "BEGIN") then
    if b.auth = .invalid then .answer b .error else .begin
  else if line_begins line (ascii "DATA") then
    if b.auth = .invalid then
      .answer b .error
    else
      if !verify_data_token mem b (line.drop 4) then
        .answer { b with auth := .invalid } .rejected
      else
        .answer b .ok
  else if line_equals line (ascii "NEGOTIATE_UNIX_FD") then
    if b.auth = .invalid || !b.accept_fd then
      .answer b .error
    else
      .answer { b with can_fds := true } .agree_unix_fd
  else
    .answer b .error

/-! ## Section 5: The verifier

    Besides its result the verifier reports what it did with the lines, for
    the properties below to speak about. -/

/-- What the verifier did with a line. -/
inductive Event where
  /-- The answer was queued. -/
  | answered (line : List UInt8) (a : Answer)
  /-- `BEGIN` was accepted: the connection is started. -/
  | begun
  deriving DecidableEq, Repr

/-- The environment of one call: which of its allocations succeed (two for
    each line), and whether the signal at the very end can be sent. -/
structure CallEnv where
  mem : Nat → Bool
  signal : Option Errno

/-- The line at `auth_rbegin`, if it is complete. -/
def next_line (b : SdBus) : Option (List UInt8) :=
  (memmem_safe (b.rbuffer.drop b.auth_rbegin) crlf).map (b.rbuffer.drop b.auth_rbegin).take

/-- One round of the loop of `bus_socket_auth_verify_server`, on its `n`-th
    line: what the function returns, unless the loop goes on. -/
def verify_server_line (env : CallEnv) (n : Nat) (b : SdBus) (line : List UInt8) :
    Option (Outcome Nat) × SdBus × List Event :=
  let e := b.auth_rbegin + line.length
  match handle_line (env.mem (2 * n)) b line with
  | .begin =>
    -- everything queued has to be written before the phase is left
    if bus_socket_auth_needs_write b then
      (some (.ok 1), b, [])
    else
      let (r, b) := bus_start_running env.signal { b with rbuffer := b.rbuffer.drop (e + 2) }
      (some r, b, [.begun])
  | .answer b a =>
    match bus_socket_auth_write (env.mem (2 * n + 1)) b (a.text b.server_id) with
    | (.ok _, b) => (none, { b with auth_rbegin := e + 2 }, [.answered line a])
    | (r, b) => (some r, b, [])     -- the line will be looked at again

/-- The loop of `bus_socket_auth_verify_server`; every round that goes on
    moves `auth_rbegin` forward. -/
def verify_server_loop (env : CallEnv) :
    Nat → Nat → SdBus → Bool → Outcome Nat × SdBus × List Event
  | 0, _, b, processed => (.ok processed.toNat, b, [])
  | fuel + 1, n, b, processed =>
    match next_line b with
    | none => (.ok processed.toNat, b, [])
    | some line =>
      match verify_server_line env n b line with
      | (some r, b, evs) => (r, b, evs)
      | (none, b, evs) =>
        let (r, b, evs') := verify_server_loop env fuel (n + 1) b true
        (r, b, evs ++ evs')

/-- The first line begins after the NUL byte. -/
def first_line (b : SdBus) : SdBus :=
  if b.auth_rbegin ≤ 0 then { b with auth_rbegin := 1 } else b

/-- `bus_socket_auth_verify_server` -/
def bus_socket_auth_verify_server (env : CallEnv) (b : SdBus) :
    Outcome Nat × SdBus × List Event :=
  if b.rbuffer.length < 1 then (.ok 0, b, [])
  else if b.rbuffer.head? ≠ some 0 then (.err Errno.EIO, b, [])
  else if b.rbuffer.length < 3 then (.ok 0, b, [])
  else
    verify_server_loop env b.rbuffer.length 0 (first_line b) false

/-! ## Section 6: Reading and writing -/

/-- What a read returned. -/
inductive ReadResult where
  | again
  | failed (e : Errno)
  | eof
  /-- Some bytes, and an error when file descriptors came with them. -/
  | bytes (bs : List UInt8) (cmsg : Option Errno)

/-- The buffer size `bus_socket_read_auth` makes room for. -/
def read_auth_room (b : SdBus) : Nat :=
  min (max 256 (b.rbuffer.length * 2)) BUS_AUTH_SIZE_MAX

/-- What `bus_socket_read_auth` does once the buffered bytes have been looked
    at. -/
def read_auth_more (verify : SdBus → Outcome Nat × SdBus × List Event)
    (mem : Bool) (read : ReadResult) (b : SdBus) : Outcome Nat × SdBus × List Event :=
  if read_auth_room b ≤ b.rbuffer.length then (.err .ENOBUFS, b, [])
  else if !mem then (.err .ENOMEM, b, [])
  else
    match read with
    | .again => (.ok 0, b, [])
    | .failed e => (.err e, b, [])
    | .eof => (.err .ECONNRESET, b, [])
    | .bytes bs cmsg =>
      let b := { b with rbuffer := b.rbuffer ++ bs }
      match cmsg with
      | some e => (.err e, b, [])
      | none =>
        match verify b with
        | (.ok 0, b, evs) => (.ok 1, b, evs)
        | r => r

/-- `bus_socket_read_auth` -/
def bus_socket_read_auth (verify : CallEnv → SdBus → Outcome Nat × SdBus × List Event)
    (env env' : CallEnv) (mem : Bool) (read : ReadResult) (b : SdBus) :
    Outcome Nat × SdBus × List Event :=
  match verify env b with
  | (.ok 0, b, evs) =>
    let (r, b, evs') := read_auth_more (verify env') mem read b
    (r, b, evs ++ evs')
  | r => r

/-- `bus_socket_write_auth`; `sent` is the number of bytes written, or the
    error other than a transient one. -/
def bus_socket_write_auth (verify : CallEnv → SdBus → Outcome Nat × SdBus × List Event)
    (env : CallEnv) (sent : Except (Option Errno) Nat) (b : SdBus) :
    Outcome Nat × SdBus × List Event :=
  if !bus_socket_auth_needs_write b then (.ok 0, b, [])
  else
    match sent with
    | .error none => (.ok 0, b, [])
    | .error (some e) => (.err e, b, [])
    | .ok k => verify env (advance_auth_iovec b k)

/-! ## Section 7: Runs

    What happens to a server in this phase: bytes arrive, queued bytes leave,
    the verifier looks for the first line, and it handles a line. The verifier,
    reading and writing are runs of these steps. -/

/-- A server and what it has done with the lines so far. -/
structure Server where
  bus : SdBus
  history : List Event

/-- The steps of a server. -/
inductive ServerLabel where
  | receive (bs : List UInt8)
  | sent (k : Nat)
  | first
  | line (env : CallEnv) (n : Nat)

/-- A server in the authentication phase, from its start on. -/
def server : System Server ServerLabel where
  init := fun s =>
    s.bus.state = .authenticating ∧
    s.bus.auth = .invalid ∧
    s.bus.rbuffer = [] ∧
    s.bus.auth_rbegin = 0 ∧
    s.bus.auth_index = 0 ∧
    s.bus.auth_iovec = [[], [], []] ∧
    s.history = []
  step := fun s l s' =>
    s.bus.state = .authenticating ∧
    match l with
    | .receive bs => s' = { s with bus := { s.bus with rbuffer := s.bus.rbuffer ++ bs } }
    | .sent k => s' = { s with bus := advance_auth_iovec s.bus k }
    | .first => s' = { s with bus := first_line s.bus }
    | .line env n =>
        1 ≤ s.bus.auth_rbegin ∧
        ∃ line, next_line s.bus = some line ∧
          let r := verify_server_line env n s.bus line
          s' = ⟨r.2.1, s.history ++ r.2.2⟩

/-! ### What one line does -/

/-- The answer touches nothing but the output queue. -/
theorem bus_socket_auth_write_frame (mem : Bool) (b : SdBus) (t : List UInt8) :
    ∃ iov i, (bus_socket_auth_write mem b t).2 = { b with auth_iovec := iov, auth_index := i } := by
  unfold bus_socket_auth_write
  split
  · exact ⟨_, _, rfl⟩
  · split <;> exact ⟨_, _, rfl⟩

variable {a : Answer} {b : SdBus}

/-- A line that is answered touches the selected mechanism and the file
    descriptor flag, and nothing else. -/
theorem handle_line_frame {mem : Bool} {b' : SdBus} {line : List UInt8}
    (h : handle_line mem b line = .answer b' a) :
    ∃ auth can_fds, b' = { b with auth := auth, can_fds := can_fds } := by
  unfold handle_line at h
  split_ifs at h <;> cases h <;> exact ⟨_, _, rfl⟩

/-- The ways a line can be dealt with. -/
theorem verify_server_line_cases (env : CallEnv) (n : Nat) (b : SdBus) (line : List UInt8) :
    let r := verify_server_line env n b line
    (handle_line (env.mem (2 * n)) b line = .begin ∧ r = (some (.ok 1), b, [])) ∨
    (handle_line (env.mem (2 * n)) b line = .begin ∧ ∃ rest,
      let p := bus_start_running env.signal { b with rbuffer := rest }
      r = (some p.1, p.2, [.begun])) ∨
    (∃ b1 a iov i, handle_line (env.mem (2 * n)) b line = .answer b1 a ∧
      r = (none, { b1 with auth_iovec := iov, auth_index := i,
                           auth_rbegin := b.auth_rbegin + line.length + 2 },
            [.answered line a])) ∨
    (∃ b1 a o iov i, handle_line (env.mem (2 * n)) b line = .answer b1 a ∧
      r = (some o, { b1 with auth_iovec := iov, auth_index := i }, [])) := by
  intro r
  match hl : handle_line (env.mem (2 * n)) b line with
  | .begin =>
    by_cases hw : bus_socket_auth_needs_write b
    · exact Or.inl ⟨rfl, by simp [r, verify_server_line, hl, hw]⟩
    · refine Or.inr (Or.inl ⟨rfl, b.rbuffer.drop (b.auth_rbegin + line.length + 2), ?_⟩)
      simp [r, verify_server_line, hl, hw]
  | .answer b1 a =>
    obtain ⟨iov, i, hf⟩ :=
      bus_socket_auth_write_frame (env.mem (2 * n + 1)) b1 (a.text b1.server_id)
    match hw : bus_socket_auth_write (env.mem (2 * n + 1)) b1 (a.text b1.server_id) with
    | (.ok _, b2) =>
      rw [hw] at hf
      refine Or.inr (Or.inr (Or.inl ⟨b1, a, iov, i, rfl, ?_⟩))
      simp only [r, verify_server_line, hl, hw]
      rw [show b2 = _ from hf]
    | (.err e, b2) =>
      rw [hw] at hf
      refine Or.inr (Or.inr (Or.inr ⟨b1, a, .err e, iov, i, rfl, ?_⟩))
      simp only [r, verify_server_line, hl, hw]
      rw [show b2 = _ from hf]
    | (.abort, b2) =>
      rw [hw] at hf
      refine Or.inr (Or.inr (Or.inr ⟨b1, a, .abort, iov, i, rfl, ?_⟩))
      simp only [r, verify_server_line, hl, hw]
      rw [show b2 = _ from hf]

/-! ### The verifier, reading and writing are runs -/

/-! ## Section 8: When the connection is started -/

/-- A line that begins an attempt to authenticate, goes on with one or ends
    it. -/
def is_exchange (line : List UInt8) : Bool :=
  line_begins line (ascii "AUTH") || line_begins line (ascii "DATA") ||
  line_equals line (ascii "CANCEL") || line_begins line (ascii "ERROR")

/-- The last line of the authentication exchange, with its answer. -/
def last_exchange (h : List Event) : Option (List UInt8 × Answer) :=
  (h.filterMap fun
    | .answered line a => if is_exchange line then some (line, a) else none
    | .begun => none).getLast?

/-- A mechanism that the server allows takes the credentials in the line. -/
def credentials_accepted (b : SdBus) (line : List UInt8) : Prop :=
  ∃ mem,
    (line_begins line (ascii "AUTH ANONYMOUS") ∧ verify_anonymous_token mem b (line.drop 14)) ∨
    (line_begins line (ascii "AUTH EXTERNAL") ∧ verify_external_token mem b (line.drop 13)) ∨
    (line_begins line (ascii "DATA") ∧
      (verify_anonymous_token mem b (line.drop 4) ∨ verify_external_token mem b (line.drop 4)))

/-- The exchange ended with the answer OK to a line whose credentials were
    accepted. -/
def authenticated (b : SdBus) (h : List Event) : Prop :=
  ∃ line, last_exchange h = some (line, .ok) ∧ credentials_accepted b line

/-- `AUTH` without an initial response: the answer is `DATA`, and the
    credentials are still to come. -/
def without_response (line : List UInt8) : Bool :=
  line_equals line (ascii "AUTH ANONYMOUS") || line_equals line (ascii "AUTH EXTERNAL")

/-- An `AUTH` line that is answered with REJECTED: the mechanism does not
    take its credentials, or there is no such mechanism. -/
def auth_refused (mem : Bool) (b : SdBus) (line : List UInt8) : Bool :=
  if line_begins line (ascii "AUTH ANONYMOUS") then
    !verify_anonymous_token mem b (line.drop 14)
  else if line_begins line (ascii "AUTH EXTERNAL") then
    !verify_external_token mem b (line.drop 13)
  else
    line_begins line (ascii "AUTH")

/-- The steps clear of the two branches that forget what was answered: an
    `AUTH` line is refused only while no mechanism is selected, and `BEGIN`
    does not come where `DATA` is awaited. -/
def careful (s : Server) : ServerLabel → Prop
  | .line env n => ∀ line, next_line s.bus = some line →
      (auth_refused (env.mem (2 * n)) s.bus line → s.bus.auth = .invalid) ∧
      (line_equals line (ascii "BEGIN") → s.bus.auth ≠ .invalid →
        ∀ l a, last_exchange s.history = some (l, a) → without_response l = false)
  | _ => True

section lines
variable {line : List UInt8} {mem : Bool} {b b' : SdBus} {a : Answer}

variable {word : List UInt8}

theorem line_equals_iff : line_equals line word ↔ line = word := by
  simp [line_equals]

/-- A line that begins with the word has it as a prefix. -/
theorem prefix_of_line_begins (h : line_begins line word) : word <+: line := by
  unfold line_begins memory_startswith at h
  split_ifs at h with hp
  · exact List.isPrefixOf_iff_prefix.mp hp

theorem eq_of_line_begins (h : line_begins line word) (hle : line.length ≤ word.length) :
    line = word :=
  ((prefix_of_line_begins h).eq_of_length_le hle).symm

theorem line_begins_auth_of_anonymous (h : line_begins line (ascii "AUTH ANONYMOUS")) :
    line_begins line (ascii "AUTH") := by
  obtain ⟨t, rfl⟩ := prefix_of_line_begins h
  rfl

theorem line_begins_auth_of_external (h : line_begins line (ascii "AUTH EXTERNAL")) :
    line_begins line (ascii "AUTH") := by
  obtain ⟨t, rfl⟩ := prefix_of_line_begins h
  rfl

/-- What answering a line means for the selected mechanism. -/
theorem handle_line_answer (h : handle_line mem b line = .answer b' a) :
    (is_exchange line = false ∧ b'.auth = b.auth) ∨ b'.auth = .invalid ∨
    (is_exchange line ∧ a = .ok ∧ credentials_accepted b line ∧
      (line_begins line (ascii "AUTH") ∨ b'.auth = b.auth)) ∨
    (line_begins line (ascii "AUTH") ∧ without_response line) ∨
    (auth_refused mem b line ∧ b'.auth = b.auth) := by
  by_cases hA : line_begins line (ascii "AUTH ANONYMOUS")
  · have hauth := line_begins_auth_of_anonymous hA
    have hx : is_exchange line := by simp [is_exchange, hauth]
    rw [handle_line] at h
    split_ifs at h with hv hl <;> cases h
    · exact .inr (.inr (.inr (.inr ⟨by simp [auth_refused, hA, hv], rfl⟩)))
    · have := eq_of_line_begins hA hl
      exact .inr (.inr (.inr (.inl ⟨hauth, by simp [without_response, line_equals, this]⟩)))
    · exact .inr (.inr (.inl ⟨hx, rfl, ⟨mem, .inl ⟨hA, by simpa using hv⟩⟩, .inl hauth⟩))
  by_cases hE : line_begins line (ascii "AUTH EXTERNAL")
  · have hauth := line_begins_auth_of_external hE
    have hx : is_exchange line := by simp [is_exchange, hauth]
    rw [handle_line, if_pos hE] at h
    split_ifs at h with hv hl <;> cases h
    · exact .inr (.inr (.inr (.inr ⟨by simp [auth_refused, hA, hE, hv], rfl⟩)))
    · have := eq_of_line_begins hE hl
      exact .inr (.inr (.inr (.inl ⟨hauth, by simp [without_response, line_equals, this]⟩)))
    · exact .inr (.inr (.inl ⟨hx, rfl, ⟨mem, .inr (.inl ⟨hE, by simpa using hv⟩)⟩, .inl hauth⟩))
  by_cases hU : line_begins line (ascii "AUTH")
  · rw [handle_line, if_neg hA, if_neg hE, if_pos hU] at h
    cases h
    exact .inr (.inr (.inr (.inr ⟨by simp [auth_refused, hA, hE, hU], rfl⟩)))
  by_cases hC : line_equals line (ascii "CANCEL") || line_begins line (ascii "ERROR")
  · rw [handle_line, if_neg hA, if_neg hE, if_neg hU, if_pos hC] at h
    cases h
    exact .inr (.inl rfl)
  by_cases hB : line_equals line (ascii "BEGIN")
  · rw [handle_line, if_neg hE, if_neg hU, if_neg hC, if_pos hB] at h
    split_ifs at h with hi
    cases h
    exact .inr (.inl hi)
  by_cases hD : line_begins line (ascii "DATA")
  · rw [handle_line, if_neg hE, if_neg hU, if_neg hC, if_neg hB, if_pos hD] at h
    split_ifs at h with hi hv <;> cases h
    · exact .inr (.inl hi)
    · exact .inr (.inl rfl)
    · have hx : is_exchange line := by simp [is_exchange, hD]
      refine .inr (.inr (.inl ⟨hx, rfl, ⟨mem, .inr (.inr ⟨hD, ?_⟩)⟩, .inr rfl⟩))
      unfold verify_data_token at hv
      split_ifs at hv <;> simp_all
  -- what is left is not about authentication
  have hx : is_exchange line = false := by simp_all [is_exchange]
  rw [handle_line, if_neg hE, if_neg hU, if_neg hC, if_neg hB, if_neg hD] at h
  split_ifs at h <;> cases h <;> exact .inl ⟨hx, rfl⟩

/-- Only `BEGIN`, with a mechanism selected, starts the connection. -/
theorem handle_line_begin (h : handle_line mem b line = .begin) :
    line_equals line (ascii "BEGIN") ∧ b.auth ≠ .invalid := by
  unfold handle_line at h
  split_ifs at h with _ _ _ _ _ _ _ _ hB hi
  exact ⟨hB, hi⟩

/-- `credentials_accepted` depends on what the server allows only. -/
theorem credentials_accepted_congr (ha : b'.anonymous_auth = b.anonymous_auth)
    (hu : b'.ucred_uid = b.ucred_uid) (h : credentials_accepted b line) :
    credentials_accepted b' line := by
  unfold credentials_accepted verify_anonymous_token verify_external_token at *
  rwa [ha, hu]

end lines

/-! ### The invariant -/

/-- Why a mechanism is selected: the exchange ended with OK, or its response
    is awaited, or the answer to the `AUTH` line that selected it could not be
    queued, so that the line is still to be handled. -/
def selected_reason (s : Server) : Prop :=
  authenticated s.bus s.history ∨
  (∃ l a, last_exchange s.history = some (l, a) ∧ without_response l) ∨
  (1 ≤ s.bus.auth_rbegin ∧ ∃ line, next_line s.bus = some line ∧ line_begins line (ascii "AUTH"))

/-- The invariant of the runs that stay clear of the two branches. -/
structure AuthInv (s : Server) : Prop where
  phase : s.bus.state = .authenticating →
    .begun ∉ s.history ∧ (s.bus.auth ≠ .invalid → selected_reason s)
  started : s.bus.state ≠ .authenticating →
    ∃ pre, s.history = pre ++ [.begun] ∧ authenticated s.bus pre

variable {h : List Event}

theorem authenticated_congr {b' : SdBus} (ha : b'.anonymous_auth = b.anonymous_auth)
    (hu : b'.ucred_uid = b.ucred_uid) (hok : authenticated b h) : authenticated b' h := by
  obtain ⟨line, hlast, hcred⟩ := hok
  exact ⟨line, hlast, credentials_accepted_congr ha hu hcred⟩

/-- Starting the connection keeps what the server allows. -/
theorem bus_start_running_config (signal : Option Errno) (b : SdBus) :
    (bus_start_running signal b).2.anonymous_auth = b.anonymous_auth ∧
    (bus_start_running signal b).2.ucred_uid = b.ucred_uid := by
  unfold bus_start_running
  split
  · exact ⟨rfl, rfl⟩
  · split <;> exact ⟨rfl, rfl⟩

theorem last_exchange_append_exchange {line : List UInt8} (hx : is_exchange line) :
    last_exchange (h ++ [.answered line a]) = some (line, a) := by
  simp [last_exchange, hx]

theorem last_exchange_append_other {line : List UInt8} (hx : is_exchange line = false) :
    last_exchange (h ++ [.answered line a]) = last_exchange h := by
  simp [last_exchange, hx]

/-- More bytes do not change a line that is complete. -/
theorem next_line_receive {bs line : List UInt8} (h : next_line b = some line) :
    next_line { b with rbuffer := b.rbuffer ++ bs } = some line := by
  obtain ⟨i, hi, rfl⟩ := map_eq_some_iff.mp h
  have hle : i + 2 ≤ (b.rbuffer.drop b.auth_rbegin).length := by
    rcases memmem_safe_le hi with hle | hnil
    · exact hle
    · cases hnil
  have hb : b.auth_rbegin ≤ b.rbuffer.length := by
    rw [List.length_drop] at hle; omega
  show ((memmem_safe ((b.rbuffer ++ bs).drop b.auth_rbegin) crlf).map _) = _
  rw [List.drop_append_of_le_length hb, memmem_safe_append hi, map_some,
    List.take_append_of_le_length (by omega)]

/-- One line keeps the invariant. -/
theorem AuthInv.line {s : Server} {env : CallEnv} {n : Nat} {line : List UInt8}
    (hi : AuthInv s) (hs : s.bus.state = .authenticating) (hb : 1 ≤ s.bus.auth_rbegin)
    (hn : next_line s.bus = some line) (hc : careful s (.line env n)) :
    AuthInv ⟨(verify_server_line env n s.bus line).2.1,
      s.history ++ (verify_server_line env n s.bus line).2.2⟩ := by
  obtain ⟨hnb, hsel⟩ := hi.phase hs
  obtain ⟨hrefused, hbegin⟩ := hc line hn
  rcases verify_server_line_cases env n s.bus line with
    ⟨-, hr⟩ | ⟨hl, rest, hr⟩ | ⟨b1, a, iov, i, hl, hr⟩ | ⟨b1, a, o, iov, i, hl, hr⟩
  · -- output is still queued
    rw [hr]
    simpa using hi
  · -- the connection is started
    obtain ⟨hB, hauth⟩ := handle_line_begin hl
    have hline : line = ascii "BEGIN" := line_equals_iff.mp hB
    have hok : authenticated s.bus s.history := by
      rcases hsel hauth with h | ⟨l, a, hlast, hw⟩ | ⟨-, l, hl', hA⟩
      · exact h
      · rw [hbegin hB hauth l a hlast] at hw
        cases hw
      · obtain rfl : line = l := some.inj (hn.symm.trans hl')
        rw [hline] at hA
        cases hA
    rw [hr]
    obtain ⟨ha, hu⟩ := bus_start_running_config env.signal { s.bus with rbuffer := rest }
    have hst := bus_start_running_state env.signal { s.bus with rbuffer := rest }
    constructor
    · intro h
      rw [hst] at h
      split at h <;> cases h
    · exact fun _ => ⟨s.history, rfl, authenticated_congr ha hu hok⟩
  · -- the line is answered
    have hans := handle_line_answer hl
    obtain ⟨auth, can_fds, rfl⟩ := handle_line_frame hl
    rw [hr]
    refine ⟨fun _ => ⟨by simpa using hnb, fun hauth => ?_⟩, fun h => absurd hs h⟩
    rcases hans with ⟨hx, rfl⟩ | hinv | ⟨hx, rfl, hcred, -⟩ | ⟨hA, hw⟩ | ⟨href, rfl⟩
    · rcases hsel hauth with h | ⟨l, a', hlast, hw⟩ | ⟨-, l, hl', hA⟩
      · obtain ⟨l, hlast, hcred⟩ := h
        exact .inl ⟨l, by rw [last_exchange_append_other hx]; exact hlast,
          credentials_accepted_congr rfl rfl hcred⟩
      · exact .inr (.inl ⟨l, a', by rw [last_exchange_append_other hx]; exact hlast, hw⟩)
      · obtain rfl : line = l := some.inj (hn.symm.trans hl')
        simp [is_exchange, hA] at hx
    · exact absurd hinv hauth
    · exact .inl ⟨line, last_exchange_append_exchange hx, credentials_accepted_congr rfl rfl hcred⟩
    · have hx : is_exchange line := by simp [is_exchange, hA]
      exact .inr (.inl ⟨line, a, last_exchange_append_exchange hx, hw⟩)
    · exact absurd (hrefused href) hauth
  · -- the answer could not be queued
    have hans := handle_line_answer hl
    obtain ⟨auth, can_fds, rfl⟩ := handle_line_frame hl
    rw [hr]
    refine ⟨fun _ => ⟨by simpa using hnb, fun hauth => ?_⟩, fun h => absurd hs h⟩
    have hnext : next_line { s.bus with auth, can_fds, auth_iovec := iov, auth_index := i } =
        some line := hn
    have hkeep : auth = s.bus.auth → selected_reason ⟨{ s.bus with
        auth, can_fds, auth_iovec := iov, auth_index := i }, s.history ++ []⟩ := by
      rintro rfl
      rw [List.append_nil]
      rcases hsel hauth with h | h | h
      · exact .inl (authenticated_congr rfl rfl h)
      · exact .inr (.inl h)
      · exact .inr (.inr h)
    rcases hans with ⟨-, hsame⟩ | hinv | ⟨-, -, -, hA | hsame⟩ | ⟨hA, -⟩ | ⟨-, hsame⟩
    · exact hkeep hsame
    · exact absurd hinv hauth
    · exact .inr (.inr ⟨hb, line, hnext, hA⟩)
    · exact hkeep hsame
    · exact .inr (.inr ⟨hb, line, hnext, hA⟩)
    · exact hkeep hsame

/-- Every step clear of the two branches keeps the invariant. -/
theorem AuthInv.step {s s' : Server} {l : ServerLabel} (hi : AuthInv s)
    (hst : (server.restrict careful).step s l s') : AuthInv s' := by
  obtain ⟨hc, hs, h⟩ := hst
  obtain ⟨hnb, hsel⟩ := hi.phase hs
  match l with
  | .receive bs =>
    obtain rfl : s' = _ := h
    refine ⟨fun _ => ⟨hnb, fun hauth => ?_⟩, fun h => absurd hs h⟩
    rcases hsel hauth with h | h | ⟨hb, line, hn, hA⟩
    · exact .inl (authenticated_congr rfl rfl h)
    · exact .inr (.inl h)
    · exact .inr (.inr ⟨hb, line, next_line_receive hn, hA⟩)
  | .sent k =>
    obtain rfl : s' = _ := h
    refine ⟨fun _ => ⟨hnb, fun hauth => ?_⟩, fun h => absurd hs h⟩
    rcases hsel hauth with h | h | h
    · exact .inl (authenticated_congr rfl rfl h)
    · exact .inr (.inl h)
    · exact .inr (.inr h)
  | .first =>
    obtain rfl : s' = _ := h
    by_cases hb : s.bus.auth_rbegin ≤ 0
    · have hf : first_line s.bus = { s.bus with auth_rbegin := 1 } := if_pos hb
      rw [hf]
      refine ⟨fun _ => ⟨hnb, fun hauth => ?_⟩, fun h => absurd hs h⟩
      rcases hsel hauth with h | h | ⟨hb', -⟩
      · exact .inl (authenticated_congr rfl rfl h)
      · exact .inr (.inl h)
      · omega
    · have hf : first_line s.bus = s.bus := if_neg hb
      rw [hf]
      exact hi
  | .line env n =>
    obtain ⟨hb, line, hn, rfl⟩ := h
    exact hi.line hs hb hn hc

/-- **Server-side safety**: in every run that stays clear of the two
    branches, the connection is started only by a `BEGIN` before which the
    authentication exchange ended with OK, to credentials that a mechanism the
    server allows accepts. -/
theorem begin_only_after_ok {s : Server} (hs : Reachable (server.restrict careful) s) :
    (s.bus.state ≠ .authenticating →
      ∃ pre, s.history = pre ++ [.begun] ∧ authenticated s.bus pre) ∧
    (s.bus.state = .authenticating → .begun ∉ s.history) := by
  have hi : AuthInv s := by
    refine Reachable.invariant (fun s h => ?_) (fun s l s' hi hst => hi.step hst) hs
    obtain ⟨hst, hauth, -, -, -, -, hh⟩ := h
    refine ⟨fun _ => ⟨by simp [hh], fun h => absurd hauth h⟩, fun h => absurd hst h⟩
  exact ⟨hi.started, fun h => (hi.phase h).1⟩

/-! ### A run that is clear of them, and one that is not -/

/-- A server that allows both mechanisms, to a client of the user 1000. -/
def fresh_server (anonymous_auth : Bool) : Server where
  bus := {
    state := .authenticating, bus_client := false, anonymous_auth, accept_fd := false,
    can_fds := false, ucred_uid := some 1000, server_id := List.replicate 16 0x2a,
    rbuffer := [], auth := .invalid, auth_index := 0, auth_iovec := [[], [], []],
    auth_rbegin := 0 }
  history := []

theorem server_init_fresh (anonymous_auth : Bool) : server.init (fresh_server anonymous_auth) :=
  ⟨rfl, rfl, rfl, rfl, rfl, rfl, rfl⟩

/-- No allocation fails, and neither does the signal at the end. -/
def no_failure : CallEnv := ⟨fun _ => true, none⟩

/-- Bytes arrive. -/
def received (text : List UInt8) (s : Server) : Server :=
  { s with bus := first_line { s.bus with rbuffer := s.bus.rbuffer ++ text } }

/-- The line is handled. -/
def handled (line : List UInt8) (s : Server) : Server :=
  let r := verify_server_line no_failure 0 s.bus line
  ⟨r.2.1, s.history ++ r.2.2⟩

/-- Everything queued is written. -/
def written (s : Server) : Server :=
  { s with bus := advance_auth_iovec s.bus (s.bus.auth_iovec.headD []).length }

section steps
variable {ok : Server → ServerLabel → Prop} {s : Server}

theorem reachable_received (text : List UInt8) (hs : Reachable (server.restrict ok) s)
    (hst : s.bus.state = .authenticating) (hok : ∀ s, ok s (.receive text) ∧ ok s .first) :
    Reachable (server.restrict ok) (received text s) :=
  .step (.step hs ⟨(hok _).1, hst, rfl⟩) ⟨(hok _).2, hst, rfl⟩

theorem reachable_handled (line : List UInt8) (hs : Reachable (server.restrict ok) s)
    (hst : s.bus.state = .authenticating ∧ 1 ≤ s.bus.auth_rbegin ∧ next_line s.bus = some line)
    (hok : ok s (.line no_failure 0)) : Reachable (server.restrict ok) (handled line s) :=
  .step hs ⟨hok, hst.1, hst.2.1, line, hst.2.2, rfl⟩

theorem reachable_written (hs : Reachable (server.restrict ok) s)
    (hst : s.bus.state = .authenticating) (hok : ∀ k, ok s (.sent k)) :
    Reachable (server.restrict ok) (written s) :=
  .step hs ⟨hok _, hst, rfl⟩

end steps

/-- The client authenticates as anonymous, with the token `a`. -/
def anonymous_accepted : Server :=
  written (handled (ascii "AUTH ANONYMOUS 61")
    (received (0 :: ascii "AUTH ANONYMOUS 61\r\nBEGIN\r\n") (fresh_server true)))

theorem reachable_anonymous_accepted : Reachable (server.restrict careful) anonymous_accepted := by
  refine reachable_written (reachable_handled _ (reachable_received _
    (.init (server_init_fresh true)) rfl fun _ => ⟨trivial, trivial⟩) (by decide +kernel) ?_)
    (by decide +kernel) fun _ => trivial
  intro line hn
  obtain rfl : ascii "AUTH ANONYMOUS 61" = line :=
    some.inj (Eq.trans (by decide +kernel) hn)
  exact ⟨by decide +kernel, fun hB => absurd hB (by decide +kernel)⟩

theorem begin_only_after_ok_anonymous :
    let s := handled (ascii "BEGIN") anonymous_accepted
    s.bus.state ≠ .authenticating ∧
    ∃ pre, s.history = pre ++ [.begun] ∧ authenticated s.bus pre := by
  have hs : Reachable (server.restrict careful) (handled (ascii "BEGIN") anonymous_accepted) := by
    refine reachable_handled _ reachable_anonymous_accepted (by decide +kernel) ?_
    intro line hn
    obtain rfl : ascii "BEGIN" = line := some.inj (Eq.trans (by decide +kernel) hn)
    refine ⟨by decide +kernel, fun _ _ l a hl => ?_⟩
    have hlast : last_exchange anonymous_accepted.history =
        some (ascii "AUTH ANONYMOUS 61", .ok) := by decide +kernel
    obtain ⟨rfl, -⟩ := Prod.mk.inj (some.inj (hlast.symm.trans hl))
    decide +kernel
  have hst : (handled (ascii "BEGIN") anonymous_accepted).bus.state ≠ .authenticating := by
    decide +kernel
  exact ⟨hst, (begin_only_after_ok hs).1 hst⟩

/-- The client asks for EXTERNAL, is asked for its credentials, presents those
    of another user and is rejected. -/
def external_rejected : Server :=
  written (handled (ascii "AUTH EXTERNAL 30") (handled (ascii "AUTH EXTERNAL")
    (received (0 :: ascii "AUTH EXTERNAL\r\nAUTH EXTERNAL 30\r\nBEGIN\r\n")
      (fresh_server false))))

/-- It begins all the same. -/
theorem begin_after_rejected :
    ¬ ∀ s, Reachable server s → s.bus.state ≠ .authenticating →
      ∃ pre, s.history = pre ++ [.begun] ∧ authenticated s.bus pre := by
  intro hall
  have hr : Reachable (server.restrict fun _ _ => True) external_rejected :=
    reachable_written (reachable_handled _ (reachable_handled _ (reachable_received _
      (.init (server_init_fresh false)) rfl fun _ => ⟨trivial, trivial⟩)
      (by decide +kernel) trivial) (by decide +kernel) trivial) (by decide +kernel) fun _ => trivial
  have hs := (reachable_handled (ascii "BEGIN") hr (by decide +kernel) trivial).of_restrict
  obtain ⟨pre, hpre, line, hlast, -⟩ := hall _ hs (by decide +kernel)
  have hh : (handled (ascii "BEGIN") external_rejected).history =
      external_rejected.history ++ [.begun] := by decide +kernel
  obtain ⟨rfl, -⟩ := List.append_inj' (hpre.symm.trans hh) rfl
  have hrej : last_exchange external_rejected.history =
      some (ascii "AUTH EXTERNAL 30", .rejected) := by decide +kernel
  rw [hrej] at hlast
  cases hlast

end SdCompat.Auth
