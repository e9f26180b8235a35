import SdCompat.Lib.Transition
import SdCompat.SdBus.MessageParse

/-! # Reading messages from the socket (bus-socket.c)

    `bus_socket_read_message` reads what the next message still needs, and
    when a message is complete makes it and puts it on the receive queue.
    Descriptors come as ancillary data along with the bytes; the bus keeps
    them until the message they belong to is complete.
-/

open Bytes Transition

namespace SdCompat.Bus

open Call Outcome

def BUS_MESSAGE_SIZE_MAX : Nat := 128 * 1024 * 1024

def BUS_RQUEUE_MAX : Nat := 384 * 1024

/-! ## Section 1: Model -/

/-- A message on the receive queue: the buffer it is made of, which is its
    header from then on, and its `read_counter`. -/
structure Received where
  buffer : List UInt8
  message : SdBusMessage
  read_counter : Nat

/-- What `sd_bus` has for reading. The last three fields are a record of what
    the process did: the bytes it has read, the descriptors it was given with
    them, and the descriptors it has closed. -/
structure BusInput where
  rbuffer : List UInt8
  fds : List Int
  got_ctrunc : Bool
  can_fds : Bool
  prefer_readv : Bool
  rqueue : List Received
  read_counter : Nat
  input : List UInt8
  received : List Int
  closed : List Int

/-- A control message. -/
inductive Cmsg where
  | rights (fds : List Int)
  | pidfd (fd : Int)
  | other
  deriving DecidableEq, Repr

/-- The descriptors in it. -/
def Cmsg.fds : Cmsg → List Int
  | rights fds => fds
  | pidfd fd => [fd]
  | other => []

/-- The arrays of `SCM_RIGHTS`. -/
def scm_rights (cmsgs : List Cmsg) : List (List Int) :=
  cmsgs.filterMap fun
    | .rights fds => some fds
    | _ => none

/-- The descriptors of `SCM_PIDFD`. -/
def scm_pidfds (cmsgs : List Cmsg) : List Int :=
  cmsgs.filterMap fun
    | .pidfd fd => some fd
    | _ => none

/-- What `recvmsg` (or `readv`) comes back with: an error, or bytes (none at
    the end of the stream), with control messages and the flags `MSG_TRUNC`
    and `MSG_CTRUNC`. -/
inductive Recv where
  | error (e : Errno)
  | data (bytes : List UInt8) (cmsgs : List Cmsg) (trunc ctrunc : Bool)
  deriving DecidableEq, Repr

/-- What one call meets: the allocations that succeed (the read buffer, the
    array of descriptors, the receive queue, the copy of the remainder, the
    message), whether the input is a socket at all, and what is read. -/
structure SocketEnv where
  realloc : Bool
  fds_mem : Bool
  rqueue_mem : Bool
  memdup : Bool
  parse : ParseEnv
  enotsock : Bool
  recv : Recv

namespace BusInput

/-- Descriptors are closed. -/
def close (fds : List Int) (bus : BusInput) : BusInput :=
  { bus with closed := bus.closed ++ fds }

end BusInput

/-- `cmsg_close_all` -/
def cmsg_close_all (cmsgs : List Cmsg) : Call BusInput PUnit :=
  modify (·.close (cmsgs.flatMap Cmsg.fds))

/-- `bus_process_cmsg` -/
def bus_process_cmsg (mem : Bool) (cmsgs : List Cmsg) (ctrunc allow_fds : Bool) :
    Call BusInput PUnit := do
  let rights := scm_rights cmsgs
  let fds := rights.flatten
  -- assert(!fds), assert(pidfd < 0)
  if 1 < rights.length || 1 < (scm_pidfds cmsgs).length then abort
  else do
    modify (·.close (scm_pidfds cmsgs))
    if !allow_fds then
      if rights.isEmpty then pure ⟨⟩
      else do
        -- somebody is playing games with us: close them all, and fail
        modify (·.close fds)
        fail Errno.EIO
    else do
      let bus ← get
      if !bus.got_ctrunc then
        if !mem then do
          modify (·.close fds)
          fail Errno.ENOMEM
        else modify fun bus => { bus with fds := bus.fds ++ fds }
      else
        -- the fds would go to the wrong indexes
        modify (·.close fds)
      modify fun bus => { bus with got_ctrunc := bus.got_ctrunc || ctrunc }

/-- `bus_socket_read_message_need` -/
def bus_socket_read_message_need (rbuffer : List UInt8) : Outcome Nat :=
  if rbuffer.length < sizeof_header then .ok (sizeof_header + 8)
  else
    match bus_endian (rbuffer.headD 0) with
    | none => .err .EBADMSG
    | some e =>
      let a := toNat e (slice rbuffer 4 4)
      let b := toNat e (slice rbuffer 12 4)
      let sum := sizeof_header + alignTo b 8 + a
      if BUS_MESSAGE_SIZE_MAX ≤ sum then .err .ENOBUFS else .ok sum

/-- `bus_rqueue_make_room` -/
def bus_rqueue_make_room (mem : Bool) : Call BusInput PUnit := do
  let bus ← get
  check (bus.rqueue.length < BUS_RQUEUE_MAX) .ENOBUFS
  check mem .ENOMEM

/-- What is left of the bus when `size` bytes of its buffer have gone. The
    array of descriptors is forgotten. -/
def BusInput.advance (size : Nat) (bus : BusInput) : BusInput :=
  { bus with rbuffer := bus.rbuffer.drop size, fds := [], got_ctrunc := false }

/-- The message at the end of the queue. -/
def BusInput.enqueue (buffer : List UInt8) (m : SdBusMessage) (bus : BusInput) : BusInput :=
  { bus with
    read_counter := bus.read_counter + 1
    rqueue := bus.rqueue ++ [⟨buffer, m, bus.read_counter + 1⟩] }

/-- `bus_socket_make_message` -/
def bus_socket_make_message (env : SocketEnv) (size : Nat) : Call BusInput Nat := do
  let bus ← get
  if bus.rbuffer.length < size then abort
  else do
    bus_rqueue_make_room env.rqueue_mem
    -- the copy of the remainder
    check (bus.rbuffer.length ≤ size || env.memdup) .ENOMEM
    match bus_message_from_malloc env.parse (bus.rbuffer.take size) bus.fds bus.got_ctrunc with
    | .abort => abort
    | .err .EBADMSG => do
      -- received an invalid message, dropping
      modify (·.advance size)
      pure 1
    | .err e => fail e
    | .ok m => do
      modify fun bus => (bus.advance size).enqueue (bus.rbuffer.take size) m
      pure 1

/-- The end of `bus_socket_read_message`: what was read is in the buffer. -/
def bus_socket_read_done (env : SocketEnv) : Call BusInput Nat := do
  let bus ← get
  let need ← lift (bus_socket_read_message_need bus.rbuffer)
  if need ≤ bus.rbuffer.length then bus_socket_make_message env need else pure 1

/-- `bus_socket_read_message` from the system call on; there is room for
    `size` bytes. `handle_cmsg` tells whether `recvmsg` worked. -/
def bus_socket_read_some (env : SocketEnv) (size : Nat) : Call BusInput Nat := do
  let bus ← get
  let handle_cmsg := !bus.prefer_readv && !env.enotsock
  modify fun bus => { bus with prefer_readv := bus.prefer_readv || env.enotsock }
  match env.recv with
  | .error e => if ERRNO_IS_TRANSIENT e then pure 0 else fail e
  | .data bytes cmsgs trunc ctrunc => do
    -- the record of what came; without recvmsg() no control message does
    modify fun bus =>
      { bus with
        input := bus.input ++ bytes
        received := bus.received ++ if handle_cmsg then cmsgs.flatMap Cmsg.fds else [] }
    if bytes.isEmpty then do
      if handle_cmsg then cmsg_close_all cmsgs
      fail Errno.ECONNRESET
    else if handle_cmsg && trunc then do
      cmsg_close_all cmsgs
      fail Errno.EXFULL
    else if size < bytes.length then abort
    else do
      modify fun bus => { bus with rbuffer := bus.rbuffer ++ bytes }
      if handle_cmsg then bus_process_cmsg env.fds_mem cmsgs ctrunc bus.can_fds
      bus_socket_read_done env

/-- `bus_socket_read_message` -/
def bus_socket_read_message (env : SocketEnv) : Call BusInput Nat := do
  let bus ← get
  let need ← lift (bus_socket_read_message_need bus.rbuffer)
  if need ≤ bus.rbuffer.length then bus_socket_make_message env need
  else do
    check env.realloc .ENOMEM
    bus_socket_read_some env (need - bus.rbuffer.length)

/-! ## Section 2: What making a message does -/

theorem rqueue_make_room_cases (mem : Bool) (bus : BusInput) :
    bus_rqueue_make_room mem bus = (.ok ⟨⟩, bus) ∨
      ∃ e, bus_rqueue_make_room mem bus = (.err e, bus) := by
  unfold bus_rqueue_make_room
  rw [get_bind_run]
  cases hroom : decide (bus.rqueue.length < BUS_RQUEUE_MAX) with
  | false => exact Or.inr ⟨_, rfl⟩
  | true =>
    cases mem with
    | false => exact Or.inr ⟨_, rfl⟩
    | true => exact Or.inl rfl

/-- What `bus_socket_make_message` does: nothing, or it drops the bytes of an
    invalid message, or it puts the message that they are on the queue. -/
theorem make_message_cases (env : SocketEnv) (size : Nat) (bus : BusInput) :
    ((bus.rbuffer.length < size ∨
        bus_message_from_malloc env.parse (bus.rbuffer.take size) bus.fds bus.got_ctrunc = .abort) ∧
      bus_socket_make_message env size bus = (.abort, bus)) ∨
    (∃ e, bus_socket_make_message env size bus = (.err e, bus)) ∨
    (bus_message_from_malloc env.parse (bus.rbuffer.take size) bus.fds bus.got_ctrunc
        = .err .EBADMSG ∧ bus_socket_make_message env size bus = (.ok 1, bus.advance size)) ∨
    ∃ m, bus_message_from_malloc env.parse (bus.rbuffer.take size) bus.fds bus.got_ctrunc = .ok m ∧
      bus_socket_make_message env size bus =
        (.ok 1, (bus.advance size).enqueue (bus.rbuffer.take size) m) := by
  unfold bus_socket_make_message
  rw [get_bind_run]
  by_cases hlen : bus.rbuffer.length < size
  · rw [if_pos hlen]
    exact Or.inl ⟨Or.inl hlen, rfl⟩
  rw [if_neg hlen]
  rcases rqueue_make_room_cases env.rqueue_mem bus with hroom | ⟨e, hroom⟩
  · rw [bind_run_ok hroom]
    cases hdup : (decide (bus.rbuffer.length ≤ size) || env.memdup) with
    | false => exact Or.inr (Or.inl ⟨_, rfl⟩)
    | true =>
      match hm : bus_message_from_malloc env.parse (bus.rbuffer.take size) bus.fds
        bus.got_ctrunc with
      | .abort => exact Or.inl ⟨Or.inr rfl, rfl⟩
      | .ok m => exact Or.inr (Or.inr (Or.inr ⟨m, rfl, rfl⟩))
      | .err e =>
        by_cases he : e = .EBADMSG
        · subst he
          exact Or.inr (Or.inr (Or.inl ⟨rfl, rfl⟩))
        · right
          left
          refine ⟨e, ?_⟩
          cases e <;> first | rfl | exact absurd rfl he
  · right
    left
    refine ⟨e, ?_⟩
    rw [bind_run, hroom]

/-! ## Section 3: The size of a message -/

/-- The fixed header is all that is looked at. -/
theorem read_message_need_append {b t : List UInt8} (h : sizeof_header ≤ b.length) :
    bus_socket_read_message_need (b ++ t) = bus_socket_read_message_need b := by
  have h16 : 16 ≤ b.length := h
  have hhead : (b ++ t).headD 0 = b.headD 0 := by
    cases b with
    | nil => cases h16
    | cons x xs => rfl
  unfold bus_socket_read_message_need
  rw [hhead, slice_append_left (by omega), slice_append_left (by omega), List.length_append,
    if_neg (by omega), if_neg (by omega)]

variable {bytes : List UInt8} {fds : List Int} {m : SdBusMessage}

/-- Of a message that is accepted, all of it is needed, unless it is too
    large. -/
theorem read_message_need_of_accepted {env : ParseEnv} {ct : Bool}
    (h : bus_message_from_malloc env bytes fds ct = .ok m) : bus_socket_read_message_need bytes =
      if BUS_MESSAGE_SIZE_MAX ≤ bytes.length then .err .ENOBUFS else .ok bytes.length := by
  obtain ⟨raw, hraw, -⟩ := bind_eq_ok.mp h
  unfold message_from_header at hraw
  match bytes, hraw with
  | endian :: type :: flags :: version :: rest, hraw =>
    dsimp only at hraw
    split at hraw
    · cases hraw
    split at hraw
    · cases hraw
    split at hraw
    · cases hraw
    match he : bus_endian endian, hraw with
    | some e, hraw =>
      dsimp only at hraw
      split at hraw
      · cases hraw
      split at hraw
      · cases hraw
      split at hraw
      · cases hraw
      split at hraw
      · cases hraw
      have hlen : ¬ (endian :: type :: flags :: version :: rest).length < sizeof_header := ‹_›
      have hb : slice (endian :: type :: flags :: version :: rest) 4 4 = slice rest 0 4 := rfl
      have hf : slice (endian :: type :: flags :: version :: rest) 12 4 = slice rest 8 4 := rfl
      have hsum : sizeof_header + alignTo (toNat e (slice rest 8 4)) 8 + toNat e (slice rest 0 4)
          = (endian :: type :: flags :: version :: rest).length := by
        omega
      unfold bus_socket_read_message_need
      rw [if_neg hlen, List.headD_cons, he]
      dsimp only
      rw [hb, hf, hsum]
/-! ## Section 4: Messages are accepted whatever memory there is -/

/-- A call that either does as well as another one, or runs out of memory. -/
def OrNoMemory {σ α : Type} (x : Outcome α × σ) (y : Outcome α × σ) : Prop :=
  x = y ∨ x.1 = .err .ENOMEM

theorem OrNoMemory.bind {σ α β : Type} {x y : Call σ α} {f g : α → Call σ β} {s : σ}
    (hx : OrNoMemory (x s) (y s)) (hf : ∀ a s', OrNoMemory (f a s') (g a s')) :
    OrNoMemory ((x >>= f) s) ((y >>= g) s) := by
  rw [bind_run, bind_run]
  rcases hx with hx | hx
  · rw [hx]
    match y s with
    | (.ok a, s') => exact hf a s'
    | (.err e, s') => exact Or.inl rfl
    | (.abort, s') => exact Or.inl rfl
  · right
    match h : x s with
    | (.ok a, s') =>
      rw [h] at hx
      cases hx
    | (.err e, s') =>
      rw [h] at hx
      cases hx
      rfl
    | (.abort, s') =>
      rw [h] at hx
      cases hx

theorem OrNoMemory.refl {σ α : Type} (x : Outcome α × σ) : OrNoMemory x x := Or.inl rfl

theorem parse_field_memory (f : Fields) (mem : Bool) (field_type : UInt8)
    (signature : List UInt8) (p : ParsedFields) (s : Nat) :
    OrNoMemory (parse_field f mem field_type signature p s)
      (parse_field f true field_type signature p s) := by
  by_cases h : field_type = BUS_MESSAGE_HEADER_SIGNATURE
  · subst h
    refine .bind (.refl _) fun _ _ => .bind (.refl _) fun _ _ => .bind (.refl _) fun v s' => ?_
    cases mem with
    | true => exact .refl _
    | false => exact Or.inr rfl
  · unfold parse_field
    rw [if_neg h, if_neg h]
    exact .refl _

theorem parse_fields_loop_memory (f : Fields) (mem : Bool) (fuel : Nat) (p : ParsedFields)
    (s : Nat) :
    OrNoMemory (parse_fields_loop f mem fuel p s) (parse_fields_loop f true fuel p s) := by
  induction fuel generalizing p s with
  | zero => exact .refl _
  | succ fuel ih =>
    unfold parse_fields_loop
    rw [get_bind_run, get_bind_run]
    by_cases hlt : s < f.fields.length
    · rw [if_pos hlt, if_pos hlt]
      refine .bind ?_ fun p s' => ih p s'
      exact .bind (.refl _) fun q _ => .bind (.refl _) fun sig s' =>
        parse_field_memory f mem _ sig p s'
    · rw [if_neg hlt, if_neg hlt]
      exact .refl _

/-- The allocations of `bus_message_from_malloc` that all succeed. -/
def ParseEnv.plenty : ParseEnv := ⟨true, true⟩

/-- A message is accepted whatever memory there is, unless there is too little. -/
theorem bus_message_from_malloc_memory {ct : Bool}
    (h : bus_message_from_malloc .plenty bytes fds ct = .ok m) (env : ParseEnv) :
    bus_message_from_malloc env bytes fds ct = .ok m ∨
      bus_message_from_malloc env bytes fds ct = .err .ENOMEM := by
  unfold bus_message_from_malloc at h ⊢
  obtain ⟨raw, hraw, h⟩ := bind_eq_ok.mp h
  have hheader : message_from_header env.message bytes = .ok raw ∨
      message_from_header env.message bytes = .err .ENOMEM := by
    cases hmem : env.message with
    | true => exact Or.inl hraw
    | false =>
      right
      unfold message_from_header at hraw ⊢
      match bytes, hraw with
      | endian :: type :: flags :: version :: rest, hraw =>
        dsimp only at hraw ⊢
        by_cases h1 : (endian :: type :: flags :: version :: rest).length < sizeof_header
        · rw [if_pos h1] at hraw
          cases hraw
        by_cases h2 : (!(version == 1 || version == 2)) = true
        · rw [if_neg h1, if_pos h2] at hraw
          cases hraw
        by_cases h3 : type = 0
        · rw [if_neg h1, if_neg h2, if_pos h3] at hraw
          cases hraw
        rw [if_neg h1, if_neg h2, if_neg h3] at hraw ⊢
        match bus_endian endian, hraw with
        | some e, _ => rfl
  rcases hheader with hheader | hheader
  · rw [hheader, ok_bind]
    obtain ⟨p, hp, h⟩ := bind_eq_ok.mp h
    have hfields : message_parse_fields ⟨raw.endian, raw.fields⟩ env.signature raw.type fds.length
          ct = .ok p ∨
        message_parse_fields ⟨raw.endian, raw.fields⟩ env.signature raw.type fds.length ct
          = .err .ENOMEM := by
      unfold message_parse_fields at hp ⊢
      rcases parse_fields_loop_memory ⟨raw.endian, raw.fields⟩ env.signature raw.fields.length
        .none 0 with hl | hl
      · left
        rw [hl]
        exact hp
      · right
        rw [hl]
        rfl
    rcases hfields with hfields | hfields
    · left
      rw [hfields]
      exact h
    · right
      rw [hfields]
      rfl
  · right
    rw [hheader]
    rfl

end SdCompat.Bus
