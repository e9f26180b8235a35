import Mathlib.Data.List.Infix
import SdCompat.SdBus.SocketFraming

/-! # Sending messages (bus-socket.c, sd-bus.c)

    `sd_bus_send` writes a message to the socket directly, as far as the
    socket takes it, or puts it on the write queue; `dispatch_wqueue` writes
    what is on the queue. How much of the head of the queue has been written
    is kept apart from it, in `windex`.
-/

open Bytes Transition

namespace SdCompat.Bus

open Call List Packet

def BUS_WQUEUE_MAX : Nat := 384 * 1024

/-! ## Section 1: Model -/

/-- `BusState` -/
inductive BusState where
  | unset | watch_bind | opening | authenticating | hello | running | closing | closed
  deriving DecidableEq, Repr

/-- `BUS_IS_OPEN` -/
def BUS_IS_OPEN : BusState → Bool
  | .unset | .closing | .closed => false
  | _ => true

/-- A message that is sealed, as it is sent: the header with the header
    fields, the parts of the body, and the descriptors. -/
structure SealedMessage where
  header : List UInt8
  body_parts : List (List UInt8)
  fds : List Int
  dont_send : Bool
  header_ne : header ≠ []

namespace SealedMessage

/-- What its `iovec` is when it is set up completely. -/
def iovec (m : SealedMessage) : List (List UInt8) := m.header :: m.body_parts

/-- The serialized message. -/
def packet (m : SealedMessage) : Packet := ⟨m.iovec.flatten, m.fds⟩

end SealedMessage

/-- `BUS_MESSAGE_SIZE` -/
def BUS_MESSAGE_SIZE (m : SealedMessage) : Nat := m.iovec.flatten.length

/-- What `sd_bus` has for writing. A message is known by its number, and the
    length of its `iovec` so far is its own. The last two fields are a record:
    what was written to the socket, with the descriptors that were passed
    along with each byte, and the messages `sd_bus_send` has taken. -/
structure BusOutput where
  state : BusState
  can_fds : Bool
  output_is_socket : Bool
  prefer_writev : Bool
  wqueue : List Nat
  windex : Nat
  n_iovec : Nat → Nat
  output : List (UInt8 × List Int)
  sends : List Nat

/-- What `sendmsg` (or `writev`) comes back with: an error, or it has taken
    `k + 1` bytes, or all there were. -/
inductive Sent where
  | error (e : Errno)
  | wrote (k : Nat)
  deriving DecidableEq, Repr

/-- What one write meets: the memory for the `iovec`, the parts of the body
    that can be mapped, and what is sent. -/
structure WriteEnv where
  iovec_mem : Bool
  map : Nat → Bool
  sent : Sent

/-- `iovec_advance`: `size` bytes less at the start; `none` for going behind
    the end of the array. -/
def iovec_advance : List (List UInt8) → Nat → Option (List (List UInt8))
  | iov, 0 => some iov
  | [], _ + 1 => none
  | i :: rest, size + 1 =>
    if size + 1 < i.length then some (i.drop (size + 1) :: rest)
    else (iovec_advance rest (size + 1 - i.length)).map ([] :: ·)

section write
variable (msg : Nat → SealedMessage)

/-- The length of the `iovec` of a message is set. -/
def BusOutput.set_n_iovec (id n : Nat) (bus : BusOutput) : BusOutput :=
  { bus with n_iovec := fun i => if i = id then n else bus.n_iovec i }

/-- `bus_message_setup_iovec`. Where a part cannot be mapped, the parts before
    it stay in the `iovec`. -/
def bus_message_setup_iovec (env : WriteEnv) (id : Nat) : Call BusOutput PUnit := do
  let bus ← get
  if 0 < bus.n_iovec id then pure ⟨⟩
  else do
    check ((msg id).body_parts.isEmpty || env.iovec_mem) .ENOMEM
    let n := (msg id).body_parts.length
    let mapped := ((List.range n).takeWhile env.map).length
    modify (·.set_n_iovec id (1 + mapped))
    check (mapped == n) .ENOMEM

/-- `bus_socket_write_message`; `idx` is what was written of the message
    before. It returns what C returns, and the new `idx`. -/
def bus_socket_write_message (env : WriteEnv) (id idx : Nat) : Call BusOutput (Nat × Nat) := do
  if BUS_MESSAGE_SIZE (msg id) ≤ idx then pure (0, idx)
  else do
    bus_message_setup_iovec msg env id
    let bus ← get
    match iovec_advance ((msg id).iovec.take (bus.n_iovec id)) idx with
    | none => abort
    | some iov => do
      -- control data goes with the first byte, and not with writev()
      let sendmsg := !bus.prefer_writev && bus.output_is_socket
      let fds := if sendmsg && idx == 0 then (msg id).fds else []
      modify fun bus =>
        { bus with prefer_writev := bus.prefer_writev || !bus.output_is_socket }
      match env.sent with
      | .error e => if ERRNO_IS_TRANSIENT e then pure (0, idx) else fail e
      | .wrote k => do
        let bytes := iov.flatten.take (k + 1)
        modify fun bus => { bus with output := bus.output ++ stream ⟨bytes, fds⟩ }
        pure (1, idx + bytes.length)

/-- The loop of `dispatch_wqueue`; to run out of fuel is shown as an abort. -/
def dispatch_wqueue_loop (envs : Nat → WriteEnv) : Nat → Nat → Call BusOutput Nat
  | 0, ret => do
    match (← get).wqueue with
    | [] => pure ret
    | _ :: _ => abort
  | fuel + 1, ret => do
    let bus ← get
    match bus.wqueue with
    | [] => pure ret
    | id :: rest => do
      let (r, windex) ← bus_socket_write_message msg (envs fuel) id bus.windex
      modify fun bus => { bus with windex := windex }
      if r = 0 then pure ret
      else if BUS_MESSAGE_SIZE (msg id) ≤ windex then do
        -- fully written: drop the entry from the queue
        modify fun bus => { bus with wqueue := rest, windex := 0 }
        dispatch_wqueue_loop envs fuel 1
      else dispatch_wqueue_loop envs fuel ret

/-- `dispatch_wqueue` -/
def dispatch_wqueue (envs : Nat → WriteEnv) (fuel : Nat) : Call BusOutput Nat := do
  let bus ← get
  if bus.state ≠ .running ∧ bus.state ≠ .hello then abort
  else dispatch_wqueue_loop msg envs fuel 0

/-- What one send meets: whether the message can be sealed, the message that
    remarshalling puts in its place (or the message itself), the write, and
    the memory for the queue. -/
structure SendEnv where
  sealing : Outcome PUnit
  remarshal : Outcome Nat
  write : WriteEnv
  queue_mem : Bool

/-- A connection that breaks is closed: `bus_enter_closing`. -/
def or_closing {α : Type} (x : Call BusOutput α) : Call BusOutput α := fun bus =>
  match x bus with
  | (.err e, bus) =>
    if ERRNO_IS_DISCONNECT e then (.err .ECONNRESET, { bus with state := .closing })
    else (.err e, bus)
  | (.ok a, bus) => (.ok a, bus)
  | (.abort, bus) => (.abort, bus)

/-- The record of a message that was taken. -/
def taken (id : Nat) : Call BusOutput Nat := do
  modify fun bus => { bus with sends := bus.sends ++ [id] }
  pure 1

/-- `sd_bus_send`. With descriptors, `sd_bus_can_send` waits until the bus runs
    (which is other steps) and checks that they can be passed. -/
def sd_bus_send (env : SendEnv) (id : Nat) : Call BusOutput Nat := do
  let bus ← get
  check (BUS_IS_OPEN bus.state) .ENOTCONN
  check ((msg id).fds.isEmpty || bus.state == .running) .ENOTCONN
  check ((msg id).fds.isEmpty || bus.can_fds) .EOPNOTSUPP
  lift env.sealing
  let id ← lift env.remarshal
  -- a reply that was not requested is suppressed
  if (msg id).dont_send then taken id
  else if (bus.state == .running || bus.state == .hello) && bus.wqueue.isEmpty then do
    let (_, idx) ← or_closing (bus_socket_write_message msg env.write id 0)
    if idx < BUS_MESSAGE_SIZE (msg id) then
      -- it was not fully written: remember how much was
      modify fun bus => { bus with wqueue := [id], windex := idx }
    taken id
  else do
    check (bus.wqueue.length < BUS_WQUEUE_MAX) .ENOBUFS
    check env.queue_mem .ENOMEM
    modify fun bus => { bus with wqueue := bus.wqueue ++ [id] }
    taken id

end write

/-! ## Section 2: What a write does -/

/-- Past what was written before. -/
theorem iovec_advance_some {iov : List (List UInt8)} {size : Nat} (h : size ≤ iov.flatten.length) :
    ∃ iov', iovec_advance iov size = some iov' ∧ iov'.flatten = iov.flatten.drop size := by
  induction iov generalizing size with
  | nil =>
    obtain rfl : size = 0 := by simpa using h
    exact ⟨[], by unfold iovec_advance; rfl, rfl⟩
  | cons i rest ih =>
    match size with
    | 0 => exact ⟨i :: rest, by unfold iovec_advance; rfl, rfl⟩
    | size + 1 =>
      unfold iovec_advance
      rw [flatten_cons, length_append] at h
      by_cases hlt : size + 1 < i.length
      · rw [if_pos hlt]
        refine ⟨_, rfl, ?_⟩
        rw [flatten_cons, flatten_cons, drop_append_of_le_length (by omega)]
      · rw [if_neg hlt]
        have hle : size + 1 - i.length ≤ rest.flatten.length := by omega
        obtain ⟨iov', hiov, hflat⟩ := ih hle
        rw [hiov]
        refine ⟨_, rfl, ?_⟩
        rw [flatten_cons, flatten_cons, nil_append, hflat, drop_append,
          drop_eq_nil_of_le (show i.length ≤ size + 1 by omega), nil_append]

/-- The first bytes of a message, with its descriptors. -/
theorem Packet.stream_take (bytes : List UInt8) (fds : List Int) (n : Nat) :
    (stream ⟨bytes, fds⟩).take (n + 1) = stream ⟨bytes.take (n + 1), fds⟩ := by
  cases bytes with
  | nil => rfl
  | cons b bs => simp [stream]

theorem Packet.stream_of_prefix {a b : List UInt8} (fds : List Int) (h : a <+: b) :
    stream ⟨a, fds⟩ = (stream ⟨b, fds⟩).take a.length := by
  match a, h with
  | [], _ => rfl
  | x :: xs, h =>
    rw [length_cons, stream_take]
    have := prefix_iff_eq_take.mp h
    rw [length_cons] at this
    rw [← this]

/-- Other bytes of it. -/
theorem Packet.stream_drop (p : Packet) {n : Nat} (hn : 0 < n) :
    p.stream.drop n = stream ⟨p.bytes.drop n, []⟩ := by
  obtain ⟨bytes, fds⟩ := p
  obtain ⟨k, rfl⟩ : ∃ k, n = k + 1 := ⟨n - 1, by omega⟩
  cases bytes with
  | nil => rfl
  | cons b bs =>
    show (bs.map fun b => (b, ([] : List Int))).drop k = stream ⟨bs.drop k, []⟩
    rw [← map_drop]
    cases bs.drop k with
    | nil => rfl
    | cons c cs => rfl

section write
variable (msg : Nat → SealedMessage) (bus : BusOutput)

/-- The bytes that are in the `iovec` of a message. -/
def BusOutput.ready (id : Nat) : List UInt8 := ((msg id).iovec.take (bus.n_iovec id)).flatten

/-- How far a message may have been written: not at all, or as far as its
    `iovec` reaches. -/
def Writable (id idx : Nat) : Prop :=
  idx = 0 ∨ (0 < bus.n_iovec id ∧ idx ≤ (bus.ready msg id).length)

/-- The `iovec` of a message is set up once. -/
structure Prepares (id : Nat) (bus' : BusOutput) : Prop where
  same : bus' = { bus with n_iovec := bus'.n_iovec }
  other : ∀ i, 0 < bus.n_iovec i → bus'.n_iovec i = bus.n_iovec i
  ready : 0 < bus'.n_iovec id ∨ bus'.n_iovec id = bus.n_iovec id

variable {msg bus}

variable (msg bus) in
/-- The bytes in the `iovec` are the first of the message. -/
theorem ready_begins (id : Nat) : bus.ready msg id <+: (msg id).packet.bytes := by
  refine ⟨((msg id).iovec.drop (bus.n_iovec id)).flatten, ?_⟩
  unfold BusOutput.ready
  rw [← flatten_append, take_append_drop]
  rfl

variable (msg bus) in
/-- What `bus_message_setup_iovec` leaves behind. -/
theorem setup_iovec_prepares (env : WriteEnv) (id : Nat) :
    (bus_message_setup_iovec msg env id bus).1 ≠ .abort ∧
    Prepares bus id (bus_message_setup_iovec msg env id bus).2 ∧
    ∀ a, (bus_message_setup_iovec msg env id bus).1 = .ok a →
      0 < (bus_message_setup_iovec msg env id bus).2.n_iovec id := by
  have hrefl : Prepares bus id bus := ⟨rfl, fun _ _ => rfl, Or.inr rfl⟩
  unfold bus_message_setup_iovec
  rw [get_bind_run]
  by_cases hpos : 0 < bus.n_iovec id
  · rw [if_pos hpos]
    refine ⟨?_, hrefl, fun a _ => hpos⟩
    intro h
    cases h
  rw [if_neg hpos]
  cases hmem : (msg id).body_parts.isEmpty || env.iovec_mem with
  | false =>
    refine ⟨?_, hrefl, ?_⟩
    · intro h
      cases h
    · intro a h
      cases h
  | true =>
    rw [check_bind_run_true rfl]
    have hset : ∀ n, Prepares bus id (bus.set_n_iovec id (1 + n)) := by
      intro n
      refine ⟨rfl, ?_, Or.inl ?_⟩
      · intro i hi
        have hne : i ≠ id := by
          intro h
          rw [h] at hi
          exact hpos hi
        exact if_neg hne
      · show 0 < if id = id then 1 + n else _
        rw [if_pos rfl]
        omega
    cases hall : ((range (msg id).body_parts.length).takeWhile env.map).length ==
        (msg id).body_parts.length with
    | false =>
      refine ⟨?_, hset _, ?_⟩
      · intro h
        cases h
      · intro a h
        cases h
    | true =>
      refine ⟨?_, hset _, ?_⟩
      · intro h
        cases h
      · intro a _
        show 0 < if id = id then 1 + _ else _
        rw [if_pos rfl]
        omega

variable (msg bus) in
/-- A write has moved from `idx` to `idx'` in a message: these bytes are in
    the output, the descriptors with the first byte. -/
structure Writes (id idx : Nat) (bus' : BusOutput) (idx' : Nat) : Prop where
  same : bus' = { bus with
    n_iovec := bus'.n_iovec, prefer_writev := bus'.prefer_writev, output := bus'.output }
  other : ∀ i, 0 < bus.n_iovec i → bus'.n_iovec i = bus.n_iovec i
  prefer : bus'.prefer_writev = true → bus.prefer_writev = true ∨ bus.output_is_socket = false
  le : idx ≤ idx'
  writable : Writable msg bus' id idx'
  output : bus'.output =
    bus.output ++ ((msg id).packet.stream.drop idx).take (idx' - idx)

variable {bus' : BusOutput} {id idx : Nat}

/-- Nothing but the `iovec` has changed. -/
theorem Writes.of_prepares {bus₁ : BusOutput} (h : Prepares bus id bus₁)
    (hw : Writable msg bus id idx) (hs : bus' = { bus₁ with prefer_writev := bus'.prefer_writev })
    (hp : bus'.prefer_writev = true → bus.prefer_writev = true ∨ bus.output_is_socket = false) :
    Writes msg bus id idx bus' idx where
  same := by
    rw [hs, h.same]
  other := by
    intro i hi
    rw [hs]
    exact h.other i hi
  prefer := hp
  le := le_refl idx
  writable := by
    rcases hw with rfl | ⟨hpos, hle⟩
    · exact Or.inl rfl
    · right
      have hn : bus'.n_iovec id = bus.n_iovec id := by
        rw [hs]
        exact h.other id hpos
      unfold BusOutput.ready at hle ⊢
      rw [hn]
      exact ⟨hpos, hle⟩
  output := by
    rw [Nat.sub_self, take_zero, append_nil, hs, h.same]

/-- **One write** of `bus_socket_write_message`: whatever the socket takes, the
    output goes on by the bytes of the message that come next. -/
theorem write_message_writes (env : WriteEnv) (hw : Writable msg bus id idx)
    (hfds : (msg id).fds ≠ [] → bus.output_is_socket = true ∧ bus.prefer_writev = false) :
    (bus_socket_write_message msg env id idx bus).1 ≠ .abort ∧
    ∃ idx', Writes msg bus id idx (bus_socket_write_message msg env id idx bus).2 idx' ∧
      (∀ r i, (bus_socket_write_message msg env id idx bus).1 = .ok (r, i) → i = idx') ∧
      ∀ e, (bus_socket_write_message msg env id idx bus).1 = .err e → idx' = idx := by
  unfold bus_socket_write_message
  by_cases hsize : BUS_MESSAGE_SIZE (msg id) ≤ idx
  · rw [if_pos hsize]
    refine ⟨?_, idx, .of_prepares ⟨rfl, fun _ _ => rfl, Or.inr rfl⟩ hw rfl Or.inl, ?_, ?_⟩
    · intro h
      cases h
    · intro r i h
      cases h
      rfl
    · intro e h
      cases h
  rw [if_neg hsize]
  obtain ⟨hnot, hprep, hok⟩ := setup_iovec_prepares msg bus env id
  rw [bind_run]
  match hs : bus_message_setup_iovec msg env id bus with
  | (.abort, bus1) =>
    rw [hs] at hnot
    exact absurd rfl hnot
  | (.err e, bus1) =>
    rw [hs] at hprep
    refine ⟨?_, idx, .of_prepares hprep hw rfl ?_, ?_, fun _ _ => rfl⟩
    · intro h
      cases h
    · intro h
      left
      have hsame := hprep.same
      rw [hsame] at h
      exact h
    · intro r i h
      cases h
  | (.ok u, bus1) =>
    rw [hs] at hprep hok
    have hpos : 0 < bus1.n_iovec id := hok u rfl
    dsimp only at hprep hpos ⊢
    rw [get_bind_run]
    have hready : idx ≤ (bus1.ready msg id).length := by
      rcases hw with rfl | ⟨hpos0, hle⟩
      · exact Nat.zero_le _
      · unfold BusOutput.ready at hle ⊢
        rw [hprep.other id hpos0]
        exact hle
    obtain ⟨iov, hiov, hflat⟩ := iovec_advance_some hready
    rw [hiov]
    have hprefer : (bus1.prefer_writev || !bus1.output_is_socket) = true →
        bus.prefer_writev = true ∨ bus.output_is_socket = false := by
      rw [hprep.same]
      simp
    match env.sent with
    | .error e =>
      dsimp only
      by_cases htr : ERRNO_IS_TRANSIENT e = true
      · rw [if_pos htr]
        refine ⟨?_, idx, .of_prepares hprep hw rfl hprefer, ?_, ?_⟩
        · intro h
          cases h
        · intro r i h
          cases h
          rfl
        · intro e h
          cases h
      · rw [if_neg htr]
        refine ⟨?_, idx, .of_prepares hprep hw rfl hprefer, ?_, fun _ _ => rfl⟩
        · intro h
          cases h
        · intro r i h
          cases h
    | .wrote k =>
      have hwritten : iov.flatten.take (k + 1) <+: (msg id).packet.bytes.drop idx := by
        rw [hflat]
        have := List.IsPrefix.drop (ready_begins msg bus1 id) idx
        exact (List.take_prefix _ _).trans this
      -- the descriptors go with the first byte
      have hcontrol : idx = 0 →
          (if (!bus1.prefer_writev && bus1.output_is_socket && idx == 0) = true
            then (msg id).fds else []) = (msg id).fds := by
        intro h0
        rw [hprep.same, h0]
        by_cases hnil : (msg id).fds = []
        · rw [hnil]
          split
          · rfl
          · rfl
        · obtain ⟨hsock, hpref⟩ := hfds hnil
          simp [hsock, hpref]
      have hout : stream ⟨iov.flatten.take (k + 1),
            if (!bus1.prefer_writev && bus1.output_is_socket && idx == 0) = true
            then (msg id).fds else []⟩ =
          ((msg id).packet.stream.drop idx).take (iov.flatten.take (k + 1)).length := by
        rcases Nat.eq_zero_or_pos idx with h0 | hgt
        · rw [hcontrol h0, h0]
          rw [h0] at hwritten
          exact Packet.stream_of_prefix _ hwritten
        · have hne : (idx == 0) = false := by
            simp
            omega
          rw [hne, Bool.and_false, stream_drop _ hgt]
          exact Packet.stream_of_prefix _ hwritten
      refine ⟨?_, idx + (iov.flatten.take (k + 1)).length, ?_, ?_, ?_⟩
      · intro h
        cases h
      · exact
          { same := by
              rw [hprep.same]
              rfl
            other := hprep.other
            prefer := hprefer
            le := Nat.le_add_right ..
            writable := by
              right
              refine ⟨hpos, ?_⟩
              have hlen : (iov.flatten.take (k + 1)).length ≤ iov.flatten.length := by
                rw [length_take]
                exact Nat.min_le_right ..
              have hdrop := congrArg length hflat
              rw [length_drop] at hdrop
              show _ ≤ (bus1.ready msg id).length
              unfold BusOutput.ready at hready ⊢
              omega
            output := by
              rw [Nat.add_sub_cancel_left, ← hout]
              show bus1.output ++ _ = bus.output ++ _
              rw [hprep.same] }
      · intro r i h
        cases h
        rfl
      · intro e h
        cases h

/-! ## Section 3: The queue -/

variable (msg) in
/-- The serialized messages that were taken and are not suppressed, in order. -/
def BusOutput.stream (bus : BusOutput) : List (UInt8 × List Int) :=
  (bus.sends.filter fun id => !(msg id).dont_send).flatMap fun id => (msg id).packet.stream

variable (msg) in
/-- What is on the queue and still has to be written. -/
def BusOutput.pending (bus : BusOutput) : List (UInt8 × List Int) :=
  (bus.wqueue.flatMap fun id => (msg id).packet.stream).drop bus.windex

variable (msg) in
/-- **Invariant**: what was taken is what was written and what is pending. -/
structure Queued (bus : BusOutput) : Prop where
  written : bus.state ≠ .closed → bus.stream msg = bus.output ++ bus.pending msg
  begun : bus.output <+: bus.stream msg
  head : ∀ id rest, bus.wqueue = id :: rest → Writable msg bus id bus.windex
  empty : bus.state ≠ .closed → bus.wqueue = [] → bus.windex = 0
  fds : ∀ id ∈ bus.wqueue, (msg id).fds ≠ [] → bus.output_is_socket = true
  prefer : bus.prefer_writev = true → bus.output_is_socket = false
  can_fds : bus.can_fds = true → bus.output_is_socket = true

/-- A socket that takes descriptors is not written with `writev`. -/
theorem Queued.not_writev (h : Queued msg bus) (hs : bus.output_is_socket = true) :
    bus.prefer_writev = false := by
  by_contra hp
  have := h.prefer (by simpa using hp)
  rw [hs] at this
  cases this

theorem Writable.le_size (h : Writable msg bus id idx) : idx ≤ (msg id).packet.stream.length := by
  rw [length_stream]
  rcases h with rfl | ⟨-, hle⟩
  · exact Nat.zero_le _
  · exact hle.trans (ready_begins msg bus id).length_le

variable {rest : List Nat}

/-- The head of the queue has been written up to `idx'`. -/
theorem Queued.advance {idx' : Nat} (h : Queued msg bus) (hq : bus.wqueue = id :: rest)
    (hstate : bus.state ≠ .closed) (hw : Writes msg bus id bus.windex bus' idx') :
    Queued msg { bus' with windex := idx' } := by
  have hsame := hw.same
  have hqueue : bus'.wqueue = id :: rest := by
    rw [hsame]
    exact hq
  have hstream : bus'.stream msg = bus.stream msg := by
    rw [hsame]
    rfl
  have hwritten : bus'.stream msg =
      bus'.output ++ BusOutput.pending msg { bus' with windex := idx' } := by
    rw [hstream, h.written hstate, hw.output]
    unfold BusOutput.pending
    rw [hq, append_assoc]
    apply congrArg
    rw [hqueue, flatMap_cons]
    have h1 := (h.head id rest hq).le_size
    have h2 := hw.writable.le_size
    have hle := hw.le
    rw [drop_append_of_le_length h1, drop_append_of_le_length h2, ← append_assoc]
    apply congrArg (· ++ _)
    -- up to idx', and from there on
    have hsplit : idx' = bus.windex + (idx' - bus.windex) := by omega
    conv =>
      rhs
      arg 2
      rw [hsplit, ← drop_drop]
    rw [take_append_drop]
  exact
    { written := fun _ => hwritten
      begun := ⟨_, hwritten.symm⟩
      head := by
        intro i r hi
        rw [hqueue] at hi
        cases hi
        exact hw.writable
      empty := by
        intro _ hnil
        rw [hqueue] at hnil
        cases hnil
      fds := by
        rw [hsame]
        exact h.fds
      prefer := by
        intro hp
        have hsock : bus'.output_is_socket = bus.output_is_socket := by rw [hsame]
        rcases hw.prefer hp with hp | hp
        · rw [hsock]
          exact h.prefer hp
        · rw [hsock]
          exact hp
      can_fds := by
        rw [hsame]
        exact h.can_fds }

/-- The head of the queue, fully written, is dropped. -/
theorem Queued.drop_head (h : Queued msg bus) (hq : bus.wqueue = id :: rest)
    (hstate : bus.state ≠ .closed) (hall : BUS_MESSAGE_SIZE (msg id) ≤ bus.windex) :
    Queued msg { bus with wqueue := rest, windex := 0 } := by
  have hlen : bus.windex = (msg id).packet.stream.length := by
    have := (h.head id rest hq).le_size
    have hsize : (msg id).packet.stream.length = BUS_MESSAGE_SIZE (msg id) :=
      length_stream _
    omega
  have hpending : bus.pending msg =
      BusOutput.pending msg { bus with wqueue := rest, windex := 0 } := by
    unfold BusOutput.pending
    rw [hq, flatMap_cons, hlen, drop_left]
    rfl
  exact
    { written := by
        intro _
        rw [← hpending]
        exact h.written hstate
      begun := h.begun
      head := fun _ _ _ => Or.inl rfl
      empty := fun _ _ => rfl
      fds := by
        intro i hi
        apply h.fds
        rw [hq]
        exact mem_cons_of_mem _ hi
      prefer := h.prefer
      can_fds := h.can_fds }

/-- The loop of `dispatch_wqueue`, round by round. -/
theorem Queued.dispatch_loop (envs : Nat → WriteEnv) (fuel ret : Nat) (h : Queued msg bus)
    (hstate : bus.state ≠ .closed) : Queued msg (dispatch_wqueue_loop msg envs fuel ret bus).2 := by
  induction fuel generalizing bus ret with
  | zero =>
    unfold dispatch_wqueue_loop
    rw [get_bind_run]
    match hq : bus.wqueue with
    | [] => exact h
    | id :: rest => exact h
  | succ fuel ih =>
    unfold dispatch_wqueue_loop
    rw [get_bind_run]
    match hq : bus.wqueue with
    | [] => exact h
    | id :: rest =>
      dsimp only
      have hfds : (msg id).fds ≠ [] →
          bus.output_is_socket = true ∧ bus.prefer_writev = false := by
        intro hne
        have hs := h.fds id (by rw [hq]; exact mem_cons_self) hne
        exact ⟨hs, h.not_writev hs⟩
      obtain ⟨hnot, idx', hw, hok, herr⟩ :=
        write_message_writes (envs fuel) (h.head id rest hq) hfds
      have hadv := h.advance hq hstate hw
      rw [bind_run]
      match hr : bus_socket_write_message msg (envs fuel) id bus.windex bus with
      | (.abort, bus') =>
        rw [hr] at hnot
        exact absurd rfl hnot
      | (.err e, bus') =>
        -- nothing has moved
        rw [hr] at hw hadv herr
        dsimp only at hw hadv herr
        have hidx : idx' = bus'.windex := by
          rw [herr e rfl, hw.same]
        rw [hidx] at hadv
        exact hadv
      | (.ok (r, i), bus') =>
        rw [hr] at hw hadv hok
        obtain rfl := hok r i rfl
        dsimp only at hw hadv ⊢
        have hstate' : ({ bus' with windex := i } : BusOutput).state ≠ .closed := by
          rw [hw.same]
          exact hstate
        by_cases hr0 : r = 0
        · rw [if_pos hr0]
          exact hadv
        rw [if_neg hr0]
        by_cases hall : BUS_MESSAGE_SIZE (msg id) ≤ i
        · rw [if_pos hall]
          have hq' : ({ bus' with windex := i } : BusOutput).wqueue = id :: rest := by
            rw [hw.same]
            exact hq
          exact ih 1 (hadv.drop_head hq' hstate' hall) hstate'
        · rw [if_neg hall]
          exact ih ret hadv hstate'

/-- `dispatch_wqueue` -/
theorem Queued.dispatch (envs : Nat → WriteEnv) (fuel : Nat) (h : Queued msg bus) :
    Queued msg (dispatch_wqueue msg envs fuel bus).2 := by
  unfold dispatch_wqueue
  rw [get_bind_run]
  by_cases hs : bus.state ≠ .running ∧ bus.state ≠ .hello
  · rw [if_pos hs]
    exact h
  · rw [if_neg hs]
    refine h.dispatch_loop envs fuel 0 ?_
    intro hc
    apply hs
    rw [hc]
    decide

variable (msg) in
/-- What a message adds to the stream. -/
def contribution (id : Nat) : List (UInt8 × List Int) :=
  if (msg id).dont_send then [] else (msg id).packet.stream

theorem stream_append (id : Nat) :
    BusOutput.stream msg { bus with sends := bus.sends ++ [id] } =
      bus.stream msg ++ contribution msg id := by
  unfold BusOutput.stream contribution
  cases h : (msg id).dont_send with
  | true => simp [h]
  | false => simp [h]

section
variable (h : Queued msg bus)
include h

/-- A message that is suppressed. -/
theorem Queued.suppress (hs : (msg id).dont_send = true) :
    Queued msg { bus with sends := bus.sends ++ [id] } := by
  have hstream : BusOutput.stream msg { bus with sends := bus.sends ++ [id] } =
      bus.stream msg := by
    rw [stream_append]
    unfold contribution
    rw [if_pos hs, append_nil]
  exact { h with
    written := by
      rw [hstream]
      exact h.written
    begun := by
      rw [hstream]
      exact h.begun }

/-- A message that goes to the end of the queue. -/
theorem Queued.enqueue (hs : (msg id).dont_send = false) (hopen : bus.state ≠ .closed)
    (hfds : (msg id).fds ≠ [] → bus.output_is_socket = true) :
    Queued msg { bus with wqueue := bus.wqueue ++ [id], sends := bus.sends ++ [id] } := by
  have hstream : BusOutput.stream msg
      { bus with wqueue := bus.wqueue ++ [id], sends := bus.sends ++ [id] } =
      bus.stream msg ++ (msg id).packet.stream := by
    show BusOutput.stream msg { bus with sends := bus.sends ++ [id] } = _
    rw [stream_append]
    unfold contribution
    rw [hs, if_neg Bool.false_ne_true]
  have hle : bus.windex ≤ (bus.wqueue.flatMap fun id => (msg id).packet.stream).length := by
    match hq : bus.wqueue with
    | [] =>
      rw [h.empty hopen hq]
      exact Nat.zero_le _
    | i :: rest =>
      have := (h.head i rest hq).le_size
      rw [flatMap_cons, length_append]
      omega
  have hpending : BusOutput.pending msg
      { bus with wqueue := bus.wqueue ++ [id], sends := bus.sends ++ [id] } =
      bus.pending msg ++ (msg id).packet.stream := by
    unfold BusOutput.pending
    rw [flatMap_append, drop_append_of_le_length hle]
    simp
  have hwritten : bus.stream msg ++ (msg id).packet.stream =
      bus.output ++ (bus.pending msg ++ (msg id).packet.stream) := by
    rw [h.written hopen, append_assoc]
  exact
    { written := by
        intro _
        rw [hstream, hpending]
        exact hwritten
      begun := by
        rw [hstream, hwritten]
        exact prefix_append _ _
      head := by
        intro i r hi
        match hq : bus.wqueue with
        | [] =>
          left
          exact h.empty hopen hq
        | j :: rest =>
          rw [hq] at hi
          cases hi
          exact h.head _ rest hq
      empty := by
        intro _ hnil
        cases (append_eq_nil_iff.mp hnil).2
      fds := by
        intro i hi hne
        rcases mem_append.mp hi with hi | hi
        · exact h.fds i hi hne
        · rw [mem_singleton.mp hi] at hne
          exact hfds hne
      prefer := h.prefer
      can_fds := h.can_fds }

/-- A message that is written at once, and put on the queue as far as it is
    not. -/
theorem Queued.direct (hs : (msg id).dont_send = false) (hopen : bus.state ≠ .closed)
    (hq : bus.wqueue = []) (hfds : (msg id).fds ≠ [] → bus.output_is_socket = true)
    (hw : Writes msg bus id 0 bus' idx) :
    Queued msg (if idx < BUS_MESSAGE_SIZE (msg id)
      then { bus' with wqueue := [id], windex := idx, sends := bus'.sends ++ [id] }
      else { bus' with sends := bus'.sends ++ [id] }) := by
  -- as if it had gone over the queue
  have henq := h.enqueue hs hopen hfds
  rw [hq] at henq
  have hzero := h.empty hopen hq
  have hw0 : Writes msg bus id bus.windex bus' idx := by
    rw [hzero]
    exact hw
  have hw' : Writes msg { bus with wqueue := [id], sends := bus.sends ++ [id] } id
      ({ bus with wqueue := [id], sends := bus.sends ++ [id] } : BusOutput).windex
      { bus' with wqueue := [id], sends := bus'.sends ++ [id] } idx := by
    exact
      { same := by
          have hsame := hw.same
          generalize bus'.n_iovec = n, bus'.prefer_writev = p, bus'.output = o at hsame
          subst hsame
          rfl
        other := hw.other
        prefer := hw.prefer
        le := hw0.le
        writable := hw.writable
        output := hw0.output }
  have hadv := henq.advance rfl hopen hw'
  by_cases hlt : idx < BUS_MESSAGE_SIZE (msg id)
  · rw [if_pos hlt]
    exact hadv
  · rw [if_neg hlt]
    have hdrop := hadv.drop_head rfl (by rw [hw.same]; exact hopen) (by
      show BUS_MESSAGE_SIZE (msg id) ≤ idx
      omega)
    have hback : ({ bus' with wqueue := [], windex := 0, sends := bus'.sends ++ [id] } : BusOutput)
        = { bus' with sends := bus'.sends ++ [id] } := by
      have h1 : bus'.wqueue = [] := by
        rw [hw.same]
        exact hq
      have h2 : bus'.windex = 0 := by
        rw [hw.same]
        exact hzero
      rw [← h1, ← h2]
    rw [← hback]
    exact hdrop

/-- The `iovec` of a message that is not the head of a queue. -/
theorem Queued.prepare (hw : Writes msg bus id 0 bus' 0) : Queued msg bus' := by
  have hsame := hw.same
  have hout : bus'.output = bus.output := by
    rw [hw.output]
    exact append_nil _
  exact
    { written := by
        rw [hsame, hout]
        exact h.written
      begun := by
        rw [hsame, hout]
        exact h.begun
      head := by
        intro i rest hi
        rw [hsame] at hi
        rcases h.head i rest hi with hzero | ⟨hpos, hle⟩
        · left
          rw [hsame]
          exact hzero
        · right
          have hn := hw.other i hpos
          unfold BusOutput.ready at hle ⊢
          rw [hn]
          refine ⟨hpos, ?_⟩
          rw [hsame]
          exact hle
      empty := by
        rw [hsame]
        exact h.empty
      fds := by
        rw [hsame]
        exact h.fds
      prefer := by
        intro hp
        have hsock : bus'.output_is_socket = bus.output_is_socket := by rw [hsame]
        rw [hsock]
        rcases hw.prefer hp with hp | hp
        · exact h.prefer hp
        · exact hp
      can_fds := by
        rw [hsame]
        exact h.can_fds }

/-- Another state, unless the bus is closed. -/
theorem Queued.enter {state : BusState} {can_fds : Bool} (hopen : bus.state ≠ .closed)
    (hfds : can_fds = true → bus.output_is_socket = true) :
    Queued msg { bus with state := state, can_fds := can_fds } where
  written := fun _ => h.written hopen
  begun := h.begun
  head := h.head
  empty := fun _ => h.empty hopen
  fds := h.fds
  prefer := h.prefer
  can_fds := hfds

end

/-- `sd_bus_send` -/
theorem Queued.send (env : SendEnv) (h : Queued msg bus)
    (hre : ∀ id', env.remarshal = .ok id' → (msg id').fds ≠ [] → (msg id).fds ≠ []) :
    Queued msg (sd_bus_send msg env id bus).2 := by
  unfold sd_bus_send
  rw [get_bind_run]
  cases hopen : BUS_IS_OPEN bus.state with
  | false => exact h
  | true =>
  rw [check_bind_run_true rfl]
  have hstate : bus.state ≠ .closed := by
    intro hc
    rw [hc] at hopen
    cases hopen
  cases hrun : (msg id).fds.isEmpty || bus.state == .running with
  | false => exact h
  | true =>
  rw [check_bind_run_true rfl]
  cases hcan : (msg id).fds.isEmpty || bus.can_fds with
  | false => exact h
  | true =>
  rw [check_bind_run_true rfl]
  match env.sealing, hre with
  | .abort, _ => exact h
  | .err _, _ => exact h
  | .ok _, hre =>
  rw [lift_bind_run_ok rfl]
  match hrem : env.remarshal, hre with
  | .abort, _ => exact h
  | .err _, _ => exact h
  | .ok id', hre =>
  rw [lift_bind_run_ok rfl]
  have hfds : (msg id').fds ≠ [] → bus.output_is_socket = true := by
    intro hne
    have hne := hre id' rfl hne
    apply h.can_fds
    simpa [hne] using hcan
  cases hds : (msg id').dont_send with
  | true =>
    exact h.suppress hds
  | false =>
  rw [if_neg Bool.false_ne_true]
  cases hdirect : (bus.state == .running || bus.state == .hello) && bus.wqueue.isEmpty with
  | false =>
    cases hmax : decide (bus.wqueue.length < BUS_WQUEUE_MAX) with
    | false => exact h
    | true =>
    cases env.queue_mem with
    | false => exact h
    | true => exact h.enqueue hds hstate hfds
  | true =>
  rw [if_pos rfl]
  have hq : bus.wqueue = [] := by
    rw [Bool.and_eq_true] at hdirect
    exact isEmpty_iff.mp hdirect.2
  have hstart : Writable msg bus id' 0 := Or.inl rfl
  obtain ⟨hnot, idx, hw, hok, herr⟩ := write_message_writes env.write hstart fun hne =>
    ⟨hfds hne, h.not_writev (hfds hne)⟩
  rw [bind_run]
  unfold or_closing
  match hr : bus_socket_write_message msg env.write id' 0 bus with
  | (.abort, bus') =>
    rw [hr] at hnot
    exact absurd rfl hnot
  | (.err e, bus') =>
    rw [hr] at hw herr
    obtain rfl := herr e rfl
    have hkeep := h.prepare hw
    dsimp only
    by_cases hdis : ERRNO_IS_DISCONNECT e = true
    · rw [if_pos hdis]
      refine hkeep.enter ?_ hkeep.can_fds
      rw [hw.same]
      exact hstate
    · rw [if_neg hdis]
      exact hkeep
  | (.ok (r, i), bus') =>
    rw [hr] at hw hok
    obtain rfl := hok r i rfl
    have hdone := h.direct hds hstate hq hfds hw
    dsimp only
    by_cases hlt : i < BUS_MESSAGE_SIZE (msg id')
    · rw [if_pos hlt] at hdone ⊢
      exact hdone
    · rw [if_neg hlt] at hdone ⊢
      exact hdone

/-! ## Section 4: Runs -/

/-- What happens to a bus that sends: a message is sent, the queue is
    dispatched, and between these the bus comes up, breaks or is closed. -/
inductive SendAct where
  | send (env : SendEnv) (id : Nat)
  | dispatch (envs : Nat → WriteEnv) (fuel : Nat)
  | enter (state : BusState) (can_fds : Bool)
  | close

variable (msg) in
/-- Every step. A message that was remarshalled has descriptors only where
    the one it was made of has; the peer agrees to descriptors only over a
    socket. -/
def sending : System BusOutput SendAct where
  init := fun bus => bus.state ≠ .closed ∧ bus.wqueue = [] ∧ bus.windex = 0 ∧
    bus.output = [] ∧ bus.sends = [] ∧
    (bus.prefer_writev = true → bus.output_is_socket = false) ∧
    (bus.can_fds = true → bus.output_is_socket = true)
  step := fun bus a bus' => match a with
    | .send env id =>
      (∀ id', env.remarshal = .ok id' → (msg id').fds ≠ [] → (msg id).fds ≠ []) ∧
      bus' = (sd_bus_send msg env id bus).2
    | .dispatch envs fuel => bus' = (dispatch_wqueue msg envs fuel bus).2
    | .enter state can_fds =>
      bus.state ≠ .closed ∧ state ≠ .closed ∧
      (can_fds = true → bus.output_is_socket = true) ∧
      bus' = { bus with state := state, can_fds := can_fds }
    | .close => bus' = { bus with state := .closed, wqueue := [] }

theorem Queued.init (h : (sending msg).init bus) : Queued msg bus := by
  obtain ⟨-, hq, hi, ho, hs, hp, hc⟩ := h
  have hstream : bus.stream msg = [] := by
    unfold BusOutput.stream
    rw [hs]
    rfl
  exact
    { written := by
        intro _
        unfold BusOutput.pending
        rw [hstream, ho, hq, hi]
        rfl
      begun := by
        rw [ho]
        exact nil_prefix
      head := fun _ _ _ => Or.inl hi
      empty := fun _ _ => hi
      fds := by
        intro id hid
        rw [hq] at hid
        cases hid
      prefer := hp
      can_fds := hc }

theorem Queued.step {a : SendAct} (h : Queued msg bus) (hst : (sending msg).step bus a bus') :
    Queued msg bus' := by
  cases a with
  | send env id =>
    obtain ⟨hre, rfl⟩ := hst
    exact h.send env hre
  | dispatch envs fuel =>
    obtain rfl := hst
    exact h.dispatch envs fuel
  | enter state can_fds =>
    obtain ⟨hopen, -, hfds, rfl⟩ := hst
    exact h.enter hopen hfds
  | close =>
    obtain rfl := hst
    exact
      { written := fun hne => absurd rfl hne
        begun := h.begun
        head := by
          intro _ _ hq
          cases hq
        empty := fun hne => absurd rfl hne
        fds := by
          intro _ hid
          cases hid
        prefer := h.prefer
        can_fds := h.can_fds }

/-- **Order of sending**: at all times, what was written to the socket is a
    prefix of the messages that were taken and are not suppressed, one after
    the other, the descriptors of each with its first byte. -/
theorem output_in_order (h : Reachable (sending msg) bus) :
    bus.output <+:
      (bus.sends.filter fun id => !(msg id).dont_send).flatMap fun id =>
        (msg id).packet.stream :=
  (Reachable.invariant (fun _ => Queued.init) (fun _ _ _ => Queued.step) h).begun

end write

/-- A reply with a descriptor in its body. -/
def replyWithFd : SealedMessage where
  header := [0x6c, 2, 1, 1, 4, 0, 0, 0, 1, 0, 0, 0, 24, 0, 0, 0, 5, 1, 0x75, 0, 1, 0, 0, 0,
    8, 1, 0x67, 0, 1, 0x68, 0, 0, 9, 1, 0x75, 0, 1, 0, 0, 0]
  body_parts := [[0, 0, 0, 0]]
  fds := [7]
  dont_send := false
  header_ne := List.cons_ne_nil _ _

/-- A reply without a body, to a call that asked for one or not. -/
def plainReply (dont_send : Bool) : SealedMessage where
  header := [0x6c, 2, 1, 1, 0, 0, 0, 0, 2, 0, 0, 0, 8, 0, 0, 0, 5, 1, 0x75, 0, 2, 0, 0, 0]
  body_parts := []
  fds := []
  dont_send := dont_send
  header_ne := List.cons_ne_nil _ _

/-- A bus that runs. -/
def BusOutput.fresh : BusOutput where
  state := .running
  can_fds := true
  output_is_socket := true
  prefer_writev := false
  wqueue := []
  windex := 0
  n_iovec := fun _ => 0
  output := []
  sends := []

/-- A write that meets nothing but a socket that takes `k + 1` bytes. -/
def WriteEnv.takes (k : Nat) : WriteEnv where
  iovec_mem := true
  map := fun _ => true
  sent := .wrote k

def SendEnv.takes (id k : Nat) : SendEnv where
  sealing := .ok ⟨⟩
  remarshal := .ok id
  write := .takes k
  queue_mem := true

/-- What a send makes of a bus, when the socket takes `k + 1` bytes. -/
def BusOutput.send (msg : Nat → SealedMessage) (bus : BusOutput) (id k : Nat) : BusOutput :=
  (sd_bus_send msg (.takes id k) id bus).2

theorem sending_send {msg : Nat → SealedMessage} {bus : BusOutput} (id k : Nat)
    (h : Reachable (sending msg) bus) : Reachable (sending msg) (bus.send msg id k) := by
  refine .step (a := .send (.takes id k) id) h ⟨?_, rfl⟩
  intro id' hid hne
  cases hid
  exact hne

theorem sending_fresh (msg : Nat → SealedMessage) : Reachable (sending msg) .fresh := by
  refine .init ⟨?_, rfl, rfl, rfl, rfl, ?_, fun _ => rfl⟩
  · intro h
    cases h
  · intro h
    cases h

/-- Three bytes of the first message are written, the second one waits behind
    it. -/
def replies (id : Nat) : SealedMessage := if id = 0 then replyWithFd else plainReply false

def sendWaits : BusOutput := (BusOutput.fresh.send replies 0 2).send replies 1 0

def sendDone : BusOutput := (dispatch_wqueue replies (fun _ => .takes 29) 3 sendWaits).2

theorem output_in_order_replies :
    (sendWaits.wqueue = [0, 1] ∧ sendWaits.windex = 3) ∧
    sendDone.output = replyWithFd.packet.stream ++ (plainReply false).packet.stream ∧
    sendDone.output <+:
      (sendDone.sends.filter fun id => !(replies id).dont_send).flatMap fun id =>
        (replies id).packet.stream := by
  have h : Reachable (sending replies) sendWaits :=
    sending_send 1 0 (sending_send 0 2 (sending_fresh replies))
  have hdone : Reachable (sending replies) sendDone :=
    .step (a := .dispatch (fun _ => .takes 29) 3) h rfl
  exact ⟨by decide +kernel, by decide +kernel, output_in_order hdone⟩

/-- The first reply is suppressed, and yet the send of it succeeds. -/
def suppressed (id : Nat) : SealedMessage := if id = 0 then plainReply true else replyWithFd

theorem output_skips_suppressed : ∃ bus, Reachable (sending suppressed) bus ∧
    bus.sends = [0, 1] ∧
    ¬ bus.output <+: bus.sends.flatMap fun id => (suppressed id).packet.stream := by
  refine ⟨(BusOutput.fresh.send suppressed 0 99).send suppressed 1 99, ?_, ?_, ?_⟩
  · exact sending_send 1 99 (sending_send 0 99 (sending_fresh suppressed))
  · decide +kernel
  · decide +kernel

end SdCompat.Bus
