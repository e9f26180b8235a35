import SdCompat.Basic.ParseUtil
import SdCompat.Basic.Utf8

/-! # The state of the authentication phase (bus-internal.h, bus-socket.c)

    The fields of `sd_bus` that the SASL exchange reads and writes, the queue
    of bytes still to be written, and the two ways into the connection proper.
-/

namespace SdCompat.Auth

/-- `BusState` -/
inductive BusState where
  | unset | watch_bind | opening | authenticating | hello | running | closing | closed
  deriving DecidableEq, Repr

/-- `BusAuth`: the selected mechanism. -/
inductive BusAuth where
  | invalid | external | anonymous
  deriving DecidableEq, Repr

/-- `sd_bus`, restricted to the authentication phase. `rbuffer` holds its
    `rbuffer_size` bytes, `auth_iovec` what is left of each vector. -/
structure SdBus where
  state : BusState
  bus_client : Bool
  anonymous_auth : Bool
  accept_fd : Bool
  can_fds : Bool
  /-- The peer's user id, when `ucred_valid`. -/
  ucred_uid : Option Nat
  /-- `server_id`, its 16 bytes. -/
  server_id : List UInt8
  rbuffer : List UInt8
  auth : BusAuth
  auth_index : Nat
  auth_iovec : List (List UInt8)
  auth_rbegin : Nat
  deriving DecidableEq, Repr

/-- `BUS_AUTH_SIZE_MAX` -/
def BUS_AUTH_SIZE_MAX : Nat := 64 * 1024

/-! ## Queued output -/

/-- `iovec_advance`, on the vectors from the index on: what is left of them,
    and by how much the index moved. -/
def iovec_advance : List (List UInt8) → Nat → List (List UInt8) × Nat
  | iov, 0 => (iov, 0)
  | [], _ => ([], 0)
  | i :: rest, size =>
    if size < i.length then
      (i.drop size :: rest, 0)
    else
      let (rest', n) := iovec_advance rest (size - i.length)
      ([] :: rest', n + 1)

/-- `bus_socket_auth_needs_write` -/
def bus_socket_auth_needs_write (b : SdBus) : Bool :=
  (b.auth_iovec.drop b.auth_index).any fun j => 0 < j.length

/-- The kernel took `k` bytes of the queued output. -/
def advance_auth_iovec (b : SdBus) (k : Nat) : SdBus :=
  let (iov, n) := iovec_advance (b.auth_iovec.drop b.auth_index) k
  { b with
    auth_iovec := b.auth_iovec.take b.auth_index ++ iov
    auth_index := b.auth_index + n }

/-! ## The end of the phase -/

/-- `bus_start_running`; `signal` is what `synthesize_connected_signal`
    returned, if it failed. -/
def bus_start_running (signal : Option Errno) (b : SdBus) : Outcome Nat × SdBus :=
  if b.bus_client then
    (.ok 1, { b with state := .hello })
  else
    match signal with
    | some e => (.err e, { b with state := .running })
    | none => (.ok 1, { b with state := .running })

theorem bus_start_running_state (signal : Option Errno) (b : SdBus) :
    (bus_start_running signal b).2.state = if b.bus_client then .hello else .running := by
  unfold bus_start_running
  split
  · simp_all
  · split <;> simp_all

theorem bus_start_running_rbuffer (signal : Option Errno) (b : SdBus) :
    (bus_start_running signal b).2.rbuffer = b.rbuffer := by
  unfold bus_start_running
  split
  · rfl
  · split <;> rfl

theorem bus_start_running_no_abort (signal : Option Errno) (b : SdBus) :
    (bus_start_running signal b).1 ≠ .abort := by
  unfold bus_start_running
  split
  · simp
  · split <;> simp

end SdCompat.Auth
