import SdCompat.Lib.Transition
import SdCompat.SdVarlink.IdlValidate

/-! # Method calls of a Varlink connection, on the server (sd-varlink.c)

    A connection has one method call at a time. `varlink_dispatch_method` reads
    it from the message, checks it, and calls the method callback or starts a
    fiber that does. Replies are sent by the callback, by whoever has taken a
    reference to the connection, or by the library itself; what the callback
    does is a sequence of calls of the API between the call and its return.
    With a sentinel the last reply to a call with the `more` flag is held back
    until it is known whether another one follows.

    Messages arrive one by one, whole. What replies contain, file descriptors,
    and the checks of replies against the interface, which only log, are left
    out.
-/

open Transition SdCompat.Json

namespace SdCompat.Varlink

open List

variable {R : Type}

/-! ## Section 1: The connection -/

/-- `VarlinkState` -/
inductive VarlinkState where
  | IDLE_CLIENT | AWAITING_REPLY | AWAITING_REPLY_MORE | CALLING | CALLED | COLLECTING
  | COLLECTING_REPLY | PROCESSING_REPLY
  | IDLE_SERVER | PROCESSING_METHOD | PROCESSING_METHOD_MORE | PROCESSING_METHOD_ONEWAY
  | PROCESSING_METHOD_UPGRADE | PROCESSED_METHOD | PROCESSED_METHOD_UPGRADE | PENDING_METHOD
  | PENDING_METHOD_MORE | PENDING_METHOD_UPGRADE | UPGRADING
  | PENDING_DISCONNECT | PENDING_TIMEOUT | PROCESSING_DISCONNECT | PROCESSING_TIMEOUT
  | PROCESSING_FAILURE | DISCONNECTED
  deriving DecidableEq, Repr

namespace VarlinkState

/-- `VARLINK_STATE_IS_ALIVE` -/
def IS_ALIVE : VarlinkState → Bool
  | PENDING_DISCONNECT | PENDING_TIMEOUT | PROCESSING_DISCONNECT | PROCESSING_TIMEOUT
  | PROCESSING_FAILURE | DISCONNECTED => false
  | _ => true

/-- `VARLINK_STATE_WANTS_REPLY` -/
def WANTS_REPLY : VarlinkState → Bool
  | PROCESSING_METHOD | PROCESSING_METHOD_MORE | PROCESSING_METHOD_UPGRADE => true
  | _ => false

/-- The states of a call that is replied to after `varlink_dispatch_method`. -/
def pending : VarlinkState → Bool
  | PENDING_METHOD | PENDING_METHOD_MORE | PENDING_METHOD_UPGRADE => true
  | _ => false

theorem not_pending {s : VarlinkState} (h : s.WANTS_REPLY = true) : s.pending = false := by
  cases s <;> simp_all [WANTS_REPLY, pending]

/-- The state is one in which replies with `more` may follow. -/
def more : VarlinkState → Bool
  | PROCESSING_METHOD_MORE | PENDING_METHOD_MORE => true
  | _ => false

end VarlinkState

/-- What `varlink_dispatch_sentinel` sends if there is no reply held back: an
    error, or an empty reply (`POINTER_MAX`). -/
inductive Sentinel where
  | error_id (id : List UInt8)
  | pointer_max
  deriving DecidableEq, Repr

/-- `sd_varlink`, of a server. The held back reply is there with its
    `continues` field. The last fields are a record: the flags of the calls
    there have been, the replies sent, each with the number of its call and
    its `continues` field, whether the callback of the last call has been
    called, whether the call is to be dispatched again, and how many callbacks
    run inside `varlink_dispatch_method` and in fibers. -/
structure ServerLink (R : Type) where
  state : VarlinkState
  current : Option (Variant R)
  sentinel : Option Sentinel
  previous : Option Bool
  crashed : Bool
  calls : List MethodFlags
  sent : List (Nat × Bool)
  invoked : Bool
  again : Bool
  frames : Nat
  fibers : Nat

namespace ServerLink

/-- `varlink_clear_current` -/
def varlink_clear_current (v : ServerLink R) : ServerLink R :=
  { v with current := none, sentinel := none, previous := none, again := false }

/-- `sd_varlink_close` -/
def sd_varlink_close (v : ServerLink R) : ServerLink R :=
  if v.state = .DISCONNECTED then v
  else { v.varlink_clear_current with state := .DISCONNECTED }

/-- A failed assertion. -/
def abort (v : ServerLink R) : ServerLink R := { v with crashed := true }

/-- `json_stream_enqueue_full`, for a reply to the call that is processed. -/
def enqueue (v : ServerLink R) (continues : Bool) : ServerLink R :=
  { v with sent := v.sent ++ [(v.calls.length - 1, continues)] }

/-- The call is through, with the last reply to it. In the pending states this
    is outside of `varlink_dispatch_method`, which does the rest otherwise. -/
def processed (v : ServerLink R) : ServerLink R :=
  if v.state.pending then { v.varlink_clear_current with state := .IDLE_SERVER }
  else { v with state := .PROCESSED_METHOD }

end ServerLink

/-- Which of the calls on the way succeed, and the error of those that do not. -/
structure ReplyEnv where
  build : Bool
  set_field : Bool
  enqueue_previous : Bool
  enqueue : Bool
  errno : Errno

/-- `sd_varlink_error_to_errno`, of an error without parameters. -/
def sd_varlink_error_to_errno (error : List UInt8) : Errno :=
  if error = ascii "io.systemd.Disconnected" then .ECONNRESET
  else if error = ascii "io.systemd.TimedOut" then .ETIMEDOUT
  else if error = ascii "io.systemd.Protocol" then .EPROTO
  else if error = ascii "org.varlink.service.InterfaceNotFound" then .EADDRNOTAVAIL
  else if error = ascii "org.varlink.service.MethodNotFound" then Errno.ENXIO
  else if error = ascii "org.varlink.service.MethodNotImplemented" then .ENOTTY
  else if error = ascii "org.varlink.service.InvalidParameter" then .EINVAL
  else if error = ascii "org.varlink.service.PermissionDenied" then .EACCES
  else if error = ascii "org.varlink.service.ExpectedMore" then .EBADE
  else if error = ascii "org.varlink.service.ExpectedUpgrade" then .EPROTOTYPE
  else .EBADR

namespace ServerLink

/-! ## Section 2: Replies -/

/-- The held back reply is sent because another one follows. It is marked
    before it is sent. -/
def flush_previous (env : ReplyEnv) (v : ServerLink R) : ServerLink R × Outcome Nat :=
  match v.previous with
  | none => (v, .ok 0)
  | some _ =>
    if ¬ env.set_field then (v, .err env.errno)
    else
      let v := { v with previous := some true }
      if ¬ env.enqueue_previous then (v, .err env.errno)
      else ({ v.enqueue true with previous := none }, .ok 0)

/-- `varlink_reply_internal` -/
def varlink_reply_internal (env : ReplyEnv) (v : ServerLink R) : ServerLink R × Outcome Nat :=
  if v.state = .DISCONNECTED then (v, .err .ENOTCONN)
  else if ¬ v.state.WANTS_REPLY ∧ ¬ v.state.pending then (v, .err .EBUSY)
  else if ¬ env.build then (v, .err env.errno)
  else if v.state.more ∧ v.sentinel.isSome then
    match v.flush_previous env with
    | (v, .ok _) => ({ v with previous := some false }, .ok 1)
    | (v, r) => (v, r)
  else if ¬ env.enqueue then (v, .err env.errno)
  else ((v.enqueue false).processed, .ok 1)

/-- `sd_varlink_reply` -/
def sd_varlink_reply (env : ReplyEnv) (v : ServerLink R) : ServerLink R × Outcome Nat :=
  v.varlink_reply_internal env

/-- `sd_varlink_error`, with what `sd_varlink_error_to_errno` makes of the
    error; that is never 0, so the call never returns success. -/
def sd_varlink_error (env : ReplyEnv) (error : Errno) (v : ServerLink R) :
    ServerLink R × Outcome Nat :=
  if v.state = .DISCONNECTED then (v, .err .ENOTCONN)
  else if ¬ v.state.WANTS_REPLY ∧ ¬ v.state.pending then (v, .err .EBUSY)
  else
    match v.flush_previous env with
    | (v, .ok _) =>
      if ¬ env.build then (v, .err env.errno)
      else if ¬ env.enqueue then (v, .err env.errno)
      else ((v.enqueue false).processed, .err error)
    | (v, r) => (v, r)

/-- `sd_varlink_notify` -/
def sd_varlink_notify (env : ReplyEnv) (v : ServerLink R) : ServerLink R × Outcome Nat :=
  if v.sentinel.isSome then (v, .err .EINVAL)
  else if v.previous.isSome then (v.abort, .abort)
  else if v.state = .DISCONNECTED then (v, .err .ENOTCONN)
  else if v.state = .PROCESSING_METHOD ∨ v.state = .PENDING_METHOD then
    v.sd_varlink_error env .EBADE
  else if ¬ v.state.more then (v, .err .EBUSY)
  else if ¬ env.build then (v, .err env.errno)
  else if ¬ env.enqueue then (v, .err env.errno)
  else (v.enqueue true, .ok 1)

/-- `sd_varlink_set_sentinel` -/
def sd_varlink_set_sentinel (env : ReplyEnv) (sentinel : Sentinel) (v : ServerLink R) :
    ServerLink R × Outcome Nat :=
  if v.state = .PROCESSING_METHOD_ONEWAY then (v, .ok 0)
  else if v.state = .PROCESSING_METHOD ∨ v.state = .PROCESSING_METHOD_MORE ∨
      v.state = .PENDING_METHOD ∨ v.state = .PENDING_METHOD_MORE then
    if ¬ env.build then (v, .err env.errno)
    else ({ v with sentinel := some sentinel }, .ok 0)
  else (v, .err .EUCLEAN)

/-- `sd_varlink_respond_and_upgrade`; `buffered` says whether there is input
    left. -/
def sd_varlink_respond_and_upgrade (env : ReplyEnv) (buffered : Bool) (v : ServerLink R) :
    ServerLink R × Outcome Nat :=
  if v.state = .DISCONNECTED then (v, .err .ENOTCONN)
  else if ¬ v.state.WANTS_REPLY ∧ ¬ v.state.pending ∧ v.state ≠ .PROCESSING_METHOD_ONEWAY then
    (v, .err .EBUSY)
  else if v.state ≠ .PROCESSING_METHOD_UPGRADE ∧ v.state ≠ .PENDING_METHOD_UPGRADE then
    (v, .err .EPROTO)
  else if buffered then (v, .err .EBADMSG)
  else if ¬ env.build then (v, .err env.errno)
  else if ¬ env.enqueue then (v, .err env.errno)
  else if v.state = .PENDING_METHOD_UPGRADE then
    ({ (v.enqueue false).varlink_clear_current with state := .UPGRADING }, .ok 1)
  else ({ v.enqueue false with state := .PROCESSED_METHOD_UPGRADE }, .ok 1)

/-- `sd_varlink_reply_and_upgrade`, which closes the connection in the end,
    whether the file descriptors can be handed over or not. -/
def sd_varlink_reply_and_upgrade (env : ReplyEnv) (buffered : Bool) (v : ServerLink R) :
    ServerLink R × Outcome Nat :=
  match v.sd_varlink_respond_and_upgrade env buffered with
  | (v, .ok _) => (v.sd_varlink_close, .ok 1)
  | (v, r) => (v, r)

/-- `sd_varlink_dispatch_again` -/
def sd_varlink_dispatch_again (v : ServerLink R) : ServerLink R × Outcome Nat :=
  if v.state = .DISCONNECTED then (v, .err .ENOTCONN)
  else if ¬ v.state.pending then (v, .err .EBUSY)
  else ({ v with state := .IDLE_SERVER, again := true }, .ok 0)

/-- `varlink_dispatch_sentinel` -/
def varlink_dispatch_sentinel (env : ReplyEnv) (v : ServerLink R) : ServerLink R × Outcome Nat :=
  match v.previous with
  | some continues =>
    if ¬ env.enqueue_previous then (v, .err env.errno)
    else
      let v := { v.enqueue continues with previous := none }
      -- the state of a call that is pending, whatever may follow
      if v.state = .PENDING_METHOD ∨ v.state = .PENDING_METHOD_MORE then
        ({ v.varlink_clear_current with state := .IDLE_SERVER }, .ok 0)
      else ({ v with state := .PROCESSED_METHOD }, .ok 0)
  | none =>
    match v.sentinel with
    | none => (v.abort, .abort)
    | some .pointer_max => { v with sentinel := none }.varlink_reply_internal env
    | some (.error_id id) =>
      let (v, r) := { v with sentinel := none }.sd_varlink_error env (sd_varlink_error_to_errno id)
      if v.state = VarlinkState.PROCESSED_METHOD ∨ v.state = VarlinkState.IDLE_SERVER then
        (v, .ok 0)
      else (v, r)

end ServerLink

/-! ## Section 3: Dispatching a call -/

/-- What `varlink_dispatch_method` reads from a message. -/
structure MethodCall (R : Type) where
  method : Option (List UInt8)
  parameters : Option (Variant R)
  flags : MethodFlags

/-- One member of the message. At most one of the three flags may be set, and
    none may follow it. -/
def read_member (call : MethodCall R) (k : List UInt8) (e : Variant R) : Option (MethodCall R) :=
  let set := call.flags.oneway || call.flags.more || call.flags.upgrade
  if k = ascii "method" then
    match call.method, e with
    | none, .string s => some { call with method := some s }
    | _, _ => none
  else if k = ascii "parameters" then
    if call.parameters.isSome then none
    else if ¬ e.is_object ∧ ¬ e.is_null then none
    else some { call with parameters := some e }
  else if k = ascii "oneway" then
    match set, e with
    | false, .boolean b => some { call with flags := { call.flags with oneway := b } }
    | _, _ => none
  else if k = ascii "more" then
    match set, e with
    | false, .boolean b => some { call with flags := { call.flags with more := b } }
    | _, _ => none
  else if k = ascii "upgrade" then
    match set, e with
    | false, .boolean b => some { call with flags := { call.flags with upgrade := b } }
    | _, _ => none
  else none

/-- The members of the message, one after the other. -/
def read_members (call : MethodCall R) : List (List UInt8 × Variant R) → Option (MethodCall R)
  | [] => some call
  | (k, e) :: l => (read_member call k e).bind fun call => read_members call l

/-- The call a message is, with its method. -/
def read_call : Variant R → Option (List UInt8 × MethodCall R)
  | .object l =>
    (read_members ⟨none, none, ⟨false, false, false⟩⟩ l).bind fun call =>
      call.method.map fun method => (method, call)
  | _ => none

/-- `sd_varlink_server`, as far as it matters for calls. -/
structure MethodServer where
  methods : List UInt8 → Bool
  fiber_methods : List UInt8 → Bool
  event : Bool
  symbol_of : List UInt8 → Option Symbol
  symbols : List Symbol

/-- Where a method is implemented: by a callback, or by one that runs in a
    fiber. -/
def MethodServer.callback (server : MethodServer) (method : List UInt8) : Option Bool :=
  if server.methods method then some false
  else if server.fiber_methods method then some true
  else if method = ascii "org.varlink.service.GetInfo" then some false
  else if method = ascii "org.varlink.service.GetInterfaceDescription" then some false
  else none

/-- What `varlink_dispatch_method` meets on its way. -/
structure DispatchEnv where
  sanitize : Bool
  build : Bool
  fiber : Bool
  reply : ReplyEnv

namespace ServerLink

/-- `goto fail` -/
def fail (v : ServerLink R) : ServerLink R := v.sd_varlink_close

/-- `sd_varlink_errorb` -/
def sd_varlink_errorb (build : Bool) (env : ReplyEnv) (error : Errno) (v : ServerLink R) :
    ServerLink R × Outcome Nat :=
  if ¬ build then (v, .err env.errno) else v.sd_varlink_error env error

/-- The end of `varlink_dispatch_method`. -/
def settle (v : ServerLink R) : ServerLink R :=
  match v.state with
  | .PROCESSED_METHOD | .PROCESSING_METHOD_ONEWAY =>
    { v.varlink_clear_current with state := .IDLE_SERVER }
  | .PROCESSING_METHOD => { v with state := .PENDING_METHOD }
  | .PROCESSING_METHOD_MORE => { v with state := .PENDING_METHOD_MORE }
  | .PROCESSING_METHOD_UPGRADE => { v with state := .PENDING_METHOD_UPGRADE }
  | .PROCESSED_METHOD_UPGRADE => { v.varlink_clear_current with state := .UPGRADING }
  | .DISCONNECTED => v
  | _ => v.abort

/-- If no response has been enqueued, the connection fails. -/
def settle_unless (x : ServerLink R × Outcome Nat) : ServerLink R :=
  if ¬ x.2.isOk ∧ x.1.state.WANTS_REPLY then x.1.fail else x.1.settle

/-- `varlink_dispatch_method` after the callback, with what the callback
    returned; `bare` says whether only the server and `sd_varlink_process` have
    references to the connection. -/
def callback_returned (build : Bool) (env : ReplyEnv) (r : Option Errno) (bare : Bool)
    (v : ServerLink R) : ServerLink R :=
  if v.state.WANTS_REPLY then
    match r with
    | some e => settle_unless (v.sd_varlink_errorb build env e)
    | none =>
      if v.sentinel.isSome then settle_unless (v.varlink_dispatch_sentinel env)
      else if v.previous.isSome then v.abort
      else if bare then v.fail
      else v.settle
  else if v.previous.isSome then v.abort
  else v.settle

/-- The callback is called, which returns later, or a fiber is started for it,
    with a reference to the connection. -/
def call_callback (server : MethodServer) (env : DispatchEnv) (is_fiber : Bool)
    (v : ServerLink R) : ServerLink R :=
  if is_fiber then
    if ¬ server.event then v.callback_returned env.build env.reply (some .EDEADLK) false
    else if ¬ env.fiber then v.callback_returned env.build env.reply (some env.reply.errno) false
    else { v with fibers := v.fibers + 1, invoked := true }.callback_returned env.build env.reply
      none false
  else { v with frames := v.frames + 1, invoked := true }

/-- The state in which a call is processed. -/
def processing (flags : MethodFlags) : VarlinkState :=
  if flags.more then .PROCESSING_METHOD_MORE
  else if flags.oneway then .PROCESSING_METHOD_ONEWAY
  else if flags.upgrade then .PROCESSING_METHOD_UPGRADE
  else .PROCESSING_METHOD

/-- The record of a call that is dispatched, anew or again. -/
def begin_call (flags : MethodFlags) (v : ServerLink R) : ServerLink R :=
  if v.again then { v with state := processing flags, again := false }
  else { v with state := processing flags, calls := v.calls ++ [flags], invoked := false }

/-- The checks before the callback is called. -/
def dispatch_call (server : MethodServer) (env : DispatchEnv) (method : List UInt8)
    (parameters : Variant R) (flags : MethodFlags) [Double R] [DoubleCast R] (v : ServerLink R) :
    ServerLink R :=
  match server.callback method with
  | none =>
    if v.state.WANTS_REPLY then settle_unless (v.sd_varlink_errorb env.build env.reply Errno.ENXIO)
    else v.settle
  | some is_fiber =>
    match server.symbol_of method with
    | none => v.call_callback server env is_fiber
    | some symbol =>
      match (varlink_idl_validate_method_call server.symbols (some symbol) (some parameters)
        flags).1 with
      | .ok _ => v.call_callback server env is_fiber
      | .abort => v.abort
      -- the errors that are sent return an error, and the callback is not called
      | .err .EBADE =>
        if v.state = .PROCESSING_METHOD then settle_unless (v.sd_varlink_error env.reply .EBADE)
        else v.settle
      | .err _ =>
        if v.state.WANTS_REPLY then settle_unless (v.sd_varlink_errorb env.build env.reply .EINVAL)
        else v.settle

/-- `varlink_dispatch_method`, to where the callback is called. -/
def varlink_dispatch_method (server : MethodServer) (env : DispatchEnv) [Double R] [DoubleCast R]
    (v : ServerLink R) : ServerLink R :=
  match v.current with
  | none => v
  | some m =>
    match read_call m with
    | none => v.fail
    | some (method, call) =>
      if ¬ env.sanitize then v.fail
      else
        let parameters := match call.parameters with
          | some (.object l) => .object l
          | _ => .object []
        (v.begin_call call.flags).dispatch_call server env method parameters call.flags

/-- `varlink_fiber_entry` after the callback. -/
def fiber_returned (build : Bool) (env : ReplyEnv) (r : Option Errno) (bare : Bool)
    (v : ServerLink R) : ServerLink R :=
  if ¬ v.state.pending then v
  else
    match r with
    | some e =>
      let x := v.sd_varlink_errorb build env e
      if x.1.state.pending then x.1.fail else x.1
    | none =>
      if v.sentinel.isSome then
        let x := v.varlink_dispatch_sentinel env
        if ¬ x.2.isOk ∧ x.1.state.pending then x.1.fail else x.1
      else if bare then v.fail
      else v

/-! ## Section 4: Runs -/

/-- What a connection goes through: messages, the parts of
    `sd_varlink_process`, calls of the API, and callbacks that return. Calls of
    the API, and `sd_varlink_process` too, may come from callbacks or from
    outside of them. -/
inductive ServerLabel (R : Type) where
  | receive (m : Variant R)
  | dispatch (server : MethodServer) (env : DispatchEnv)
  | callback_return (build : Bool) (env : ReplyEnv) (r : Option Errno) (bare : Bool)
  | fiber_return (build : Bool) (env : ReplyEnv) (r : Option Errno) (bare : Bool)
  | reply (env : ReplyEnv)
  | error (env : ReplyEnv) (error : Errno)
  | notify (env : ReplyEnv)
  | set_sentinel (env : ReplyEnv) (sentinel : Sentinel)
  | respond_and_upgrade (env : ReplyEnv) (buffered : Bool)
  | reply_and_upgrade (env : ReplyEnv) (buffered : Bool)
  | dispatch_again
  | close
  | process_failed
  | test_disconnect
  | dispatch_disconnect
  | dispatch_upgrade

/-- One step of a connection. -/
def step [Double R] [DoubleCast R] (v : ServerLink R) : ServerLabel R → Option (ServerLink R) :=
  fun label =>
    if v.crashed then none
    else
      match label with
      | .receive m =>
        if v.state = .DISCONNECTED ∨ v.current.isSome then none
        else some { v with current := some m }
      | .dispatch server env =>
        if v.state ≠ .IDLE_SERVER ∨ v.current.isNone then none
        else some (v.varlink_dispatch_method server env)
      | .callback_return build env r bare =>
        if v.frames = 0 then none
        else some ({ v with frames := v.frames - 1 }.callback_returned build env r bare)
      | .fiber_return build env r bare =>
        if v.fibers = 0 then none
        else some ({ v with fibers := v.fibers - 1 }.fiber_returned build env r bare)
      | .reply env => some (v.sd_varlink_reply env).1
      | .error env e => some (v.sd_varlink_error env e).1
      | .notify env => some (v.sd_varlink_notify env).1
      | .set_sentinel env sentinel => some (v.sd_varlink_set_sentinel env sentinel).1
      | .respond_and_upgrade env buffered => some (v.sd_varlink_respond_and_upgrade env buffered).1
      | .reply_and_upgrade env buffered => some (v.sd_varlink_reply_and_upgrade env buffered).1
      | .dispatch_again => some v.sd_varlink_dispatch_again.1
      | .close => some v.sd_varlink_close
      | .process_failed =>
        if v.state.IS_ALIVE then some { v with state := .PENDING_DISCONNECT }
        else some v.sd_varlink_close
      | .test_disconnect =>
        if v.state.IS_ALIVE then some { v with state := .PENDING_DISCONNECT } else none
      | .dispatch_disconnect =>
        if v.state = .PENDING_DISCONNECT then some v.sd_varlink_close else none
      | .dispatch_upgrade => if v.state = .UPGRADING then some v.sd_varlink_close else none

/-- A connection that has been accepted. -/
def accepted : ServerLink R where
  state := .IDLE_SERVER
  current := none
  sentinel := none
  previous := none
  crashed := false
  calls := []
  sent := []
  invoked := false
  again := false
  frames := 0
  fibers := 0

/-- The calls of a connection. -/
def serving [Double R] [DoubleCast R] : System (ServerLink R) (ServerLabel R) :=
  .of_step (· = accepted) step

/-- The `continues` fields of the replies to a call, in order. -/
def replies (v : ServerLink R) (n : Nat) : List Bool :=
  (v.sent.filter fun x => x.1 = n).map (·.2)

/-- The replies are complete: all but the last are marked `continues`, and the
    last is not. -/
def Answered (l : List Bool) : Prop := ∃ k, l = replicate k true ++ [false]

/-- The callback has been called and can still reply. -/
def Owes (v : ServerLink R) : Prop :=
  v.invoked = true ∧
    (v.state.WANTS_REPLY = true ∨ v.state.pending = true ∨
      (v.state = .IDLE_SERVER ∧ v.again = true))

/-- The connection is closed, or is about to be. -/
def Gone (v : ServerLink R) : Prop :=
  v.state = .DISCONNECTED ∨ v.state = .PENDING_DISCONNECT ∨ v.crashed = true

/-- **No call is dropped.** -/
structure Sound (v : ServerLink R) : Prop where
  /-- Replies are sent in the order of the calls. -/
  order : (v.sent.map (·.1)).Pairwise (· ≤ ·)
  /-- A call that wants a reply has been replied to, or its callback, which is
      that of the last call, owes the reply and has sent none but those marked
      `continues`, or the connection is gone. -/
  calls : ∀ n flags, v.calls[n]? = some flags → flags.oneway = false →
    Answered (v.replies n) ∨
      (n + 1 = v.calls.length ∧ v.Owes ∧ ∀ c ∈ v.replies n, c = true) ∨ v.Gone
  /-- In a pending state the callback of the call has been called. -/
  pending : v.state.pending = true → v.invoked = true

/-- A call flagged `more` of a method that requires an upgrade, or a call that
    is flagged for an upgrade of a method that requires `more`. -/
def Mismatched (symbol : Symbol) (flags : MethodFlags) : Prop :=
  symbol.symbol_type = .METHOD ∧ (flags.more = true ∨ flags.upgrade = true) ∧
    ((symbol.requires_more = true ∧ flags.more = false) ∨
      (symbol.requires_upgrade = true ∧ flags.upgrade = false))

/-- The condition on steps: no call with mismatched flags is dispatched to a
    method with a callback, and no callback returns success after sending its
    held back reply has failed. -/
def Matched (v : ServerLink R) : ServerLabel R → Prop
  | .dispatch server _ =>
    v.previous ≠ some true ∧
      ∀ m method call, v.current = some m → read_call m = some (method, call) →
        (server.callback method).isSome →
          ∀ symbol, server.symbol_of method = some symbol → ¬ Mismatched symbol call.flags
  | .callback_return _ _ none _ | .fiber_return _ _ none _ => v.previous ≠ some true
  | _ => True

/-! ## Section 5: The record -/

variable {v v' : ServerLink R}

/-- Replies are numbered by calls there have been, in order. -/
structure Books (v : ServerLink R) : Prop where
  numbered : ∀ x ∈ v.sent, x.1 < v.calls.length
  order : (v.sent.map (·.1)).Pairwise (· ≤ ·)

/-- All calls before the last one are through. -/
def Before (v : ServerLink R) : Prop :=
  ∀ n flags, n + 1 < v.calls.length → v.calls[n]? = some flags → flags.oneway = false →
    Answered (v.replies n)

/-- The number of the last call. -/
def last (v : ServerLink R) : Nat := v.calls.length - 1

/-- The last call is through. -/
def Closed (v : ServerLink R) : Prop :=
  ∀ flags, v.calls.getLast? = some flags → flags.oneway = false → Answered (v.replies v.last)

theorem replies_enqueue (c : Bool) : (v.enqueue c).replies v.last = v.replies v.last ++ [c] := by
  simp [enqueue, replies, last]

theorem replies_enqueue_ne (c : Bool) {n : Nat} (hn : n ≠ v.last) :
    (v.enqueue c).replies n = v.replies n := by
  have hne : ¬ v.calls.length - 1 = n := fun h => hn h.symm
  simp [enqueue, replies, hne]

theorem Books.enqueue (h : v.Books) (hcalls : v.calls ≠ []) (c : Bool) : (v.enqueue c).Books := by
  have hpos : 0 < v.calls.length := length_pos_iff.mpr hcalls
  constructor
  · intro x hx
    rcases mem_append.mp (show x ∈ v.sent ++ [_] from hx) with hx | hx
    · exact h.numbered x hx
    · obtain rfl := mem_singleton.mp hx
      show v.calls.length - 1 < v.calls.length
      omega
  · show ((v.sent ++ [(v.calls.length - 1, c)]).map (·.1)).Pairwise (· ≤ ·)
    rw [map_append, pairwise_append]
    refine ⟨h.order, by simp, fun n hn m hm => ?_⟩
    obtain ⟨x, hx, rfl⟩ := mem_map.mp hn
    obtain rfl : m = v.calls.length - 1 := by simpa using hm
    have hlt := h.numbered x hx
    omega

theorem Before.enqueue (h : v.Before) (c : Bool) : (v.enqueue c).Before := by
  intro n flags hn hf ho
  have hne : n ≠ v.last := by
    have hn : n + 1 < v.calls.length := hn
    unfold last
    omega
  rw [replies_enqueue_ne c hne]
  exact h n flags hn hf ho

/-- Replies that are all marked, and one more that is not. -/
theorem Answered.of_continued {l : List Bool} (h : ∀ c ∈ l, c = true) : Answered (l ++ [false]) :=
  ⟨l.length, by rw [← eq_replicate_of_mem h]⟩

/-- Of a state, the one that a call without a reply is left in. -/
def settled : VarlinkState → VarlinkState
  | .PROCESSING_METHOD => .PENDING_METHOD
  | .PROCESSING_METHOD_MORE => .PENDING_METHOD_MORE
  | .PROCESSING_METHOD_UPGRADE => .PENDING_METHOD_UPGRADE
  | state => state

/-- The last call waits for a reply, and its message is still there. -/
structure OpenCall (v : ServerLink R) (flags : MethodFlags) : Prop where
  message : ∃ m method call, v.current = some m ∧ read_call m = some (method, call) ∧
    call.flags = flags
  last : v.calls.getLast? = some flags
  continued : ∀ c ∈ v.replies v.last, c = true
  sentinel : v.sentinel.isSome → processing flags ≠ .PROCESSING_METHOD_UPGRADE
  state : v.state = .IDLE_SERVER ∨ v.state = processing flags ∨
    v.state = settled (processing flags)

variable {flags : MethodFlags}

theorem OpenCall.calls (h : v.OpenCall flags) : v.calls ≠ [] := by
  intro hnil
  have hlast := h.last
  rw [hnil] at hlast
  cases hlast

/-- A reply that is not the last one. -/
theorem OpenCall.enqueue (h : v.OpenCall flags) : (v.enqueue true).OpenCall flags := by
  refine ⟨h.message, h.last, fun c hc => ?_, h.sentinel, h.state⟩
  rw [show (v.enqueue true).last = v.last from rfl, replies_enqueue] at hc
  rcases mem_append.mp hc with hc | hc
  · exact h.continued c hc
  · exact mem_singleton.mp hc

/-- The last reply. -/
theorem OpenCall.closed (h : v.OpenCall flags) : (v.enqueue false).Closed := by
  intro flags' _ _
  rw [show (v.enqueue false).last = v.last from rfl, replies_enqueue]
  exact .of_continued h.continued

/-! ## Section 6: What replies do -/

/-- A call that waits for a reply, in a state in which there can be one. -/
structure Replying (v : ServerLink R) (flags : MethodFlags) : Prop where
  books : v.Books
  before : v.Before
  call : v.OpenCall flags
  state : v.state.WANTS_REPLY = true ∨ v.state.pending = true

/-- What a call of the API can make of it: the call goes on waiting, or it has
    been replied to. -/
structure Moved (v v' : ServerLink R) : Prop where
  books : v'.Books
  frames : v'.frames = v.frames
  invoked : v'.invoked = v.invoked
  before : v'.Before
  result : (v'.state = v.state ∧ ∃ flags, v'.OpenCall flags) ∨ (v'.Closed ∧
    ((v.state.pending = true ∧ ((v'.state = .IDLE_SERVER ∧ v'.again = false ∧
        v'.sentinel = none) ∨ v'.state = .UPGRADING)) ∨
      (v.state.pending = false ∧ (v'.state = .PROCESSED_METHOD ∨
        v'.state = .PROCESSED_METHOD_UPGRADE))))

section replying
variable {flags : MethodFlags}

theorem Replying.moved (h : v.Replying flags) : v.Moved v :=
  ⟨h.books, rfl, rfl, h.before, .inl ⟨rfl, flags, h.call⟩⟩

/-- A change of what is held back and of the sentinel. -/
theorem Replying.hold (h : v.Replying flags) (previous : Option Bool) :
    { v with previous := previous }.Replying flags :=
  ⟨⟨h.books.numbered, h.books.order⟩, h.before, ⟨h.call.message, h.call.last, h.call.continued,
    h.call.sentinel, h.call.state⟩, h.state⟩

theorem Replying.unset (h : v.Replying flags) : { v with sentinel := none }.Replying flags :=
  ⟨⟨h.books.numbered, h.books.order⟩, h.before, ⟨h.call.message, h.call.last, h.call.continued,
    by simp, h.call.state⟩, h.state⟩

theorem Replying.continued (h : v.Replying flags) : (v.enqueue true).Replying flags :=
  ⟨h.books.enqueue h.call.calls true, h.before.enqueue true, h.call.enqueue, h.state⟩

/-- What moves a connection after a change that keeps the call waiting. -/
theorem Moved.of (h : v.Moved v') {w : ServerLink R} (hs : v.state = w.state)
    (hf : v.frames = w.frames) (hi : v.invoked = w.invoked) : w.Moved v' :=
  ⟨h.books, h.frames.trans hf, h.invoked.trans hi, h.before, by rw [← hs]; exact h.result⟩

/-- The last reply is sent. -/
theorem Replying.processed (h : v.Replying flags) : v.Moved (v.enqueue false).processed := by
  have hbooks := h.books.enqueue h.call.calls false
  have hbefore := h.before.enqueue false
  have hclosed := h.call.closed
  unfold ServerLink.processed
  by_cases hp : v.state.pending = true
  · rw [if_pos (show (v.enqueue false).state.pending = true from hp)]
    exact ⟨⟨hbooks.numbered, hbooks.order⟩, rfl, rfl, hbefore,
      .inr ⟨hclosed, .inl ⟨hp, .inl ⟨rfl, rfl, rfl⟩⟩⟩⟩
  · rw [if_neg (show ¬ (v.enqueue false).state.pending = true from hp)]
    exact ⟨⟨hbooks.numbered, hbooks.order⟩, rfl, rfl, hbefore,
      .inr ⟨hclosed, .inr ⟨eq_false_of_ne_true hp, .inl rfl⟩⟩⟩

section
variable (h : v.Replying flags) (env : ReplyEnv)
include h env

/-- What is held back is sent, marked. -/
theorem Replying.flush_previous :
    (v.flush_previous env).1.Replying flags ∧ (v.flush_previous env).1.state = v.state ∧
      (v.flush_previous env).1.frames = v.frames ∧
      (v.flush_previous env).1.invoked = v.invoked := by
  unfold ServerLink.flush_previous
  split
  · exact ⟨h, rfl, rfl, rfl⟩
  · split
    · exact ⟨h, rfl, rfl, rfl⟩
    · split
      · exact ⟨h.hold _, rfl, rfl, rfl⟩
      · exact ⟨((h.hold _).continued).hold none, rfl, rfl, rfl⟩

theorem Replying.varlink_reply_internal : v.Moved (v.varlink_reply_internal env).1 := by
  unfold ServerLink.varlink_reply_internal
  split
  · exact h.moved
  split
  · exact h.moved
  split
  · exact h.moved
  split
  · obtain ⟨hflush, hs, hf, hi⟩ := h.flush_previous env
    split
    · next w _ heq =>
      rw [heq] at hflush hs hf hi
      exact (hflush.hold _).moved.of hs hf hi
    · next w r heq =>
      rw [heq] at hflush hs hf hi
      exact hflush.moved.of hs hf hi
  split
  · exact h.moved
  · exact h.processed

theorem Replying.sd_varlink_error (e : Errno) : v.Moved (v.sd_varlink_error env e).1 := by
  unfold ServerLink.sd_varlink_error
  split
  · exact h.moved
  split
  · exact h.moved
  obtain ⟨hflush, hs, hf, hi⟩ := h.flush_previous env
  split
  · next w _ heq =>
    rw [heq] at hflush hs hf hi
    split
    · exact hflush.moved.of hs hf hi
    split
    · exact hflush.moved.of hs hf hi
    · exact hflush.processed.of hs hf hi
  · next w r _ heq =>
    rw [heq] at hflush hs hf hi
    exact hflush.moved.of hs hf hi

end

/-- An error is always returned. -/
theorem sd_varlink_error_not_ok (env : ReplyEnv) (e : Errno) :
    (v.sd_varlink_error env e).2.isOk = false := by
  unfold ServerLink.sd_varlink_error
  split
  · rfl
  split
  · rfl
  split
  · split
    · rfl
    split
    · rfl
    · rfl
  · next r hne heq =>
    cases r with
    | ok n => exact (hne n rfl).elim
    | err e => rfl
    | abort => rfl

theorem Replying.sd_varlink_notify (h : v.Replying flags) (env : ReplyEnv) :
    (v.sd_varlink_notify env).1 = v.abort ∨ v.Moved (v.sd_varlink_notify env).1 := by
  unfold ServerLink.sd_varlink_notify
  split
  · exact .inr h.moved
  split
  · exact .inl rfl
  split
  · exact .inr h.moved
  split
  · exact .inr (h.sd_varlink_error env _)
  split
  · exact .inr h.moved
  split
  · exact .inr h.moved
  split
  · exact .inr h.moved
  · exact .inr (h.continued.moved.of rfl rfl rfl)

/-- Of a call that is flagged for an upgrade. -/
theorem processing_upgrade_iff {s : VarlinkState} (hs : s = processing flags ∨ s = settled (processing flags)) :
    processing flags = .PROCESSING_METHOD_UPGRADE ↔
      s = .PROCESSING_METHOD_UPGRADE ∨ s = .PENDING_METHOD_UPGRADE := by
  unfold processing at *
  rcases hs with rfl | rfl
  · split <;> [skip; split <;> [skip; split]] <;> simp
  · split <;> [skip; split <;> [skip; split]] <;> simp [settled]

theorem Replying.flags_of_state (h : v.Replying flags) :
    v.state = processing flags ∨ v.state = settled (processing flags) := by
  rcases h.call.state with hs | hs
  · rcases h.state with hw | hp
    · rw [hs] at hw; cases hw
    · rw [hs] at hp; cases hp
  · exact hs

section
variable (h : v.Replying flags) (env : ReplyEnv)
include h env

theorem Replying.sd_varlink_set_sentinel (sentinel : Sentinel) :
    v.Moved (v.sd_varlink_set_sentinel env sentinel).1 := by
  unfold ServerLink.sd_varlink_set_sentinel
  split
  · exact h.moved
  split
  · next hs =>
    split
    · exact h.moved
    · have hne : processing flags ≠ .PROCESSING_METHOD_UPGRADE := by
        intro hup
        rcases (processing_upgrade_iff h.flags_of_state).mp hup with he | he
        · rw [he] at hs; simp at hs
        · rw [he] at hs; simp at hs
      exact ⟨⟨h.books.numbered, h.books.order⟩, rfl, rfl, h.before, .inl ⟨rfl, flags,
        ⟨h.call.message, h.call.last, h.call.continued, fun _ => hne, h.call.state⟩⟩⟩
  · exact h.moved

theorem Replying.sd_varlink_respond_and_upgrade (buffered : Bool) :
    v.Moved (v.sd_varlink_respond_and_upgrade env buffered).1 := by
  have hbooks := h.books.enqueue h.call.calls false
  have hbefore := h.before.enqueue false
  have hclosed := h.call.closed
  unfold ServerLink.sd_varlink_respond_and_upgrade
  split
  · exact h.moved
  split
  · exact h.moved
  split
  · exact h.moved
  next hstate =>
  split
  · exact h.moved
  split
  · exact h.moved
  split
  · exact h.moved
  split
  · next hp =>
    exact ⟨⟨hbooks.numbered, hbooks.order⟩, rfl, rfl, hbefore,
      .inr ⟨hclosed, .inl ⟨by rw [hp]; rfl, .inr rfl⟩⟩⟩
  · next hp =>
    have hs : v.state = .PROCESSING_METHOD_UPGRADE := by
      by_contra hs
      exact hstate ⟨hs, hp⟩
    exact ⟨⟨hbooks.numbered, hbooks.order⟩, rfl, rfl, hbefore,
      .inr ⟨hclosed, .inr ⟨by rw [hs]; rfl, .inr rfl⟩⟩⟩

/-- With a sentinel, what is held back is the last reply, unless an attempt to
    send it before has marked it already. -/
theorem Replying.varlink_dispatch_sentinel (hsent : v.sentinel.isSome)
    (hprev : v.previous ≠ some true) : v.Moved (v.varlink_dispatch_sentinel env).1 := by
  have hne := h.call.sentinel hsent
  unfold ServerLink.varlink_dispatch_sentinel
  split
  · next continues heq =>
    obtain rfl : continues = false := by
      cases continues with
      | true => exact absurd heq hprev
      | false => rfl
    split
    · exact h.moved
    have hbooks := h.books.enqueue h.call.calls false
    have hbefore := h.before.enqueue false
    have hclosed := h.call.closed
    dsimp only
    split
    · next hs =>
      have hp : v.state.pending = true := by
        rcases hs with hs | hs
        · rw [show v.state = _ from hs]; rfl
        · rw [show v.state = _ from hs]; rfl
      exact ⟨⟨hbooks.numbered, hbooks.order⟩, rfl, rfl, hbefore,
        .inr ⟨hclosed, .inl ⟨hp, .inl ⟨rfl, rfl, rfl⟩⟩⟩⟩
    · next hs =>
      have hp : v.state.pending = false := by
        by_contra hp
        have hup : v.state = .PENDING_METHOD_UPGRADE := by
          cases he : v.state <;> simp_all [VarlinkState.pending, enqueue]
        exact hne ((processing_upgrade_iff h.flags_of_state).mpr (.inr hup))
      exact ⟨⟨hbooks.numbered, hbooks.order⟩, rfl, rfl, hbefore,
        .inr ⟨hclosed, .inr ⟨hp, .inl rfl⟩⟩⟩
  · split
    · next he => rw [he] at hsent; cases hsent
    · exact (h.unset.varlink_reply_internal env).of rfl rfl rfl
    · next id _ =>
      have hmoved : v.Moved _ :=
        (h.unset.sd_varlink_error env (sd_varlink_error_to_errno id)).of rfl rfl rfl
      dsimp only
      split
      · exact hmoved
      · exact hmoved

end

end replying

/-! ## Section 7: The places of a call -/

/-- Inside `varlink_dispatch_method`, in the callback. -/
def Inside (v : ServerLink R) : Prop :=
  (v.state.WANTS_REPLY = true ∧ ∃ flags, v.OpenCall flags) ∨
    (v.Closed ∧ (v.state = .PROCESSING_METHOD_ONEWAY ∨ v.state = .PROCESSED_METHOD ∨
      v.state = .PROCESSED_METHOD_UPGRADE))

/-- A call in the callback that wants a reply is waiting for it. -/
theorem Inside.open (h : v.Inside) (hw : v.state.WANTS_REPLY = true) :
    ∃ flags, v.OpenCall flags := by
  rcases h with ⟨_, hopen⟩ | ⟨_, hs⟩
  · exact hopen
  · rcases hs with hs | hs | hs
    · rw [hs] at hw; cases hw
    · rw [hs] at hw; cases hw
    · rw [hs] at hw; cases hw

/-- Outside of it. -/
def Outside (v : ServerLink R) : Prop :=
  (v.invoked = true ∧ (v.state.pending = true ∨ (v.state = .IDLE_SERVER ∧ v.again = true)) ∧
      ∃ flags, v.OpenCall flags) ∨
    (v.Closed ∧ ((v.state = .IDLE_SERVER ∧ v.again = false ∧ v.sentinel = none) ∨
      v.state = .UPGRADING))

/-- What holds of a connection at any time. -/
structure Inv (v : ServerLink R) : Prop where
  books : v.Books
  pending : v.state.pending = true → v.invoked = true
  place : v.Gone ∨ (v.Before ∧
    ((v.frames = 1 ∧ v.invoked = true ∧ v.Inside) ∨ (v.frames = 0 ∧ v.Outside)))

theorem Inv.close (h : v.Books) : v.sd_varlink_close.Inv := by
  unfold ServerLink.sd_varlink_close
  split
  · next hs => exact ⟨h, by rw [hs]; nofun, .inl (.inl hs)⟩
  · exact ⟨⟨h.numbered, h.order⟩, nofun, .inl (.inl rfl)⟩

/-- A call of the API keeps the invariant, from whatever place. -/
theorem Moved.inv (h : v.Moved v') (hpending : v.state.pending = true → v.invoked = true)
    (hframes : (v.frames = 1 ∧ v.invoked = true ∧ v.state.WANTS_REPLY = true) ∨
      (v.frames = 0 ∧ v.state.pending = true)) : v'.Inv := by
  have hbefore := h.before
  rcases h.result with ⟨hs, hopen⟩ | ⟨hclosed, hmoved⟩
  · refine ⟨h.books, fun hp => by rw [h.invoked]; exact hpending (by rw [← hs]; exact hp),
      .inr ⟨hbefore, ?_⟩⟩
    rcases hframes with ⟨hf, hi, hw⟩ | ⟨hf, hp⟩
    · exact .inl ⟨h.frames.trans hf, h.invoked.trans hi, .inl ⟨by rw [hs]; exact hw, hopen⟩⟩
    · exact .inr ⟨h.frames.trans hf, .inl ⟨h.invoked.trans (hpending hp), .inl (by rw [hs]; exact hp),
        hopen⟩⟩
  · rcases hmoved with ⟨hp, hto⟩ | ⟨hp, hto⟩
    · rcases hframes with ⟨_, _, hw⟩ | ⟨hf, _⟩
      · rw [VarlinkState.not_pending hw] at hp
        cases hp
      · refine ⟨h.books, fun hp' => ?_, .inr ⟨hbefore, .inr ⟨h.frames.trans hf, .inr ⟨hclosed, hto⟩⟩⟩⟩
        rcases hto with ⟨hs, _⟩ | hs
        · rw [hs] at hp'; cases hp'
        · rw [hs] at hp'; cases hp'
    · rcases hframes with ⟨hf, hi, hw⟩ | ⟨_, hp'⟩
      · refine ⟨h.books, fun hp' => ?_, .inr ⟨hbefore, .inl ⟨h.frames.trans hf, h.invoked.trans hi,
          .inr ⟨hclosed, .inr hto⟩⟩⟩⟩
        rcases hto with hs | hs
        · rw [hs] at hp'; cases hp'
        · rw [hs] at hp'; cases hp'
      · rw [hp] at hp'
        cases hp'

/-! ## Section 8: Dispatching keeps the invariant -/

/-- A failed assertion in a state that is not pending, or in the callback. -/
theorem Books.abort (h : v.Books) (hp : v.state.pending = true → v.invoked = true) : v.abort.Inv :=
  ⟨⟨h.numbered, h.order⟩, hp, .inl (.inr (.inr rfl))⟩

/-- The end of `varlink_dispatch_method`: outside of it nothing is left of its
    states, and a call without a reply is one whose callback was called. -/
theorem Inside.settle (h : v.Inside) (hbooks : v.Books) (hbefore : v.Before) (hframes : v.frames = 0)
    (hinvoked : v.state.WANTS_REPLY = true → v.invoked = true) : v.settle.Inv := by
  rcases h with ⟨hw, flags, hcall⟩ | ⟨hclosed, hs⟩
  · have hi := hinvoked hw
    have hstate : v.state = processing flags ∨ v.state = settled (processing flags) := by
      rcases hcall.state with hs | hs
      · rw [hs] at hw; cases hw
      · exact hs
    have hto : ∀ s : VarlinkState, s.pending = true → s = settled (processing flags) →
        { v with state := s }.Inv := fun s hp hs =>
      ⟨⟨hbooks.numbered, hbooks.order⟩, fun _ => hi, .inr ⟨hbefore, .inr ⟨hframes, .inl ⟨hi, .inl hp,
        flags, hcall.message, hcall.last, hcall.continued, hcall.sentinel, .inr (.inr hs)⟩⟩⟩⟩
    unfold ServerLink.settle
    cases hs : v.state with
    | PROCESSING_METHOD =>
      refine hto _ rfl ?_
      rcases hstate with he | he
      · rw [← he, hs]; rfl
      · rw [hs] at he; cases hp : processing flags <;> rw [hp] at he <;> cases he
    | PROCESSING_METHOD_MORE =>
      refine hto _ rfl ?_
      rcases hstate with he | he
      · rw [← he, hs]; rfl
      · rw [hs] at he; cases hp : processing flags <;> rw [hp] at he <;> cases he
    | PROCESSING_METHOD_UPGRADE =>
      refine hto _ rfl ?_
      rcases hstate with he | he
      · rw [← he, hs]; rfl
      · rw [hs] at he; cases hp : processing flags <;> rw [hp] at he <;> cases he
    | _ => rw [hs] at hw; cases hw
  · have hidle : { v.varlink_clear_current with state := .IDLE_SERVER }.Inv :=
      ⟨⟨hbooks.numbered, hbooks.order⟩, nofun, .inr ⟨hbefore, .inr ⟨hframes, .inr ⟨hclosed,
        .inl ⟨rfl, rfl, rfl⟩⟩⟩⟩⟩
    unfold ServerLink.settle
    rcases hs with hs | hs | hs
    · rw [hs]
      exact hidle
    · rw [hs]
      exact hidle
    · rw [hs]
      exact ⟨⟨hbooks.numbered, hbooks.order⟩, nofun, .inr ⟨hbefore, .inr ⟨hframes, .inr ⟨hclosed,
        .inr rfl⟩⟩⟩⟩

/-- A connection that is about to be disconnected is not expected there. -/
theorem settle_gone (hs : v.state = .DISCONNECTED ∨ v.state = .PENDING_DISCONNECT) :
    v.settle = v ∨ v.settle = v.abort := by
  obtain ⟨state, _, _, _, _, _, _, _, _, _, _⟩ := v
  obtain rfl | rfl := (show state = _ ∨ state = _ from hs)
  · exact .inl rfl
  · exact .inr rfl

/-- What the library replied with, if anything, decides what becomes of the
    call. -/
theorem Moved.settle_unless {x : ServerLink R × Outcome Nat} (h : v.Moved x.1)
    (hw : v.state.WANTS_REPLY = true) (hframes : v.frames = 0)
    (hinvoked : x.2.isOk = true → v.invoked = true) : (ServerLink.settle_unless x).Inv := by
  have hnot := VarlinkState.not_pending hw
  unfold ServerLink.settle_unless
  split
  · exact Inv.close h.books
  · next hx =>
    have hinside : x.1.Inside := by
      rcases h.result with ⟨hs, hopen⟩ | ⟨hclosed, hmoved⟩
      · exact .inl ⟨by rw [hs]; exact hw, hopen⟩
      · rcases hmoved with ⟨hp, _⟩ | ⟨_, hto⟩
        · rw [hnot] at hp
          cases hp
        · exact .inr ⟨hclosed, .inr hto⟩
    refine hinside.settle h.books h.before (h.frames.trans hframes) fun hw' => ?_
    rw [h.invoked]
    refine hinvoked (by_contra fun hok => hx ⟨hok, hw'⟩)

theorem Replying.sd_varlink_errorb (h : v.Replying flags) (build : Bool) (env : ReplyEnv)
    (e : Errno) : v.Moved (v.sd_varlink_errorb build env e).1 := by
  unfold ServerLink.sd_varlink_errorb
  split
  · exact h.moved
  · exact h.sd_varlink_error env e

theorem sd_varlink_errorb_not_ok (build : Bool) (env : ReplyEnv) (e : Errno) :
    (v.sd_varlink_errorb build env e).2.isOk = false := by
  unfold ServerLink.sd_varlink_errorb
  split
  · rfl
  · exact sd_varlink_error_not_ok env e

/-- After the callback. -/
theorem Inside.callback_returned (h : v.Inside) (hbooks : v.Books) (hbefore : v.Before)
    (hframes : v.frames = 0) (hinvoked : v.invoked = true) (build : Bool) (env : ReplyEnv)
    (r : Option Errno) (bare : Bool) (hprev : r = none → v.previous ≠ some true) :
    (v.callback_returned build env r bare).Inv := by
  have habort : v.abort.Inv := hbooks.abort fun _ => hinvoked
  have hsettle := h.settle hbooks hbefore hframes fun _ => hinvoked
  unfold ServerLink.callback_returned
  by_cases hw : v.state.WANTS_REPLY = true
  · rw [if_pos hw]
    obtain ⟨flags, hcall⟩ := h.open hw
    have hreplying : v.Replying flags := ⟨hbooks, hbefore, hcall, .inl hw⟩
    cases r with
    | some e =>
      exact (hreplying.sd_varlink_errorb build env e).settle_unless hw hframes fun _ => hinvoked
    | none =>
      dsimp only
      split
      · next hsent =>
        exact (hreplying.varlink_dispatch_sentinel env hsent (hprev rfl)).settle_unless hw hframes
          fun _ => hinvoked
      split
      · exact habort
      split
      · exact Inv.close hbooks
      · exact hsettle
  · rw [if_neg hw]
    split
    · exact habort
    · exact hsettle

/-- A connection with a call that can be replied to. -/
theorem Inv.replying (h : v.Inv) (hcrashed : v.crashed = false)
    (hs : v.state.WANTS_REPLY = true ∨ v.state.pending = true) :
    ∃ flags, v.Replying flags ∧ ((v.frames = 1 ∧ v.invoked = true ∧ v.state.WANTS_REPLY = true) ∨
      (v.frames = 0 ∧ v.state.pending = true)) := by
  rcases h.place with (hd | hd | hc) | ⟨hbefore, hplace⟩
  · rw [hd] at hs; simp [VarlinkState.WANTS_REPLY, VarlinkState.pending] at hs
  · rw [hd] at hs; simp [VarlinkState.WANTS_REPLY, VarlinkState.pending] at hs
  · rw [hcrashed] at hc; cases hc
  rcases hplace with ⟨hf, hi, hin⟩ | ⟨hf, hout⟩
  · rcases hin with ⟨hw, flags, hcall⟩ | ⟨_, hd⟩
    · exact ⟨flags, ⟨h.books, hbefore, hcall, hs⟩, .inl ⟨hf, hi, hw⟩⟩
    · rcases hd with hd | hd | hd
      · rw [hd] at hs; simp [VarlinkState.WANTS_REPLY, VarlinkState.pending] at hs
      · rw [hd] at hs; simp [VarlinkState.WANTS_REPLY, VarlinkState.pending] at hs
      · rw [hd] at hs; simp [VarlinkState.WANTS_REPLY, VarlinkState.pending] at hs
  · rcases hout with ⟨_, hd | ⟨hd, _⟩, flags, hcall⟩ | ⟨_, ⟨hd, _⟩ | hd⟩
    · exact ⟨flags, ⟨h.books, hbefore, hcall, hs⟩, .inr ⟨hf, hd⟩⟩
    · rw [hd] at hs; simp [VarlinkState.WANTS_REPLY, VarlinkState.pending] at hs
    · rw [hd] at hs; simp [VarlinkState.WANTS_REPLY, VarlinkState.pending] at hs
    · rw [hd] at hs; simp [VarlinkState.WANTS_REPLY, VarlinkState.pending] at hs

/-- After the callback in a fiber, whatever call there is by then. -/
theorem Inv.fiber_returned (h : v.Inv) (hcrashed : v.crashed = false) (build : Bool)
    (env : ReplyEnv) (r : Option Errno) (bare : Bool) (hprev : r = none → v.previous ≠ some true) :
    (v.fiber_returned build env r bare).Inv := by
  unfold ServerLink.fiber_returned
  by_cases hp : v.state.pending = true
  · rw [if_neg (not_not.mpr hp)]
    obtain ⟨flags, hreplying, hframes⟩ := h.replying hcrashed (.inr hp)
    cases r with
    | some e =>
      have hmoved := hreplying.sd_varlink_errorb build env e
      dsimp only
      split
      · exact Inv.close hmoved.books
      · exact hmoved.inv h.pending hframes
    | none =>
      dsimp only
      split
      · next hsent =>
        have hmoved := hreplying.varlink_dispatch_sentinel env hsent (hprev rfl)
        split
        · exact Inv.close hmoved.books
        · exact hmoved.inv h.pending hframes
      split
      · exact Inv.close h.books
      · exact h
  · rw [if_pos hp]
    exact h

/-- A call that begins, or begins again: it has no reply but those that are
    marked, or wants none. -/
theorem Outside.begin_call (h : v.Outside) (hbooks : v.Books) (hbefore : v.Before)
    (hidle : v.state = .IDLE_SERVER) {m : Variant R} {method : List UInt8} {call : MethodCall R}
    (hm : v.current = some m) (hread : read_call m = some (method, call)) :
    (v.begin_call call.flags).Books ∧ (v.begin_call call.flags).Before ∧
      (v.begin_call call.flags).Inside ∧ (v.begin_call call.flags).frames = v.frames ∧
      (v.begin_call call.flags).state = processing call.flags := by
  -- a call that wants no reply is none that is waiting
  have hinside : ∀ w : ServerLink R, w.state = processing call.flags →
      w.calls.getLast? = some call.flags → (∃ flags, flags = call.flags ∧ w.OpenCall flags) →
      w.Inside := by
    rintro w hs hlast ⟨_, rfl, hopen⟩
    by_cases hw : w.state.WANTS_REPLY = true
    · exact .inl ⟨hw, _, hopen⟩
    · have honeway : processing call.flags = .PROCESSING_METHOD_ONEWAY ∧ call.flags.oneway = true := by
        rw [hs] at hw
        unfold processing at hw ⊢
        cases hmore : call.flags.more <;> cases hone : call.flags.oneway <;>
          cases hup : call.flags.upgrade <;> simp_all [VarlinkState.WANTS_REPLY]
      refine .inr ⟨fun flags hf ho => ?_, .inl (hs.trans honeway.1)⟩
      obtain rfl := Option.some.inj (hlast.symm.trans hf)
      rw [honeway.2] at ho
      cases ho
  unfold ServerLink.begin_call
  by_cases ha : v.again = true
  · rw [if_pos ha]
    rcases h with ⟨_, _, flags, hcall⟩ | ⟨_, ⟨_, hna, _⟩ | hup⟩
    · obtain ⟨m', method', call', hm', hread', hflags⟩ := hcall.message
      obtain rfl := Option.some.inj (hm.symm.trans hm')
      obtain ⟨rfl, rfl⟩ := Prod.mk.inj (Option.some.inj (hread.symm.trans hread'))
      subst hflags
      refine ⟨⟨hbooks.numbered, hbooks.order⟩, hbefore, hinside _ rfl hcall.last ⟨_, rfl,
        ⟨m, method, call, hm, hread, rfl⟩, hcall.last, hcall.continued, hcall.sentinel, .inr (.inl rfl)⟩,
        rfl, rfl⟩
    · rw [ha] at hna
      cases hna
    · rw [hidle] at hup
      cases hup
  · rw [if_neg ha]
    rcases h with ⟨_, hp | ⟨_, hag⟩, _⟩ | ⟨hclosed, hplace⟩
    · rw [hidle] at hp
      cases hp
    · exact absurd hag ha
    obtain ⟨_, _, hsent⟩ := hplace.resolve_right fun hup => by rw [hidle] at hup; cases hup
    have hlast : (v.calls ++ [call.flags]).getLast? = some call.flags := by simp
    -- the call is new, so there are no replies to it
    have hnone : (v.sent.filter fun x => x.1 = v.calls.length) = [] := by
      rw [filter_eq_nil_iff]
      intro x hx hn
      have hlt := hbooks.numbered x hx
      rw [of_decide_eq_true hn] at hlt
      exact Nat.lt_irrefl _ hlt
    refine ⟨⟨fun x hx => ?_, hbooks.order⟩, fun n flags hn hf ho => ?_, hinside _ rfl hlast ⟨_, rfl,
      ⟨m, method, call, hm, hread, rfl⟩, hlast, ?_, ?_, .inr (.inl rfl)⟩, rfl, rfl⟩
    · have hlt := hbooks.numbered x hx
      rw [length_append]
      omega
    · have hn : n < v.calls.length := by
        simpa using hn
      have hf : v.calls[n]? = some flags := by
        rw [← hf]
        exact (getElem?_append_left hn).symm
      by_cases hl : n + 1 < v.calls.length
      · exact hbefore n flags hl hf ho
      · obtain rfl : n = v.last := by unfold last; omega
        exact hclosed flags (by rw [getLast?_eq_getElem?]; exact hf) ho
    · intro c hc
      have hc : c ∈ v.replies v.calls.length := by
        simpa [last, replies] using hc
      unfold replies at hc
      rw [hnone] at hc
      cases hc
    · intro hs
      rw [show v.sentinel = none from hsent] at hs
      cases hs

section dispatch
variable [Double R] [DoubleCast R]

section
variable (h : v.Inside) (hbooks : v.Books) (hbefore : v.Before) (hframes : v.frames = 0)
  (hprev : v.previous ≠ some true) (server : MethodServer) (env : DispatchEnv)
include h hbooks hbefore hframes hprev server env

/-- The callback is called, or a fiber is started for it. -/
theorem Inside.call_callback (is_fiber : Bool)
    (hnot : v.state.WANTS_REPLY = true ∨ v.state = .PROCESSING_METHOD_ONEWAY) :
    (v.call_callback server env is_fiber).Inv := by
  have hpending : v.state.pending = false := by
    rcases hnot with hw | ho
    · exact VarlinkState.not_pending hw
    · rw [ho]; rfl
  -- the fiber has not been started, and the error is the reply
  have hfailed : ∀ e, (v.callback_returned env.build env.reply (some e) false).Inv := by
    intro e
    unfold ServerLink.callback_returned
    by_cases hw : v.state.WANTS_REPLY = true
    · rw [if_pos hw]
      obtain ⟨flags, hcall⟩ := h.open hw
      have hreplying : v.Replying flags := ⟨hbooks, hbefore, hcall, .inl hw⟩
      refine (hreplying.sd_varlink_errorb env.build env.reply e).settle_unless hw hframes
        fun hok => ?_
      rw [sd_varlink_errorb_not_ok] at hok
      cases hok
    · rw [if_neg hw]
      split
      · exact hbooks.abort fun hp => by rw [hpending] at hp; cases hp
      · exact h.settle hbooks hbefore hframes fun hw' => absurd hw' hw
  unfold ServerLink.call_callback
  split
  · split
    · exact hfailed _
    split
    · exact hfailed _
    · have hstarted : { v with fibers := v.fibers + 1, invoked := true }.Inside := by
        rcases h with ⟨hw, flags, hcall⟩ | ⟨hclosed, hs⟩
        · exact .inl ⟨hw, flags, hcall.message, hcall.last, hcall.continued, hcall.sentinel,
            hcall.state⟩
        · exact .inr ⟨hclosed, hs⟩
      exact hstarted.callback_returned ⟨hbooks.numbered, hbooks.order⟩ hbefore hframes rfl _ _ _ _
        fun _ => hprev
  · refine ⟨⟨hbooks.numbered, hbooks.order⟩, fun _ => rfl, .inr ⟨hbefore, .inl ⟨?_, rfl, ?_⟩⟩⟩
    · show v.frames + 1 = 1
      rw [hframes]
    · rcases h with ⟨hw, flags, hcall⟩ | ⟨hclosed, hs⟩
      · exact .inl ⟨hw, flags, hcall.message, hcall.last, hcall.continued, hcall.sentinel,
          hcall.state⟩
      · exact .inr ⟨hclosed, hs⟩

/-- A call is checked, and its callback called, or it is replied to, or the
    connection fails. -/
theorem Inside.dispatch_call (method : List UInt8) (parameters : Variant R) {flags : MethodFlags}
    (hs : v.state = processing flags)
    (hmatched : (server.callback method).isSome → ∀ symbol, server.symbol_of method = some symbol → ¬ Mismatched symbol flags) :
    (v.dispatch_call server env method parameters flags).Inv := by
  have hnot : v.state.WANTS_REPLY = true ∨ v.state = .PROCESSING_METHOD_ONEWAY := by
    rw [hs]
    unfold processing
    split <;> [skip; split <;> [skip; split]] <;> simp [VarlinkState.WANTS_REPLY]
  have hpending : v.state.pending = false := by
    rcases hnot with hw | ho
    · exact VarlinkState.not_pending hw
    · rw [ho]; rfl
  have hcallback := h.call_callback hbooks hbefore hframes hprev server env
  -- a call that is refused, with an error if it wants a reply
  have hrefused : ∀ x : ServerLink R × Outcome Nat, x.2.isOk = false →
      (∀ flags, v.Replying flags → v.Moved x.1) → v.state.WANTS_REPLY = true →
      (settle_unless x).Inv := by
    intro x hok hmoved hw
    obtain ⟨flags', hcall⟩ := h.open hw
    exact (hmoved flags' ⟨hbooks, hbefore, hcall, .inl hw⟩).settle_unless hw hframes fun h => by
      rw [hok] at h; cases h
  have honeway : v.state.WANTS_REPLY = false → v.settle.Inv := fun hw =>
    h.settle hbooks hbefore hframes fun hw' => by rw [hw] at hw'; cases hw'
  unfold ServerLink.dispatch_call
  cases hm : server.callback method with
  | none =>
    dsimp only
    split
    · next hw =>
      exact hrefused _ (sd_varlink_errorb_not_ok _ _ _) (fun _ hr => hr.sd_varlink_errorb _ _ _) hw
    · next hw => exact honeway (eq_false_of_ne_true hw)
  | some is_fiber =>
    cases hsym : server.symbol_of method with
    | none => exact hcallback is_fiber hnot
    | some symbol =>
      dsimp only
      split
      · exact hcallback is_fiber hnot
      · exact hbooks.abort fun hp => by rw [hpending] at hp; cases hp
      · next hebade =>
        obtain ⟨htype, hmis⟩ := method_call_EBADE hebade
        split
        · next hp =>
          exact hrefused _ (sd_varlink_error_not_ok _ _) (fun _ hr => hr.sd_varlink_error _ _)
            (by rw [hp]; rfl)
        · next hp =>
          -- the flags match, so this is a call that wants no reply
          have hflags : flags.more = false ∧ flags.upgrade = false := by
            have hno := hmatched (by rw [hm]; rfl) symbol hsym
            constructor
            · by_contra hf
              exact hno ⟨htype, .inl (by simpa using hf), hmis⟩
            · by_contra hf
              exact hno ⟨htype, .inr (by simpa using hf), hmis⟩
          refine honeway ?_
          rw [hs] at hp ⊢
          unfold processing at hp ⊢
          rw [hflags.1, hflags.2] at hp ⊢
          cases hone : flags.oneway with
          | true => rfl
          | false => rw [hone] at hp; exact absurd rfl hp
      · split
        · next hw =>
          exact hrefused _ (sd_varlink_errorb_not_ok _ _ _) (fun _ hr => hr.sd_varlink_errorb _ _ _)
            hw
        · next hw => exact honeway (eq_false_of_ne_true hw)

end

end dispatch

/-! ## Section 9: Every step keeps the invariant -/

theorem Inv.accepted : (accepted : ServerLink R).Inv :=
  ⟨⟨nofun, .nil⟩, nofun, .inr ⟨nofun, .inr ⟨rfl, .inr ⟨nofun, .inl ⟨rfl, rfl, rfl⟩⟩⟩⟩⟩

section
variable (hw : v.state.WANTS_REPLY = false) (hp : v.state.pending = false) (env : ReplyEnv)
include hw hp env

/-- In other states the calls of the API that reply only return an error. -/
theorem reply_busy : (v.sd_varlink_reply env).1 = v := by
  unfold ServerLink.sd_varlink_reply ServerLink.varlink_reply_internal
  split
  · rfl
  · rw [if_pos ⟨by rw [hw]; nofun, by rw [hp]; nofun⟩]

theorem error_busy (e : Errno) : (v.sd_varlink_error env e).1 = v := by
  unfold ServerLink.sd_varlink_error
  split
  · rfl
  · rw [if_pos ⟨by rw [hw]; nofun, by rw [hp]; nofun⟩]

theorem notify_busy : (v.sd_varlink_notify env).1 = v.abort ∨ (v.sd_varlink_notify env).1 = v := by
  unfold ServerLink.sd_varlink_notify
  split
  · exact .inr rfl
  split
  · exact .inl rfl
  split
  · exact .inr rfl
  split
  · exact .inr (error_busy hw hp env _)
  · next hs =>
    have hm : ¬ v.state.more = true := by
      cases he : v.state <;>
        simp_all [VarlinkState.more, VarlinkState.WANTS_REPLY, VarlinkState.pending]
    rw [if_pos hm]
    exact .inr rfl

theorem set_sentinel_busy (sentinel : Sentinel) :
    (v.sd_varlink_set_sentinel env sentinel).1 = v := by
  unfold ServerLink.sd_varlink_set_sentinel
  split
  · rfl
  · rw [if_neg]
    intro hs
    rcases hs with hs | hs | hs | hs
    · rw [hs] at hw; cases hw
    · rw [hs] at hw; cases hw
    · rw [hs] at hp; cases hp
    · rw [hs] at hp; cases hp

theorem respond_and_upgrade_busy (buffered : Bool) :
    (v.sd_varlink_respond_and_upgrade env buffered).1 = v := by
  unfold ServerLink.sd_varlink_respond_and_upgrade
  split
  · rfl
  split
  · rfl
  · rw [if_pos]
    constructor
    · intro hs
      rw [hs] at hw
      cases hw
    · intro hs
      rw [hs] at hp
      cases hp

end

/-- A call of the API, made when there can be a reply and when there cannot. -/
theorem Inv.of_api (h : v.Inv) (hcrashed : v.crashed = false)
    (hmoved : ∀ flags, v.Replying flags → v' = v.abort ∨ v.Moved v')
    (hbusy : v.state.WANTS_REPLY = false → v.state.pending = false → v' = v.abort ∨ v' = v) :
    v'.Inv := by
  by_cases hs : v.state.WANTS_REPLY = true ∨ v.state.pending = true
  · obtain ⟨flags, hreplying, hframes⟩ := h.replying hcrashed hs
    rcases hmoved flags hreplying with rfl | hm
    · exact h.books.abort h.pending
    · exact hm.inv h.pending hframes
  · rcases hbusy (by simpa using fun h => hs (.inl h)) (by simpa using fun h => hs (.inr h)) with
      rfl | rfl
    · exact h.books.abort h.pending
    · exact h

section step
variable [Double R] [DoubleCast R]

theorem Inv.receive (h : v.Inv) (hcurrent : v.current = none) (m : Variant R) :
    { v with current := some m }.Inv := by
  have hopen : ∀ flags, ¬ v.OpenCall flags := by
    intro flags hcall
    obtain ⟨m', _, _, hm, _⟩ := hcall.message
    rw [hcurrent] at hm
    cases hm
  refine ⟨⟨h.books.numbered, h.books.order⟩, h.pending, ?_⟩
  rcases h.place with hgone | ⟨hbefore, hplace⟩
  · exact .inl hgone
  refine .inr ⟨hbefore, ?_⟩
  rcases hplace with ⟨hf, hi, hin⟩ | ⟨hf, hout⟩
  · rcases hin with ⟨_, flags, hcall⟩ | hclosed
    · exact absurd hcall (hopen flags)
    · exact .inl ⟨hf, hi, .inr hclosed⟩
  · rcases hout with ⟨_, _, flags, hcall⟩ | hclosed
    · exact absurd hcall (hopen flags)
    · exact .inr ⟨hf, .inr hclosed⟩

theorem Inv.dispatch (h : v.Inv) (hcrashed : v.crashed = false) (hidle : v.state = .IDLE_SERVER)
    (server : MethodServer) (env : DispatchEnv) (hok : v.Matched (.dispatch server env)) :
    (v.varlink_dispatch_method server env).Inv := by
  obtain ⟨hprev, hmatched⟩ := hok
  have hplace : v.Before ∧ v.frames = 0 ∧ v.Outside := by
    rcases h.place with (hd | hd | hc) | ⟨hbefore, ⟨_, _, hin⟩ | ⟨hf, hout⟩⟩
    · rw [hidle] at hd; cases hd
    · rw [hidle] at hd; cases hd
    · rw [hcrashed] at hc; cases hc
    · rcases hin with ⟨hw, _⟩ | ⟨_, hs | hs | hs⟩
      · rw [hidle] at hw; cases hw
      · rw [hidle] at hs; cases hs
      · rw [hidle] at hs; cases hs
      · rw [hidle] at hs; cases hs
    · exact ⟨hbefore, hf, hout⟩
  obtain ⟨hbefore, hf, hout⟩ := hplace
  unfold ServerLink.varlink_dispatch_method
  cases hm : v.current with
  | none => exact h
  | some m =>
    dsimp only
    cases hread : read_call m with
    | none => exact Inv.close h.books
    | some x =>
      obtain ⟨method, call⟩ := x
      dsimp only
      split
      · exact Inv.close h.books
      · obtain ⟨hbooks', hbefore', hin, hf', hs⟩ :=
          hout.begin_call h.books hbefore hidle hm hread
        have hprev' : (v.begin_call call.flags).previous ≠ some true := by
          unfold ServerLink.begin_call
          split
          · exact hprev
          · exact hprev
        exact hin.dispatch_call hbooks' hbefore' (hf'.trans hf) hprev' server env method _ hs
          (hmatched m method call hm hread)

theorem Inv.callback_return (h : v.Inv) (hcrashed : v.crashed = false) (hframes : v.frames ≠ 0)
    (build : Bool) (env : ReplyEnv) (r : Option Errno) (bare : Bool)
    (hprev : r = none → v.previous ≠ some true) :
    ({ v with frames := v.frames - 1 }.callback_returned build env r bare).Inv := by
  have hbooks : ({ v with frames := v.frames - 1 } : ServerLink R).Books :=
    ⟨h.books.numbered, h.books.order⟩
  rcases h.place with hgone | ⟨hbefore, ⟨hf, hi, hin⟩ | ⟨hf, _⟩⟩
  · -- nothing is left to do, and a disconnect that is about to come is not expected
    have hs : v.state = .DISCONNECTED ∨ v.state = .PENDING_DISCONNECT := by
      rcases hgone with hd | hd | hc
      · exact .inl hd
      · exact .inr hd
      · rw [hcrashed] at hc; cases hc
    have habort : ({ v with frames := v.frames - 1 } : ServerLink R).abort.Inv := hbooks.abort h.pending
    unfold ServerLink.callback_returned
    rw [if_neg (by rcases hs with hs | hs <;> simp [hs, VarlinkState.WANTS_REPLY])]
    split
    · exact habort
    · rcases settle_gone (v := { v with frames := v.frames - 1 }) hs with he | he
      · rw [he]
        exact ⟨hbooks, h.pending, .inl (hs.elim .inl fun hs => .inr (.inl hs))⟩
      · rw [he]
        exact habort
  · have hin' : ({ v with frames := v.frames - 1 } : ServerLink R).Inside := by
      rcases hin with ⟨hw, flags, hcall⟩ | hclosed
      · exact .inl ⟨hw, flags, hcall.message, hcall.last, hcall.continued, hcall.sentinel,
          hcall.state⟩
      · exact .inr hclosed
    refine hin'.callback_returned hbooks hbefore ?_ hi build env r bare hprev
    rw [hf]
  · exact absurd hf hframes

/-- Every step that meets the condition keeps the invariant. -/
theorem Inv.step (h : v.Inv) {label : ServerLabel R} (hok : v.Matched label)
    (hst : v.step label = some v') : v'.Inv := by
  unfold ServerLink.step at hst
  split at hst
  · cases hst
  next hcrashed =>
  have hcrashed := eq_false_of_ne_true hcrashed
  have hgone : { v with state := .PENDING_DISCONNECT }.Inv :=
    ⟨⟨h.books.numbered, h.books.order⟩, nofun, .inl (.inr (.inl rfl))⟩
  cases label with
  | receive m =>
    dsimp only at hst
    split at hst
    · cases hst
    · next hno =>
      cases hst
      exact h.receive (by simpa using fun hc => hno (.inr hc)) m
  | dispatch server env =>
    dsimp only at hst
    split at hst
    · cases hst
    · next hno =>
      cases hst
      exact h.dispatch hcrashed (by_contra fun hs => hno (.inl hs)) server env hok
  | callback_return build env r bare =>
    dsimp only at hst
    split at hst
    · cases hst
    · next hf =>
      cases hst
      exact h.callback_return hcrashed hf build env r bare fun hr => by subst hr; exact hok
  | fiber_return build env r bare =>
    dsimp only at hst
    split at hst
    · cases hst
    · cases hst
      have h' : { v with fibers := v.fibers - 1 }.Inv := by
        refine ⟨⟨h.books.numbered, h.books.order⟩, h.pending, ?_⟩
        rcases h.place with hg | ⟨hbefore, ⟨hf, hi, hin⟩ | ⟨hf, hout⟩⟩
        · exact .inl hg
        · refine .inr ⟨hbefore, .inl ⟨hf, hi, ?_⟩⟩
          rcases hin with ⟨hw, flags, hcall⟩ | hclosed
          · exact .inl ⟨hw, flags, hcall.message, hcall.last, hcall.continued, hcall.sentinel,
              hcall.state⟩
          · exact .inr hclosed
        · refine .inr ⟨hbefore, .inr ⟨hf, ?_⟩⟩
          rcases hout with ⟨hi, hs, flags, hcall⟩ | hclosed
          · exact .inl ⟨hi, hs, flags, hcall.message, hcall.last, hcall.continued, hcall.sentinel,
              hcall.state⟩
          · exact .inr hclosed
      exact h'.fiber_returned hcrashed build env r bare fun hr => by subst hr; exact hok
  | reply env =>
    cases hst
    exact h.of_api hcrashed (fun _ hr => .inr (hr.varlink_reply_internal env))
      fun hw hp => .inr (reply_busy hw hp env)
  | error env e =>
    cases hst
    exact h.of_api hcrashed (fun _ hr => .inr (hr.sd_varlink_error env e))
      fun hw hp => .inr (error_busy hw hp env e)
  | notify env =>
    cases hst
    exact h.of_api hcrashed (fun _ hr => hr.sd_varlink_notify env)
      fun hw hp => notify_busy hw hp env
  | set_sentinel env sentinel =>
    cases hst
    exact h.of_api hcrashed (fun _ hr => .inr (hr.sd_varlink_set_sentinel env sentinel))
      fun hw hp => .inr (set_sentinel_busy hw hp env sentinel)
  | respond_and_upgrade env buffered =>
    cases hst
    exact h.of_api hcrashed (fun _ hr => .inr (hr.sd_varlink_respond_and_upgrade env buffered))
      fun hw hp => .inr (respond_and_upgrade_busy hw hp env buffered)
  | reply_and_upgrade env buffered =>
    cases hst
    have hx : (v.sd_varlink_respond_and_upgrade env buffered).1.Inv :=
      h.of_api hcrashed (fun _ hr => .inr (hr.sd_varlink_respond_and_upgrade env buffered))
        fun hw hp => .inr (respond_and_upgrade_busy hw hp env buffered)
    unfold ServerLink.sd_varlink_reply_and_upgrade
    split
    · next w _ heq =>
      rw [heq] at hx
      exact Inv.close hx.books
    · next w r _ heq =>
      rw [heq] at hx
      exact hx
  | dispatch_again =>
    cases hst
    unfold ServerLink.sd_varlink_dispatch_again
    split
    · exact h
    split
    · exact h
    · next hp =>
      have hp := not_not.mp hp
      obtain ⟨flags, hreplying, hframes⟩ := h.replying hcrashed (.inr hp)
      obtain ⟨hf, _⟩ := hframes.resolve_left fun hw => by
        rw [VarlinkState.not_pending hw.2.2] at hp
        cases hp
      exact ⟨⟨h.books.numbered, h.books.order⟩, nofun, .inr ⟨hreplying.before, .inr ⟨hf,
        .inl ⟨h.pending hp, .inr ⟨rfl, rfl⟩, flags, hreplying.call.message, hreplying.call.last,
          hreplying.call.continued, hreplying.call.sentinel, .inl rfl⟩⟩⟩⟩
  | close =>
    cases hst
    exact Inv.close h.books
  | process_failed =>
    dsimp only at hst
    split at hst
    · cases hst
      exact hgone
    · cases hst
      exact Inv.close h.books
  | test_disconnect =>
    dsimp only at hst
    split at hst
    · cases hst
      exact hgone
    · cases hst
  | dispatch_disconnect =>
    dsimp only at hst
    split at hst
    · cases hst
      exact Inv.close h.books
    · cases hst
  | dispatch_upgrade =>
    dsimp only at hst
    split at hst
    · cases hst
      exact Inv.close h.books
    · cases hst

end step

/-! ## Section 10: No call is dropped -/

/-- Where the last call is, it is what the record says. -/
theorem Inv.sound (h : v.Inv) : v.Sound := by
  refine ⟨h.books.order, fun n flags hf ho => ?_, h.pending⟩
  have hn : n < v.calls.length := (List.getElem?_eq_some_iff.mp hf).1
  rcases h.place with hgone | ⟨hbefore, hplace⟩
  · exact .inr (.inr hgone)
  by_cases hl : n + 1 < v.calls.length
  · exact .inl (hbefore n flags hl hf ho)
  have hlast : n = v.last := by unfold last; omega
  have hget : v.calls.getLast? = some flags := by
    rw [getLast?_eq_getElem?, ← hf, hlast]
    rfl
  have hopen : ∀ flags', v.OpenCall flags' → v.Owes →
      (n + 1 = v.calls.length ∧ v.Owes ∧ ∀ c ∈ v.replies n, c = true) := fun flags' hcall hi =>
    ⟨by omega, hi, by rw [hlast]; exact hcall.continued⟩
  rcases hplace with ⟨_, hi, hin⟩ | ⟨_, hout⟩
  · rcases hin with ⟨hw, flags', hcall⟩ | ⟨hclosed, _⟩
    · exact .inr (.inl (hopen flags' hcall ⟨hi, .inl hw⟩))
    · exact .inl (by rw [hlast]; exact hclosed flags hget ho)
  · rcases hout with ⟨hi, hs, flags', hcall⟩ | ⟨hclosed, _⟩
    · exact .inr (.inl (hopen flags' hcall ⟨hi, .inr hs⟩))
    · exact .inl (by rw [hlast]; exact hclosed flags hget ho)

/-- **The calls of a connection**, in every run in which no call with
    mismatched flags is dispatched to a method with a callback and no callback
    returns success after its held back reply could not be sent. -/
theorem server_calls [Double R] [DoubleCast R]
    (h : Reachable ((serving : System (ServerLink R) _).restrict Matched) v) : v.Sound := by
  have hinv : ∀ v : ServerLink R, Reachable (serving.restrict Matched) v → v.Inv := by
    intro v hv
    induction hv with
    | init hi =>
      rw [show _ = ServerLink.accepted from hi]
      exact Inv.accepted
    | step _ hst ih => exact ih.step hst.1 hst.2
  exact (hinv v h).sound

/-! ## Section 11: A call with a flag -/

/-- Nothing fails. -/
def all_well : ReplyEnv := ⟨true, true, true, true, .ENOMEM⟩

/-- A server with one method `X`, described or not. -/
def one_method (symbol : Option Symbol) : MethodServer where
  methods := fun method => method = ascii "X"
  fiber_methods := fun _ => false
  event := true
  symbol_of := fun _ => symbol
  symbols := []

/-- `{"method":"X","<flag>":true}` -/
def flagged (flag : List UInt8) : Variant Float :=
  .object [(ascii "method", .string (ascii "X")), (flag, .boolean true)]

/-- A call with the `more` flag, two replies, the first of which is sent when
    the second one comes, and the second when the callback returns. -/
theorem server_calls_one : ∃ v : ServerLink Float, v.replies 0 = [true, false] ∧ v.Sound := by
  have hnext : ∀ {v v' : ServerLink Float} (label : ServerLabel Float),
      Reachable (serving.restrict Matched) v → v.Matched label → v.step label = some v' →
      Reachable (serving.restrict Matched) v' := fun _ h hok hst => h.step ⟨hok, hst⟩
  have h1 := hnext (.receive (flagged (ascii "more"))) (.init rfl) trivial rfl
  have h2 := hnext (.dispatch (one_method none) ⟨true, true, true, all_well⟩) h1
    ⟨nofun, fun _ _ _ _ _ _ _ h => nomatch h⟩ rfl
  have h3 := hnext (.set_sentinel all_well .pointer_max) h2 trivial rfl
  have h4 := hnext (.reply all_well) h3 trivial rfl
  have h5 := hnext (.reply all_well) h4 trivial rfl
  have h6 := hnext (.callback_return true all_well none true) h5 nofun rfl
  exact ⟨_, rfl, server_calls h6⟩

/-- The method requires `more` and is called for an upgrade. No error is sent,
    the callback is not called, and the call stays pending. -/
theorem mismatched_call_pending :
    ¬ ∀ v : ServerLink Float, Reachable serving v → v.Sound := by
  intro h
  have hnext : ∀ {v v' : ServerLink Float} (label : ServerLabel Float), Reachable serving v →
      v.step label = some v' → Reachable serving v' := fun _ h hst => h.step hst
  have h1 := hnext (.receive (flagged (ascii "upgrade"))) (.init rfl) rfl
  have h2 := hnext (.dispatch (one_method (some ⟨some (ascii "X"), .METHOD, false, true, false, []⟩))
    ⟨true, true, true, all_well⟩) h1 rfl
  cases (h _ h2).pending rfl

end ServerLink

end SdCompat.Varlink
