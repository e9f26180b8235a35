import SdCompat.SdBus.SocketWrite

/-! # Asynchronous calls (sd-bus.c, bus-slot.c)

    `sd_bus_call_async` puts a reply callback in a hash table, by the cookie of
    the call, and in a priority queue, by the time it has. A reply, the timeout
    or the end of the connection takes it out of both and runs it.

    A callback is user code, and so is whatever `sd_bus_send` runs while it
    waits for the connection: other steps, after which the function that is in
    progress goes on.
-/

open Transition

namespace SdCompat.Bus

open Call

def UINT32_MAX : Nat := 0xffffffff

def USEC_INFINITY : Nat := 2 ^ 64 - 1

/-- `usec_add` -/
def usec_add (a b : Nat) : Nat := if USEC_INFINITY - a < b then USEC_INFINITY else a + b

/-! ## Section 1: State -/

/-- An `sd_bus_slot` with its `BusReplyCallback`; it is `connected` as long as
    `bus` is set. `call` is a record, the cookie of the message it was made
    for. -/
structure ReplySlot where
  callback : Bool
  cookie : Nat
  timeout_usec : Nat
  floating : Bool
  connected : Bool
  call : Nat
  deriving DecidableEq, Repr

/-- A record of a callback that was run, with the reply it was given. -/
structure Invocation where
  slot : Nat
  reply_cookie : Nat
  synthetic : Bool
  deriving DecidableEq, Repr

/-- An `sd_bus_call_async` that is in `sd_bus_send`: its slot, the cookie of
    its message, and whether `sd_bus_send` waits for the connection. -/
structure AsyncCall where
  slot : Nat
  cookie : Nat
  waits : Bool
  deriving DecidableEq, Repr

/-- What `sd_bus` has for calls. A slot is known by its number. The hash table
    keeps the order of insertion. `current_slot` is the slot whose callback
    runs; `calls` and `invoked` are what is in progress and what has been run. -/
structure BusReplies where
  state : BusState
  unique_name : Option (List UInt8)
  accept_fd : Bool
  cookie : Nat
  reply_callbacks : List (Nat × Nat)
  reply_callbacks_prioq : List Nat
  slot : Nat → ReplySlot
  n_slots : Nat
  current_slot : Option Nat
  calls : List AsyncCall
  invoked : List Invocation

namespace BusReplies

/-- Change a slot. -/
def setSlot (i : Nat) (f : ReplySlot → ReplySlot) (bus : BusReplies) : BusReplies :=
  { bus with slot := fun j => if j = i then f (bus.slot j) else bus.slot j }

/-- `ordered_hashmap_contains` -/
def contains (bus : BusReplies) (cookie : Nat) : Bool :=
  bus.reply_callbacks.any fun e => e.1 == cookie

/-- `ordered_hashmap_remove` -/
def remove (cookie : Nat) (bus : BusReplies) : BusReplies :=
  { bus with reply_callbacks := bus.reply_callbacks.filter fun e => e.1 != cookie }

/-- `prioq_remove` and `prioq_pop`, where the slot is known. -/
def dequeue (i : Nat) (bus : BusReplies) : BusReplies :=
  { bus with reply_callbacks_prioq := bus.reply_callbacks_prioq.erase i }

def set_cookie (i cookie : Nat) (bus : BusReplies) : BusReplies :=
  bus.setSlot i fun s => { s with cookie := cookie }

def set_timeout (i timeout_usec : Nat) (bus : BusReplies) : BusReplies :=
  bus.setSlot i fun s => { s with timeout_usec := timeout_usec }

end BusReplies

/-! ## Section 2: Cookies -/

def COOKIE_CYCLED : Nat := 2 ^ 31

/-- `cookie_inc` -/
def cookie_inc (cookie : Nat) : Nat := if UINT32_MAX ≤ cookie then COOKIE_CYCLED else cookie + 1

/-- The loop of `next_cookie`, with the rounds that are left. -/
def next_cookie_search (bus : BusReplies) : Nat → Nat → Option Nat
  | 0, _ => none
  | n + 1, new_cookie =>
    if bus.contains new_cookie then next_cookie_search bus n (cookie_inc new_cookie)
    else some new_cookie

/-- `next_cookie` -/
def next_cookie : Call BusReplies PUnit := do
  let bus ← get
  let new_cookie := cookie_inc bus.cookie
  if new_cookie.testBit 31 then
    match next_cookie_search bus COOKIE_CYCLED new_cookie with
    | some cookie => modify fun bus => { bus with cookie := cookie }
    | none => fail .EBUSY
  else modify fun bus => { bus with cookie := new_cookie }

/-- What `sd_bus_call_async` reads of its message. -/
structure CallMessage where
  type : UInt8
  no_reply_expected : Bool
  n_fds : Nat
  sealed : Bool
  cookie : Nat
  timeout : Nat
  cookie_le : cookie ≤ UINT32_MAX

/-- The surroundings of a call: the memory for the queue, for the slot, for the
    table and for the entry of the queue; the timeout of method calls; how
    setting the sender and the checks of `sd_bus_message_seal` end; the
    remarshalled message, if there is one, which has its own timeout; the
    time. -/
structure CallEnv where
  prioq_mem : Bool
  slot_mem : Bool
  table_mem : Bool
  entry_mem : Bool
  method_call_timeout : Nat
  set_sender : Outcome PUnit
  seal_ok : Outcome PUnit
  remarshal : Outcome (Option Nat)
  now : Nat

/-- `sd_bus_message_seal`, of which the cookie and the timeout matter. -/
def message_seal (env : CallEnv) (m : CallMessage) (cookie timeout : Nat) :
    Outcome CallMessage :=
  match env.seal_ok with
  | .err e => .err e
  | .abort => .abort
  | .ok _ =>
    if h : cookie ≤ UINT32_MAX then
      .ok { m with sealed := true, cookie := cookie, cookie_le := h
                   timeout := if m.no_reply_expected then 0 else timeout }
    else .err .EOPNOTSUPP

/-- `bus_seal_message` -/
def bus_seal_message (env : CallEnv) (m : CallMessage) (timeout : Nat) :
    Call BusReplies CallMessage := do
  if m.sealed then do
    modify fun bus => { bus with cookie := max bus.cookie m.cookie }
    pure m
  else do
    let timeout := if timeout = 0 then env.method_call_timeout else timeout
    lift env.set_sender
    next_cookie
    let bus ← get
    lift (message_seal env m bus.cookie timeout)

/-! ## Section 3: A call -/

/-- `bus_slot_disconnect`, for a reply callback. -/
def bus_slot_disconnect (i : Nat) (bus : BusReplies) : BusReplies :=
  if (bus.slot i).connected then
    let bus₁ := if (bus.slot i).cookie ≠ 0 then bus.remove (bus.slot i).cookie else bus
    let bus₂ := if (bus₁.slot i).timeout_usec ≠ 0 then bus₁.dequeue i else bus₁
    bus₂.setSlot i fun s => { s with connected := false }
  else bus

/-- The slot of a call that fails is freed. -/
def or_free {α : Type} (i : Nat) (x : Call BusReplies α) : Call BusReplies α := fun bus =>
  match x bus with
  | (.err e, bus) => (.err e, bus_slot_disconnect i bus)
  | (.ok a, bus) => (.ok a, bus)
  | (.abort, bus) => (.abort, bus)

/-- `calc_elapse` -/
def calc_elapse (state : BusState) (now usec : Nat) : Nat :=
  if usec = USEC_INFINITY then 0
  else if state = .watch_bind ∨ state = .opening ∨ state = .authenticating then usec
  else usec_add now usec

/-- `bus_slot_allocate`: a slot for the call with this cookie. -/
def bus_slot_allocate (floating callback : Bool) (cookie : Nat) (bus : BusReplies) : BusReplies :=
  { bus with
    n_slots := bus.n_slots + 1
    slot := fun j =>
      if j = bus.n_slots then
        { callback := callback, cookie := 0, timeout_usec := 0, floating := floating
          connected := true, call := cookie }
      else bus.slot j }

/-- A slot that has been allocated is put in the table and in the queue. -/
def reply_callback_put (env : CallEnv) (i cookie timeout : Nat) : Call BusReplies PUnit := do
  modify (·.set_cookie i cookie)
  let bus ← get
  if bus.contains cookie || !env.table_mem then do
    modify (·.set_cookie i 0)
    fail (if env.table_mem then .EEXIST else .ENOMEM)
  else do
    let timeout_usec := calc_elapse bus.state env.now timeout
    modify fun bus => { bus with reply_callbacks := bus.reply_callbacks ++ [(cookie, i)] }
    if timeout_usec = 0 then pure ⟨⟩
    else if env.entry_mem then
      modify fun bus =>
        { bus.set_timeout i timeout_usec with
          reply_callbacks_prioq := i :: bus.reply_callbacks_prioq }
    else fail .ENOMEM

/-- `sd_bus_call_async` as far as `sd_bus_send`, for a call that takes a
    callback or wants its slot. -/
def sd_bus_call_async (env : CallEnv) (floating callback : Bool) (m : CallMessage) (usec : Nat) :
    Call BusReplies PUnit := do
  check (m.type == SD_BUS_MESSAGE_METHOD_CALL) .EINVAL
  check (!m.sealed || (callback == !m.no_reply_expected)) .EINVAL
  let bus ← get
  check (BUS_IS_OPEN bus.state) .ENOTCONN
  check env.prioq_mem .ENOMEM
  let m ← bus_seal_message env m usec
  let timeout ← lift env.remarshal
  check env.slot_mem .ENOMEM
  let bus ← get
  let i := bus.n_slots
  modify (bus_slot_allocate floating callback m.cookie)
  or_free i (reply_callback_put env i m.cookie (timeout.getD m.timeout))
  modify fun bus =>
    { bus with calls := ⟨i, m.cookie, m.n_fds ≠ 0 ∧ bus.state ≠ .running⟩ :: bus.calls }

/-- How `sd_bus_send` ends for such a call: its checks, before the message is
    sealed once more, and what comes after. -/
structure SentEnv where
  can_send : Outcome PUnit
  sent : Outcome PUnit

/-- The rest of `sd_bus_call_async`: what `sd_bus_send` does, which writes the
    cookie to where it was told, and the end. -/
def sd_bus_call_async_sent (env : SentEnv) (call : AsyncCall) : Call BusReplies PUnit := do
  modify fun bus => { bus with calls := bus.calls.erase call }
  or_free call.slot do
    lift env.can_send
    modify fun bus => { bus with cookie := max bus.cookie call.cookie }
    lift env.sent
    modify (·.set_cookie call.slot call.cookie)

/-! ## Section 4: Running a callback -/

/-- A callback is run; there may be none, which is a call of NULL. -/
def invoke (i reply_cookie : Nat) (synthetic : Bool) : Call BusReplies PUnit := do
  let bus ← get
  if (bus.slot i).callback then
    modify fun bus =>
      { bus with current_slot := some i
                 invoked := bus.invoked ++ [⟨i, reply_cookie, synthetic⟩] }
  else abort

/-- What comes after the callback. -/
def callback_returns (i : Nat) (bus : BusReplies) : BusReplies :=
  let bus := { bus with current_slot := none }
  if (bus.slot i).floating then bus_slot_disconnect i bus else bus

/-- `timeout_compare` puts `x` in front of `y`. -/
def timeout_before (x y : ReplySlot) : Bool :=
  if x.timeout_usec ≠ 0 ∧ y.timeout_usec = 0 then true
  else if x.timeout_usec = 0 ∧ y.timeout_usec ≠ 0 then false
  else x.timeout_usec < y.timeout_usec

/-- What `prioq_peek` may come back with: nothing is in front of it. -/
def IsPeek (bus : BusReplies) : Option Nat → Prop
  | none => bus.reply_callbacks_prioq = []
  | some i => i ∈ bus.reply_callbacks_prioq ∧
      ∀ j ∈ bus.reply_callbacks_prioq, timeout_before (bus.slot j) (bus.slot i) = false

/-- `process_timeout`, as far as the callback; `synthetic` is how making the
    error message ends. -/
def process_timeout (peek : Option Nat) (now : Nat) (synthetic : Outcome PUnit) :
    Call BusReplies PUnit := do
  match peek with
  | none => pure ⟨⟩
  | some c => do
    let bus ← get
    if now < (bus.slot c).timeout_usec then pure ⟨⟩
    else do
      lift synthetic
      modify fun bus => (bus.dequeue c).set_timeout c 0
      modify fun b => (b.remove (bus.slot c).cookie).set_cookie c 0
      invoke c (bus.slot c).cookie true

/-- `process_reply`, as far as the callback. A reply with descriptors that the
    bus does not want is replaced by an error. -/
def process_reply (m : SdBusMessage) (synthetic rewind : Outcome PUnit) :
    Call BusReplies PUnit := do
  let bus ← get
  if m.type ≠ SD_BUS_MESSAGE_METHOD_RETURN ∧ m.type ≠ SD_BUS_MESSAGE_METHOD_ERROR then pure ⟨⟩
  else if m.destination.isSome ∧ bus.unique_name.isSome ∧ m.destination ≠ bus.unique_name then
    pure ⟨⟩
  else
    match bus.reply_callbacks.find? fun e => e.1 == m.reply_cookie with
    | none => pure ⟨⟩
    | some (_, c) => do
      modify fun bus => (bus.remove m.reply_cookie).set_cookie c 0
      let unwanted := !m.fds.isEmpty && !bus.accept_fd
      lift (if unwanted then synthetic else rewind)
      modify fun bus =>
        if (bus.slot c).timeout_usec ≠ 0 then (bus.dequeue c).set_timeout c 0 else bus
      invoke c m.reply_cookie unwanted

/-- `process_closing_reply_callback`, for the first callback of the table, as
    far as the callback. -/
def process_closing (synthetic : Outcome PUnit) : Call BusReplies PUnit := do
  let bus ← get
  match bus.reply_callbacks.head? with
  | none => pure ⟨⟩
  | some (_, c) => do
    lift synthetic
    modify fun bus =>
      if (bus.slot c).timeout_usec ≠ 0 then (bus.dequeue c).set_timeout c 0 else bus
    modify fun b => (b.remove (bus.slot c).cookie).set_cookie c 0
    invoke c (bus.slot c).cookie true

/-- `bus_start_running`: the timeouts start. -/
def bus_start_running (n : Nat) (bus_client : Bool) (bus : BusReplies) : BusReplies :=
  { bus with
    state := if bus_client then .hello else .running
    slot := fun i =>
      if (bus.slot i).timeout_usec ≠ 0 ∧ bus.reply_callbacks.any (fun e => e.2 == i) then
        { bus.slot i with timeout_usec := usec_add n (bus.slot i).timeout_usec }
      else bus.slot i }

/-! ## Section 5: Runs -/

/-- What happens to a bus that makes calls. `send` is any other message that is
    sent; `sent` ends a call that is in progress, `returns` the callback that
    runs. -/
inductive ReplyAct where
  | send (env : CallEnv) (m : CallMessage) (usec : Nat)
  | call_async (env : CallEnv) (floating callback : Bool) (m : CallMessage) (usec : Nat)
  | sent (env : SentEnv) (call : AsyncCall)
  | timeout (peek : Option Nat) (now : Nat) (synthetic : Outcome PUnit)
  | reply (m : SdBusMessage) (synthetic rewind : Outcome PUnit)
  | closing (synthetic : Outcome PUnit)
  | returns (i : Nat)
  | disconnect (i : Nat)
  | set_floating (i : Nat) (floating : Bool)
  | start_running (n : Nat) (bus_client : Bool)
  | enter (state : BusState) (unique_name : Option (List UInt8)) (accept_fd : Bool)

/-- When an action may come. Other steps come in between only while a call
    waits for the connection; `sd_bus_process` does not run inside itself; and
    nobody has the slot of a call that has not returned. -/
def ReplyAct.enabled (bus : BusReplies) : ReplyAct → Prop
  | .sent _ call => call ∈ bus.calls
  | .timeout peek _ _ =>
    bus.current_slot = none ∧ (bus.state = .running ∨ bus.state = .hello) ∧ IsPeek bus peek
  | .reply _ _ _ => bus.current_slot = none ∧ (bus.state = .running ∨ bus.state = .hello)
  | .closing _ => bus.current_slot = none ∧ bus.state = .closing
  | .returns i => bus.current_slot = some i
  | .disconnect i => i < bus.n_slots ∧ ∀ call ∈ bus.calls, call.slot ≠ i
  | .set_floating i _ =>
    i < bus.n_slots ∧ (bus.slot i).connected = true ∧ ∀ call ∈ bus.calls, call.slot ≠ i
  | .call_async _ floating callback _ _ => callback = true ∨ floating = false
  | .start_running _ _ =>
    bus.state = .watch_bind ∨ bus.state = .opening ∨ bus.state = .authenticating
  | .send _ _ _ | .enter _ _ _ => True

/-- What an action does. -/
def ReplyAct.apply (bus : BusReplies) : ReplyAct → BusReplies
  | .send env m usec => (bus_seal_message env m usec bus).2
  | .call_async env floating callback m usec =>
    (sd_bus_call_async env floating callback m usec bus).2
  | .sent env call => (sd_bus_call_async_sent env call bus).2
  | .timeout peek now synthetic => (process_timeout peek now synthetic bus).2
  | .reply m synthetic rewind => (process_reply m synthetic rewind bus).2
  | .closing synthetic => (process_closing synthetic bus).2
  | .returns i => callback_returns i bus
  | .disconnect i => bus_slot_disconnect i bus
  | .set_floating i floating => bus.setSlot i fun s => { s with floating := floating }
  | .start_running n bus_client => bus_start_running n bus_client bus
  | .enter state unique_name accept_fd =>
    { bus with state := state, unique_name := unique_name, accept_fd := accept_fd }

/-- Whether a call in progress waits, or the action is the end of one. -/
def ReplyAct.in_turn (bus : BusReplies) : ReplyAct → Prop
  | .sent _ _ => True
  | _ => ∀ call ∈ bus.calls, call.waits = true

/-- Every step. -/
def replying : System BusReplies ReplyAct where
  init := fun bus => bus.cookie = 0 ∧ bus.reply_callbacks = [] ∧
    bus.reply_callbacks_prioq = [] ∧ bus.n_slots = 0 ∧ bus.current_slot = none ∧
    bus.calls = [] ∧ bus.invoked = []
  step := fun bus a bus' => a.enabled bus ∧ a.in_turn bus ∧ bus' = a.apply bus

/-! ### Given runs -/

instance (bus : BusReplies) (peek : Option Nat) : Decidable (IsPeek bus peek) :=
  match peek with
  | none => inferInstanceAs (Decidable (bus.reply_callbacks_prioq = []))
  | some i => inferInstanceAs (Decidable (i ∈ bus.reply_callbacks_prioq ∧
      ∀ j ∈ bus.reply_callbacks_prioq, timeout_before (bus.slot j) (bus.slot i) = false))

instance (bus : BusReplies) (a : ReplyAct) : Decidable (a.enabled bus) :=
  match a with
  | .sent _ call => inferInstanceAs (Decidable (call ∈ bus.calls))
  | .timeout peek _ _ => inferInstanceAs (Decidable (bus.current_slot = none ∧
      (bus.state = .running ∨ bus.state = .hello) ∧ IsPeek bus peek))
  | .reply _ _ _ => inferInstanceAs (Decidable (bus.current_slot = none ∧
      (bus.state = .running ∨ bus.state = .hello)))
  | .closing _ => inferInstanceAs (Decidable (bus.current_slot = none ∧ bus.state = .closing))
  | .returns i => inferInstanceAs (Decidable (bus.current_slot = some i))
  | .disconnect i =>
    inferInstanceAs (Decidable (i < bus.n_slots ∧ ∀ call ∈ bus.calls, call.slot ≠ i))
  | .set_floating i _ => inferInstanceAs (Decidable
      (i < bus.n_slots ∧ (bus.slot i).connected = true ∧ ∀ call ∈ bus.calls, call.slot ≠ i))
  | .call_async _ floating callback _ _ =>
    inferInstanceAs (Decidable (callback = true ∨ floating = false))
  | .start_running _ _ => inferInstanceAs (Decidable
      (bus.state = .watch_bind ∨ bus.state = .opening ∨ bus.state = .authenticating))
  | .send _ _ _ => inferInstanceAs (Decidable True)
  | .enter _ _ _ => inferInstanceAs (Decidable True)

section allowed
variable (ok : BusReplies → ReplyAct → Prop) [∀ bus a, Decidable (ok bus a)]

/-- Whether every action of a list may come, and meets a condition. -/
def allowed : BusReplies → List ReplyAct → Bool
  | _, [] => true
  | bus, a :: as =>
    decide (ok bus a) && decide (a.enabled bus) &&
      ((match a with | .sent _ _ => true | _ => false) ||
        bus.calls.all AsyncCall.waits) && allowed (a.apply bus) as

variable {ok}

/-- Such a list is a run. -/
theorem allowed_run {bus : BusReplies} {as : List ReplyAct} (h : allowed ok bus as = true) :
    Run (replying.restrict ok) bus as (as.foldl ReplyAct.apply bus) := by
  induction as generalizing bus with
  | nil => exact .nil bus
  | cons a as ih =>
    unfold allowed at h
    rw [Bool.and_eq_true, Bool.and_eq_true, Bool.and_eq_true, decide_eq_true_eq,
      decide_eq_true_eq] at h
    obtain ⟨⟨⟨hok, hen⟩, hturn⟩, hrest⟩ := h
    refine .cons ⟨hok, hen, ?_, rfl⟩ (ih hrest)
    cases a with
    | sent env call => trivial
    | _ =>
      intro call hcall
      exact List.all_eq_true.mp hturn call hcall

end allowed

end SdCompat.Bus
