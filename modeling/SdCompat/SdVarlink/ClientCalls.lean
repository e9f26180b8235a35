import SdCompat.SdVarlink.ServerCalls

/-! # Method calls of a Varlink connection, on the client (sd-varlink.c)

    A connection has calls that wait for their replies: `sd_varlink_invoke` and
    `sd_varlink_observe` leave it to the reply callback to take them, and
    `sd_varlink_call`, `sd_varlink_call_and_upgrade` and `sd_varlink_collect`
    process the connection themselves until it is there. All of them share one
    state, one counter and one message that is looked at. A synchronous call
    leaves its reply there when it returns, since it has handed out what is in
    it.

    The peer sends messages one after the other, which are read into the input
    buffer any number at a time, with a piece of the next one at the end. What
    is written, file descriptors and references are left out.
-/

open Transition SdCompat.Json

namespace SdCompat.Varlink

open List

variable {R : Type}

/-! ## Section 1: The connection -/

/-- `VARLINK_COLLECT_MAX` -/
def VARLINK_COLLECT_MAX : Nat := 1024

/-- A message from the peer, with the number of the call the peer answers with
    it. -/
structure Incoming (R : Type) where
  message : Variant R
  call : Nat

/-- What is on the stack: a synchronous call, or a callback. Those of
    `sd_varlink_collect` have the replies collected so far. -/
inductive ClientFrame (R : Type) where
  | call
  | upgrade
  | collect (collected : List (Incoming R))
  | reply (continues : Bool)
  | local_error

/-- A call that waits for replies until it returns. -/
def ClientFrame.synchronous : ClientFrame R → Bool
  | .call | .upgrade | .collect _ => true
  | .reply _ | .local_error => false

/-- `sd_varlink`, of a client. The last fields are a record: for each call that
    wants a reply whether it has the `more` flag, what the peer has sent, the
    replies that have been handed out, each with the number of the call that
    was waiting, how many last replies there have been, and whether the one
    that is looked at is among them. -/
structure ClientLink (R : Type) where
  state : VarlinkState
  n_pending : Nat
  current : Option (Incoming R)
  current_continues : Bool
  frames : List (ClientFrame R)
  wire : List (Incoming R)
  buffer : List (Incoming R)
  rest : Bool
  bounded : Bool
  crashed : Bool
  calls : List Bool
  peer : List (Incoming R)
  delivered : List (Incoming R × Nat)
  answered : Nat
  counted : Bool

/-- What a message says, if it is a reply. -/
structure Reply (R : Type) where
  error : Option (List UInt8)
  parameters : Option (Variant R)
  continues : Bool

/-- One member of the message. -/
def read_reply_member (reply : Reply R) (k : List UInt8) (e : Variant R) : Option (Reply R) :=
  if k = ascii "error" then
    match reply.error, e with
    | none, .string s => some { reply with error := some s }
    | _, _ => none
  else if k = ascii "parameters" then
    if reply.parameters.isSome then none
    else if ¬ e.is_object ∧ ¬ e.is_null then none
    else some { reply with parameters := some e }
  else if k = ascii "continues" then
    match reply.continues, e with
    | false, .boolean b => some { reply with continues := b }
    | _, _ => none
  else none

/-- The members of the message, one after the other. -/
def read_reply_members (reply : Reply R) : List (List UInt8 × Variant R) → Option (Reply R)
  | [] => some reply
  | (k, e) :: l => (read_reply_member reply k e).bind fun reply => read_reply_members reply l

/-- The reply a message is. An error is final. -/
def read_reply : Variant R → Option (Reply R)
  | .object l =>
    (read_reply_members ⟨none, none, false⟩ l).bind fun reply =>
      if reply.error.isSome ∧ reply.continues then none else some reply
  | _ => none

namespace ClientLink

/-- A failed assertion. -/
def abort (v : ClientLink R) : ClientLink R := { v with crashed := true }

/-- `varlink_clear_current` -/
def varlink_clear_current (v : ClientLink R) : ClientLink R :=
  { v with current := none, current_continues := false, counted := false }

/-- `sd_varlink_close` -/
def sd_varlink_close (v : ClientLink R) : ClientLink R :=
  if v.state = .DISCONNECTED then v
  else { v.varlink_clear_current with state := .DISCONNECTED, buffer := [], rest := false }

/-- The call that has waited longest, by the counter. -/
def waiting (v : ClientLink R) : Nat := v.calls.length - v.n_pending

/-! ## Section 2: Starting calls -/

/-- A call that wants a reply has been enqueued. -/
def start (state : VarlinkState) (more : Bool) (v : ClientLink R) : ClientLink R :=
  { v with state := state, n_pending := (v.n_pending + 1) % 2 ^ 32, calls := v.calls ++ [more] }

/-- `sd_varlink_invoke`; `sent` says whether the message could be built and
    enqueued. -/
def sd_varlink_invoke (sent : Bool) (v : ClientLink R) : ClientLink R :=
  if v.state ≠ .IDLE_CLIENT ∧ v.state ≠ .AWAITING_REPLY then v
  else if ¬ sent then v
  else v.start .AWAITING_REPLY false

/-- `sd_varlink_observe` -/
def sd_varlink_observe (sent : Bool) (v : ClientLink R) : ClientLink R :=
  if v.state ≠ .IDLE_CLIENT then v
  else if ¬ sent then v
  else v.start .AWAITING_REPLY_MORE true

/-- `varlink_call_internal`, to its loop. -/
def varlink_call_internal (frame : ClientFrame R) (sent : Bool) (v : ClientLink R) :
    ClientLink R × Bool :=
  if v.state ≠ .IDLE_CLIENT then (v, false)
  else if v.n_pending ≠ 0 then (v.abort, false)
  else if ¬ sent then (v.varlink_clear_current, false)
  else ({ v.varlink_clear_current.start .CALLING false with frames := frame :: v.frames }, true)

/-- `sd_varlink_call_full`, to the loop. -/
def sd_varlink_call (sent : Bool) (v : ClientLink R) : ClientLink R :=
  (v.varlink_call_internal .call sent).1

/-- `sd_varlink_call_and_upgrade`, to the loop. Without a call the flag is
    taken back. -/
def sd_varlink_call_and_upgrade (sent : Bool) (v : ClientLink R) : ClientLink R :=
  match { v with bounded := true }.varlink_call_internal .upgrade sent with
  | (v, true) => v
  | (v, false) => { v with bounded := false }

/-- `sd_varlink_collect_full`, to the loop. -/
def sd_varlink_collect (sent : Bool) (v : ClientLink R) : ClientLink R :=
  if v.state ≠ .IDLE_CLIENT then v
  else if v.n_pending ≠ 0 then v.abort
  else if ¬ sent then v.varlink_clear_current
  else { v.varlink_clear_current.start .COLLECTING true with frames := .collect [] :: v.frames }

/-! ## Section 3: Processing -/

/-- The states in which `varlink_dispatch_reply` looks at a message. -/
def awaits (state : VarlinkState) : Bool :=
  match state with
  | .AWAITING_REPLY | .AWAITING_REPLY_MORE | .CALLING | .COLLECTING => true
  | _ => false

/-- The record of a reply that is handed out. -/
def hand_out (m : Incoming R) (v : ClientLink R) : ClientLink R :=
  { v with delivered := v.delivered ++ [(m, v.waiting)] }

/-- The reply callback is called for an error of the library, and the
    connection is closed afterwards. -/
def dispatch_local_error (state : VarlinkState) (v : ClientLink R) : ClientLink R :=
  { v with state := state, frames := .local_error :: v.frames }

/-- `varlink_dispatch_reply`, to where the reply callback is called. -/
def varlink_dispatch_reply (sanitize : Bool) (v : ClientLink R) : ClientLink R :=
  if ¬ awaits v.state then v
  else
    match v.current with
    | none => v
    | some m =>
      if v.n_pending = 0 then v.abort
      else
        match read_reply m.message with
        | none => v.dispatch_local_error .PROCESSING_FAILURE
        | some reply =>
          if reply.continues ∧ v.state ≠ .AWAITING_REPLY_MORE ∧ v.state ≠ .COLLECTING then
            v.dispatch_local_error .PROCESSING_FAILURE
          else if ¬ sanitize then v.dispatch_local_error .PROCESSING_FAILURE
          else
            let v := { v with
              current_continues := reply.continues
              answered := if reply.continues ∨ v.counted then v.answered else v.answered + 1
              counted := true }
            if v.state = .AWAITING_REPLY ∨ v.state = .AWAITING_REPLY_MORE then
              { v.hand_out m with
                state := .PROCESSING_REPLY
                frames := .reply reply.continues :: v.frames }
            else if v.state = .COLLECTING then { v with state := .COLLECTING_REPLY }
            else { v with state := .CALLED }

/-- `varlink_dispatch_reply` after the reply callback. -/
def reply_callback_returned (continues : Bool) (v : ClientLink R) : ClientLink R :=
  let v := v.varlink_clear_current
  if v.state ≠ .PROCESSING_REPLY then v
  else if v.n_pending = 0 then v.abort
  else
    let v := { v with n_pending := if continues then v.n_pending else v.n_pending - 1 }
    { v with state :=
        if continues then .AWAITING_REPLY_MORE
        else if v.n_pending = 0 then .IDLE_CLIENT
        else .AWAITING_REPLY }

/-- A callback returns. -/
def callback_returned (v : ClientLink R) : Option (ClientLink R) :=
  match v.frames with
  | .reply continues :: frames =>
    some ({ v with frames := frames }.reply_callback_returned continues)
  | .local_error :: frames => some { v with frames := frames }.sd_varlink_close
  | _ => none

/-! ## Section 4: Returning from synchronous calls -/

/-- The states of a connection that is about to be closed, or is. -/
def gone (state : VarlinkState) : Bool :=
  match state with
  | .PENDING_DISCONNECT | .DISCONNECTED | .PENDING_TIMEOUT => true
  | _ => false

/-- The reply to a synchronous call has come, and the counter goes back. -/
def finish (state : VarlinkState) (v : ClientLink R) : ClientLink R :=
  if v.n_pending ≠ 1 then v.abort else { v with state := state, n_pending := v.n_pending - 1 }

/-- `sd_varlink_call_full`, after the loop. -/
def call_returned (v : ClientLink R) : ClientLink R :=
  if gone v.state then v
  else if v.state ≠ .CALLED then v.abort
  else
    match v.current with
    | none => v.abort
    | some m => (v.hand_out m).finish .IDLE_CLIENT

/-- `sd_varlink_call_and_upgrade`, after the loop: after an error the
    connection goes on, else its file descriptors are handed over, with `ok`,
    or that fails. -/
def upgrade_returned (ok : Bool) (v : ClientLink R) : ClientLink R :=
  if gone v.state then { v with bounded := false }
  else if v.state ≠ .CALLED then v.abort
  else
    match v.current with
    | none => v.abort
    | some m =>
      if v.buffer ≠ [] ∨ v.rest then v.abort
      else if (m.message.by_key (ascii "error")).isSome then
        { (v.hand_out m).finish .IDLE_CLIENT with bounded := false }
      else if ok then (v.hand_out m).finish .DISCONNECTED
      else { v.finish .DISCONNECTED with bounded := false }

/-- All collected replies are handed out. -/
def hand_out_all (collected : List (Incoming R)) (v : ClientLink R) : ClientLink R :=
  { v with delivered := v.delivered ++ collected.map fun m => (m, v.waiting) }

/-- One turn of the loop of `sd_varlink_collect_full`. `ok` says whether there
    is memory for the reply. -/
def collect_turn (ok : Bool) (collected : List (Incoming R)) (v : ClientLink R) :
    ClientLink R :=
  if gone v.state then v
  else if v.state ≠ .COLLECTING_REPLY then v.abort
  else
    match v.current with
    | none => v.abort
    | some m =>
      let w := if v.current_continues then v else v.finish .IDLE_CLIENT
      if (m.message.by_key (ascii "error")).isSome then
        -- what has been collected is dropped
        { w with delivered := (v.hand_out m).delivered }
      else if VARLINK_COLLECT_MAX ≤ collected.length then w
      else if ¬ ok then w
      else if v.current_continues then
        { w.varlink_clear_current with
          state := .COLLECTING
          frames := .collect (collected ++ [m]) :: v.frames }
      else { w with delivered := (v.hand_out_all (collected ++ [m])).delivered }

/-- A synchronous call goes on, after its loop over `sd_varlink_process`. -/
def synchronous_returned (ok : Bool) (v : ClientLink R) : Option (ClientLink R) :=
  if v.state = .CALLING ∨ v.state = .COLLECTING then none
  else
    match v.frames with
    | .call :: frames => some { v with frames := frames }.call_returned
    | .upgrade :: frames => some ({ v with frames := frames }.upgrade_returned ok)
    | .collect collected :: frames =>
      some ({ v with frames := frames }.collect_turn ok collected)
    | _ => none

/-! ## Section 5: Runs -/

/-- What a connection goes through: messages of the peer, the parts of
    `sd_varlink_process`, calls of the API, and callbacks and synchronous calls
    that go on. -/
inductive ClientLabel (R : Type) where
  | peer (m : Incoming R)
  | read (n : Nat) (rest : Bool)
  | parse
  | dispatch_reply (sanitize : Bool)
  | callback_return
  | test_disconnect
  | dispatch_disconnect
  | test_timeout
  | dispatch_timeout
  | process_failed
  | close
  | send
  | invoke (sent : Bool)
  | observe (sent : Bool)
  | call (sent : Bool)
  | call_and_upgrade (sent : Bool)
  | collect (sent : Bool)
  | synchronous_return (ok : Bool)
  | wait_failed

/-- A synchronous call is in its loop, or there is none in control. -/
def processes (v : ClientLink R) : Bool :=
  match v.frames with
  | .call :: _ | .upgrade :: _ => v.state = .CALLING
  | .collect _ :: _ => v.state = .COLLECTING
  | _ => true

/-- The caller, or a callback, is in control. -/
def callable (v : ClientLink R) : Bool :=
  match v.frames with
  | frame :: _ => ¬ frame.synchronous
  | [] => true

/-- `json_stream_read`: some messages, and with `rest` a piece of the next one.
    When reads are bounded, none beyond the first. -/
def json_stream_read (n : Nat) (rest : Bool) (v : ClientLink R) : Option (ClientLink R) :=
  if ¬ awaits v.state ∨ v.current.isSome ∨ v.buffer ≠ [] then none
  else if v.wire.length < n ∨ (rest ∧ v.wire.length ≤ n) ∨ (n = 0 ∧ ¬ rest) then none
  else if v.bounded ∧ (1 < n ∨ (n = 1 ∧ rest)) then none
  else some { v with wire := v.wire.drop n, buffer := v.wire.take n, rest := rest }

/-- `varlink_parse_message` -/
def varlink_parse_message (v : ClientLink R) : Option (ClientLink R) :=
  if v.state = .DISCONNECTED ∨ v.current.isSome then none
  else
    match v.buffer with
    | [] => none
    | m :: buffer => some { v with current := some m, counted := false, buffer := buffer }

/-- One step of a connection. -/
def step (v : ClientLink R) (label : ClientLabel R) : Option (ClientLink R) :=
  if v.crashed then none
  else
    match label with
    | .peer m => some { v with wire := v.wire ++ [m], peer := v.peer ++ [m] }
    | .read n rest => if v.processes then v.json_stream_read n rest else none
    | .parse => if v.processes then v.varlink_parse_message else none
    | .dispatch_reply sanitize =>
      if v.processes ∧ awaits v.state ∧ v.current.isSome then
        some (v.varlink_dispatch_reply sanitize)
      else none
    | .callback_return => v.callback_returned
    | .test_disconnect =>
      if v.processes ∧ v.state.IS_ALIVE then some { v with state := .PENDING_DISCONNECT } else none
    | .dispatch_disconnect =>
      if v.processes ∧ v.state = .PENDING_DISCONNECT then
        some (v.dispatch_local_error .PROCESSING_DISCONNECT)
      else none
    | .test_timeout =>
      if v.processes ∧ awaits v.state ∧ v.current.isNone then
        some { v with state := .PENDING_TIMEOUT }
      else none
    | .dispatch_timeout =>
      if v.processes ∧ v.state = .PENDING_TIMEOUT then
        some (v.dispatch_local_error .PROCESSING_TIMEOUT)
      else none
    | .process_failed =>
      if ¬ v.processes then none
      else if v.state.IS_ALIVE then some { v with state := .PENDING_DISCONNECT }
      else some v.sd_varlink_close
    | .close => if v.callable then some v.sd_varlink_close else none
    | .send => if v.callable then some v else none
    | .invoke sent => if v.callable then some (v.sd_varlink_invoke sent) else none
    | .observe sent => if v.callable then some (v.sd_varlink_observe sent) else none
    | .call sent => if v.callable then some (v.sd_varlink_call sent) else none
    | .call_and_upgrade sent =>
      if v.callable then some (v.sd_varlink_call_and_upgrade sent) else none
    | .collect sent => if v.callable then some (v.sd_varlink_collect sent) else none
    | .synchronous_return ok => v.synchronous_returned ok
    | .wait_failed =>
      -- the call returns from within its loop
      match v.frames with
      | frame :: frames =>
        if frame.synchronous ∧ v.processes then some { v with frames := frames } else none
      | [] => none

/-- A connection that has been set up. -/
def connected : ClientLink R where
  state := .IDLE_CLIENT
  n_pending := 0
  current := none
  current_continues := false
  frames := []
  wire := []
  buffer := []
  rest := false
  bounded := false
  crashed := false
  calls := []
  peer := []
  delivered := []
  answered := 0
  counted := false

/-- The calls of a connection. -/
def calling : System (ClientLink R) (ClientLabel R) := .of_step (· = connected) step

variable {v v' : ClientLink R}

/-- How many synchronous calls have not returned. -/
def synchronous_calls (v : ClientLink R) : Nat := v.frames.countP (·.synchronous)

/-- The last reply to a call is being processed: the counter has not gone back
    yet. -/
def inflight (v : ClientLink R) : Nat :=
  match v.state with
  | .PROCESSING_REPLY | .CALLED | .COLLECTING_REPLY => if v.current_continues then 0 else 1
  | _ => 0

/-- **The state machine is safe**: no assertion has failed, and as long as the
    connection is not closed the counter is the number of calls that have not
    got their last reply yet. -/
structure Sound (v : ClientLink R) : Prop where
  crashed : v.crashed = false
  counter : v.state.IS_ALIVE = true → v.n_pending + v.answered = v.calls.length + v.inflight

/-- A synchronous call has returned, and its first check has not refused it. -/
def returned (v v' : ClientLink R) : ClientLabel R → Prop
  | .call _ | .call_and_upgrade _ | .collect _ =>
    v.state = .IDLE_CLIENT ∧ v'.synchronous_calls = v.synchronous_calls
  | .synchronous_return _ | .wait_failed => v'.synchronous_calls < v.synchronous_calls
  | _ => False

/-- The connection is idle, closed, or about to be closed. -/
def Rested (v : ClientLink R) : Prop := v.state = .IDLE_CLIENT ∨ gone v.state = true

/-- The input of a call with an upgrade holds no more than its reply. -/
def OneReply (v : ClientLink R) : Prop :=
  v.buffer = [] ∨ (v.buffer.length = 1 ∧ v.rest = false)

/-- The condition on steps: no asynchronous call while the reply to an earlier
    synchronous one is still there, fewer than 2^32 calls that wait, no call
    with an upgrade while there is input beyond one message, no more replies to
    collect than there is room for, and no error while waiting for a reply. -/
def Orderly (v : ClientLink R) : ClientLabel R → Prop
  | .invoke sent => sent = true →
    (v.state = .IDLE_CLIENT → v.current.isSome → v.counted = false) ∧
      (v.state = .AWAITING_REPLY → v.n_pending + 1 < 2 ^ 32)
  | .observe sent => sent = true → v.state = .IDLE_CLIENT → v.current.isSome → v.counted = false
  | .call_and_upgrade sent => sent = true → v.state = .IDLE_CLIENT → v.OneReply
  | .synchronous_return ok =>
    v.state = .COLLECTING_REPLY → v.current_continues = true → ok = true ∧
      ∀ collected frames, v.frames = .collect collected :: frames →
        collected.length < VARLINK_COLLECT_MAX
  | .wait_failed => False
  | _ => True

/-! ## Section 6: What holds in each state -/

/-- What is on the stack in a state, and what the counter is. -/
def Place (v : ClientLink R) : Prop :=
  match v.state with
  | .IDLE_CLIENT => v.frames = [] ∧ v.n_pending = 0
  | .AWAITING_REPLY | .AWAITING_REPLY_MORE => v.frames = [] ∧ 0 < v.n_pending
  | .PROCESSING_REPLY => v.frames = [.reply v.current_continues] ∧ 0 < v.n_pending
  | .CALLING => (v.frames = [.call] ∨ v.frames = [.upgrade]) ∧ v.n_pending = 1
  | .CALLED => (v.frames = [.call] ∨ v.frames = [.upgrade]) ∧ v.n_pending = 1 ∧
      v.current.isSome ∧ v.current_continues = false
  | .COLLECTING => (∃ c, v.frames = [.collect c]) ∧ v.n_pending = 1
  | .COLLECTING_REPLY => (∃ c, v.frames = [.collect c]) ∧ v.n_pending = 1 ∧
      ∃ m, v.current = some m ∧
        (v.current_continues = true → m.message.by_key (ascii "error") = none)
  | .PENDING_DISCONNECT | .PENDING_TIMEOUT | .DISCONNECTED => True
  | .PROCESSING_DISCONNECT | .PROCESSING_TIMEOUT | .PROCESSING_FAILURE =>
    ∃ frames, v.frames = .local_error :: frames
  | _ => False

/-- What holds of a connection at any time. -/
structure Inv (v : ClientLink R) : Prop where
  crashed : v.crashed = false
  place : v.Place
  counter : v.state.IS_ALIVE = true → v.n_pending + v.answered = v.calls.length + v.inflight
  /-- A message that is to be dispatched has not been dispatched before. -/
  fresh : awaits v.state = true → v.current.isSome → v.counted = false
  /-- While a reply to an upgrade is awaited nothing is read beyond it. -/
  upgrade : v.state = .CALLING ∨ v.state = .CALLED → v.frames = [.upgrade] → v.bounded = true ∧
    (v.current = none → v.OneReply) ∧
    (v.current.isSome → v.buffer = [] ∧ v.rest = false)

theorem Inv.connected : (connected : ClientLink R).Inv :=
  ⟨rfl, ⟨rfl, rfl⟩, fun _ => rfl, nofun, nofun⟩

/-- A connection that is closed, or about to be. -/
theorem Inv.of_gone (hcrashed : v.crashed = false) (hs : gone v.state = true) : v.Inv := by
  refine ⟨hcrashed, ?_, fun ha => ?_, fun ha => ?_, fun hs' => ?_⟩
  · unfold Place
    cases he : v.state <;> simp_all [gone]
  · cases he : v.state <;> simp_all [gone, VarlinkState.IS_ALIVE]
  · cases he : v.state <;> simp_all [gone, awaits]
  · rcases hs' with hs' | hs'
    · rw [hs'] at hs; cases hs
    · rw [hs'] at hs; cases hs

theorem Inv.close (hcrashed : v.crashed = false) : v.sd_varlink_close.Inv := by
  unfold ClientLink.sd_varlink_close
  split
  · next hs => exact .of_gone hcrashed (by rw [hs]; rfl)
  · exact .of_gone hcrashed rfl

variable {s : VarlinkState}

/-- The reply callback is called for an error of the library. -/
theorem Inv.local_error (hcrashed : v.crashed = false)
    (hs : s = .PROCESSING_FAILURE ∨ s = .PROCESSING_DISCONNECT ∨ s = .PROCESSING_TIMEOUT) :
    (v.dispatch_local_error s).Inv := by
  rcases hs with rfl | rfl | rfl
  · exact ⟨hcrashed, ⟨_, rfl⟩, nofun, nofun, nofun⟩
  · exact ⟨hcrashed, ⟨_, rfl⟩, nofun, nofun, nofun⟩
  · exact ⟨hcrashed, ⟨_, rfl⟩, nofun, nofun, nofun⟩

section
variable (h : v.Inv)
include h

/-- Only the caller is there, or only callbacks are left of a connection that
    is closed. -/
theorem Inv.idle (hs : v.state = .IDLE_CLIENT) :
    v.frames = [] ∧ v.n_pending = 0 ∧ v.answered = v.calls.length := by
  have hp := h.place
  have hc := h.counter (by rw [hs]; rfl)
  unfold Place at hp
  unfold inflight at hc
  rw [hs] at hp hc
  obtain ⟨hf, hn⟩ := hp
  rw [hn] at hc
  exact ⟨hf, hn, by simpa using hc⟩

/-! ## Section 7: Steps that start a call -/

theorem Inv.invoke (sent : Bool) (hok : v.Orderly (.invoke sent)) :
    (v.sd_varlink_invoke sent).Inv := by
  unfold sd_varlink_invoke
  split
  · exact h
  next hs =>
  split
  · exact h
  next hsent =>
  obtain ⟨hcurrent, hfits⟩ := hok (not_not.mp hsent)
  have hs : v.state = .IDLE_CLIENT ∨ v.state = .AWAITING_REPLY := by
    by_contra hno
    exact hs ⟨fun he => hno (.inl he), fun he => hno (.inr he)⟩
  have hn : (v.n_pending + 1) % 2 ^ 32 = v.n_pending + 1 := by
    refine Nat.mod_eq_of_lt ?_
    rcases hs with hs | hs
    · rw [(h.idle hs).2.1]; decide
    · exact hfits hs
  have hframes : v.frames = [] := by
    have hp := h.place
    unfold Place at hp
    rcases hs with hs | hs
    · rw [hs] at hp; exact hp.1
    · rw [hs] at hp; exact hp.1
  have hcounter : v.n_pending + v.answered = v.calls.length := by
    rcases hs with hs | hs
    · simpa [inflight, hs] using h.counter (by rw [hs]; rfl)
    · simpa [inflight, hs] using h.counter (by rw [hs]; rfl)
  refine ⟨h.crashed, ⟨hframes, ?_⟩, fun _ => ?_, fun _ hcur => ?_, nofun⟩
  · show 0 < (v.n_pending + 1) % 2 ^ 32
    omega
  · show (v.n_pending + 1) % 2 ^ 32 + v.answered = (v.calls ++ [false]).length + 0
    rw [length_append, ← hcounter]
    simp only [length_singleton]
    omega
  · rcases hs with hs | hs
    · exact hcurrent hs hcur
    · exact h.fresh (by rw [hs]; rfl) hcur

/-- A call made by an idle client. -/
theorem Inv.start (hs : v.state = .IDLE_CLIENT) {w : ClientLink R} (state : VarlinkState)
    (more : Bool) (hcrashed : w.crashed = false) (hcurrent : w.current.isSome → w.counted = false)
    (hn : w.n_pending = v.n_pending) (ha : w.answered = v.answered) (hc : w.calls = v.calls)
    (hplace : (w.start state more).Place) (hinflight : (w.start state more).inflight = 0)
    (hup : state = .CALLING → w.current = none ∧ (w.frames = [.upgrade] → w.bounded = true ∧ w.OneReply))
    (hstate : state ≠ .CALLED) : (w.start state more).Inv := by
  obtain ⟨_, hzero, hanswered⟩ := h.idle hs
  refine ⟨hcrashed, hplace, fun _ => ?_, fun _ hcur => hcurrent hcur, fun hs' hf => ?_⟩
  · rw [hinflight]
    show (w.n_pending + 1) % 2 ^ 32 + w.answered = (w.calls ++ [more]).length + 0
    rw [hn, ha, hanswered, hc, length_append]
    simp only [length_singleton]
    omega
  · obtain ⟨hnone, hup⟩ := hup (hs'.resolve_right hstate)
    obtain ⟨hb, hbuf⟩ := hup hf
    refine ⟨hb, fun _ => hbuf, fun hcur => ?_⟩
    rw [show (w.start state more).current = none from hnone] at hcur
    cases hcur

/-- A reply that is left from an earlier call is dropped. -/
theorem Inv.clear_current (hs : v.state = .IDLE_CLIENT) : v.varlink_clear_current.Inv := by
  obtain ⟨hf, hn, ha⟩ := h.idle hs
  refine ⟨h.crashed, ?_, fun _ => ?_, nofun, fun hs' => ?_⟩
  · unfold Place
    rw [show v.varlink_clear_current.state = .IDLE_CLIENT from hs]
    exact ⟨hf, hn⟩
  · have hi : v.varlink_clear_current.inflight = 0 := by
      unfold inflight
      rw [show v.varlink_clear_current.state = .IDLE_CLIENT from hs]
    rw [hi]
    show v.n_pending + v.answered = v.calls.length + 0
    omega
  · rw [show v.varlink_clear_current.state = .IDLE_CLIENT from hs] at hs'
    rcases hs' with hs' | hs'
    · cases hs'
    · cases hs'

theorem Inv.observe (sent : Bool) (hok : v.Orderly (.observe sent)) :
    (v.sd_varlink_observe sent).Inv := by
  unfold sd_varlink_observe
  split
  · exact h
  next hs =>
  split
  · exact h
  next hsent =>
  have hs := not_not.mp hs
  obtain ⟨hf, hn, _⟩ := h.idle hs
  refine h.start hs .AWAITING_REPLY_MORE true h.crashed (hok (not_not.mp hsent) hs) rfl rfl rfl
    ⟨hf, ?_⟩ rfl nofun nofun
  show 0 < (v.n_pending + 1) % 2 ^ 32
  rw [hn]
  decide

/-- `varlink_call_internal` of an idle client. -/
theorem Inv.call_internal (sent : Bool) (frame : ClientFrame R)
    (hframe : frame = .call ∨ frame = .upgrade)
    (hup : frame = .upgrade → v.bounded = true ∧ (sent = true → v.state = .IDLE_CLIENT → v.OneReply)) :
    (v.varlink_call_internal frame sent).1.Inv := by
  unfold varlink_call_internal
  split
  · exact h
  next hs =>
  have hs := not_not.mp hs
  obtain ⟨hf, hn, _⟩ := h.idle hs
  rw [if_neg (not_not.mpr hn)]
  split
  · exact h.clear_current hs
  next hsent =>
  have hplace : v.frames = [] ∧ (v.n_pending + 1) % 2 ^ 32 = 1 := ⟨hf, by simp [hn]⟩
  refine Inv.start (w := { v.varlink_clear_current with frames := frame :: v.frames })
    h hs .CALLING false h.crashed nofun rfl rfl rfl ?_ rfl (fun _ => ⟨rfl, fun hframes => ?_⟩) nofun
  · refine ⟨?_, hplace.2⟩
    rw [hf]
    rcases hframe with rfl | rfl
    · exact .inl rfl
    · exact .inr rfl
  · obtain ⟨hb, hbuf⟩ := hup (cons.inj hframes).1
    exact ⟨hb, hbuf (not_not.mp hsent) hs⟩

/-- The flag for bounded reads matters to calls with an upgrade only. -/
theorem Inv.set_bounded (bounded : Bool) (hs : v.state ≠ .CALLING ∧ v.state ≠ .CALLED) :
    { v with bounded := bounded }.Inv :=
  ⟨h.crashed, h.place, h.counter, h.fresh, fun hs' => (hs'.elim hs.1 hs.2).elim⟩

theorem Inv.call_and_upgrade (sent : Bool) (hok : v.Orderly (.call_and_upgrade sent))
    (hcallable : v.state ≠ .CALLING ∧ v.state ≠ .CALLED) :
    (v.sd_varlink_call_and_upgrade sent).Inv := by
  have hx := (h.set_bounded true hcallable).call_internal sent .upgrade (.inr rfl)
    fun _ => ⟨rfl, hok⟩
  -- without a call nothing is awaited
  have hnot : ∀ w : ClientLink R, { v with bounded := true }.varlink_call_internal .upgrade sent =
      (w, false) → w.state = v.state := by
    intro w hw
    unfold varlink_call_internal at hw
    split at hw
    · rw [← (Prod.mk.inj hw).1]
    split at hw
    · rw [← (Prod.mk.inj hw).1]; rfl
    split at hw
    · rw [← (Prod.mk.inj hw).1]; rfl
    · cases (Prod.mk.inj hw).2
  unfold sd_varlink_call_and_upgrade
  split
  · next w heq =>
    rw [heq] at hx
    exact hx
  · next w heq =>
    rw [heq] at hx
    exact hx.set_bounded false (by rw [hnot w heq]; exact hcallable)

theorem Inv.collect (sent : Bool) : (v.sd_varlink_collect sent).Inv := by
  unfold sd_varlink_collect
  split
  · exact h
  next hs =>
  have hs := not_not.mp hs
  obtain ⟨hf, hn, _⟩ := h.idle hs
  rw [if_neg (not_not.mpr hn)]
  split
  · exact h.clear_current hs
  refine Inv.start (w := { v.varlink_clear_current with frames := .collect [] :: v.frames })
    h hs .COLLECTING true h.crashed nofun rfl rfl rfl ?_ rfl nofun nofun
  refine ⟨⟨[], ?_⟩, ?_⟩
  · show ClientFrame.collect [] :: v.frames = _
    rw [hf]
  · show (v.n_pending + 1) % 2 ^ 32 = 1
    simp [hn]

/-! ## Section 8: Steps of processing -/

theorem Inv.read {n : Nat} {rest : Bool} (hst : v.json_stream_read n rest = some v') : v'.Inv := by
  unfold json_stream_read at hst
  split at hst
  · cases hst
  next hguard =>
  split at hst
  · cases hst
  split at hst
  · cases hst
  next hbounded =>
  cases hst
  have hcurrent : v.current = none := by simpa using fun hc => hguard (.inr (.inl hc))
  refine ⟨h.crashed, h.place, h.counter, h.fresh, fun hs hf => ?_⟩
  obtain ⟨hb, _, _⟩ := h.upgrade hs hf
  refine ⟨hb, fun _ => ?_, fun hcur => ?_⟩
  · -- a bounded read stops at the end of the first message
    rcases Nat.eq_zero_or_pos n with rfl | hpos
    · exact .inl rfl
    · have hn : n = 1 ∧ rest = false := by
        have hle : ¬ 1 < n := fun hlt => hbounded ⟨hb, .inl hlt⟩
        have hone : n = 1 := by omega
        exact ⟨hone, by simpa using fun hr => hbounded ⟨hb, .inr ⟨hone, hr⟩⟩⟩
      exact .inr ⟨by rw [length_take]; omega, hn.2⟩
  · rw [show v.current = none from hcurrent] at hcur
    cases hcur

theorem Inv.parse (hst : v.varlink_parse_message = some v') : v'.Inv := by
  unfold varlink_parse_message at hst
  split at hst
  · cases hst
  next hguard =>
  have hcurrent : v.current = none := by simpa using fun hc => hguard (.inr hc)
  split at hst
  · cases hst
  next m buffer hbuf =>
  cases hst
  refine ⟨h.crashed, ?_, h.counter, fun _ _ => rfl, fun hs hf => ?_⟩
  · have hp := h.place
    unfold Place at hp ⊢
    cases hs : v.state <;> simp_all
  · obtain ⟨hb, hnone, _⟩ := h.upgrade hs hf
    have hone : buffer = [] ∧ v.rest = false := by
      rcases hnone hcurrent with he | ⟨hl, hr⟩
      · rw [hbuf] at he; cases he
      · rw [hbuf] at hl
        exact ⟨length_eq_zero_iff.mp (by simpa using hl), hr⟩
    exact ⟨hb, nofun, fun _ => hone⟩

end

variable {reply reply' : Reply R}

omit v v' in
/-- An error that has been read stays. -/
theorem read_reply_member_error {k : List UInt8} {e : Variant R}
    (hread : read_reply_member reply k e = some reply') (h : reply.error.isSome ∨ k = ascii "error") :
    reply'.error.isSome := by
  unfold read_reply_member at hread
  split at hread
  · split at hread
    · rw [← Option.some.inj hread]
      rfl
    · cases hread
  next hk =>
  have herror := h.resolve_right hk
  split at hread
  · split at hread
    · cases hread
    split at hread
    · cases hread
    · rw [← Option.some.inj hread]
      exact herror
  split at hread
  · split at hread
    · rw [← Option.some.inj hread]
      exact herror
    · cases hread
  · cases hread

theorem read_reply_members_error {l : List (List UInt8 × Variant R)}
    (hread : read_reply_members reply l = some reply')
    (h : reply.error.isSome ∨ ∃ m ∈ l, m.1 = ascii "error") : reply'.error.isSome := by
  induction l generalizing reply with
  | nil =>
    rw [← Option.some.inj hread]
    rcases h with h | ⟨m, hm, _⟩
    · exact h
    · cases hm
  | cons x l ih =>
    obtain ⟨reply1, hmember, hread⟩ := Option.bind_eq_some_iff.mp hread
    refine ih hread ?_
    rcases h with h | ⟨m, hm, hk⟩
    · exact .inl (read_reply_member_error hmember (.inl h))
    · rcases mem_cons.mp hm with rfl | hm
      · exact .inl (read_reply_member_error hmember (.inr hk))
      · exact .inr ⟨m, hm, hk⟩

/-- A reply that is not the last one is not an error. -/
theorem no_error_of_continues {m : Variant R} (hread : read_reply m = some reply)
    (hc : reply.continues = true) : m.by_key (ascii "error") = none := by
  unfold read_reply at hread
  split at hread
  · next l =>
    obtain ⟨reply1, hmembers, hif⟩ := Option.bind_eq_some_iff.mp hread
    split at hif
    · cases hif
    next hboth =>
    cases hif
    refine Variant.by_key_eq_none.mpr fun x hx hk => hboth ⟨?_, hc⟩
    exact read_reply_members_error hmembers (.inr ⟨x, hx, hk⟩)
  · cases hread

/-- A message is looked at as a reply. -/
theorem Inv.dispatch_reply (h : v.Inv) (hs : awaits v.state = true) (sanitize : Bool) :
    (v.varlink_dispatch_reply sanitize).Inv := by
  have hp := h.place
  have hcounter := h.counter (by cases he : v.state <;> simp_all [awaits, VarlinkState.IS_ALIVE])
  have hn : v.n_pending ≠ 0 := by
    unfold Place at hp
    cases he : v.state <;> simp_all [awaits] <;> omega
  have hflight : v.inflight = 0 := by
    unfold inflight
    cases he : v.state <;> simp_all [awaits]
  have hlocal : (v.dispatch_local_error .PROCESSING_FAILURE).Inv := .local_error h.crashed (.inl rfl)
  unfold ClientLink.varlink_dispatch_reply
  rw [if_neg (not_not.mpr hs)]
  cases hcur : v.current with
  | none => exact h
  | some m =>
    have hcounted : v.counted = false := h.fresh hs (by rw [hcur]; rfl)
    dsimp only
    rw [if_neg hn]
    cases hread : read_reply m.message with
    | none => exact hlocal
    | some reply =>
      dsimp only
      split
      · exact hlocal
      next hcont =>
      split
      · exact hlocal
      -- the counter goes back only when the reply has been dealt with
      have hadd : v.n_pending + (if reply.continues = true ∨ v.counted = true then v.answered
          else v.answered + 1) = v.calls.length + if reply.continues = true then 0 else 1 := by
        rw [hcounted]
        cases reply.continues <;> simp <;> omega
      split
      · next hs' =>
        have hplace : v.frames = [] ∧ 0 < v.n_pending := by
          unfold Place at hp
          rcases hs' with hs' | hs'
          · rw [show v.state = _ from hs'] at hp; exact hp
          · rw [show v.state = _ from hs'] at hp; exact hp
        refine ⟨h.crashed, ⟨?_, hplace.2⟩, fun _ => hadd, nofun, nofun⟩
        show ClientFrame.reply reply.continues :: v.frames = [.reply reply.continues]
        rw [hplace.1]
      split
      · next hs'' =>
        have hplace : (∃ c, v.frames = [.collect c]) ∧ v.n_pending = 1 := by
          unfold Place at hp
          rw [hs''] at hp
          exact hp
        exact ⟨h.crashed, ⟨hplace.1, hplace.2, m, rfl, no_error_of_continues hread⟩, fun _ => hadd,
          nofun, nofun⟩
      · next hs'' =>
        have hcalling : v.state = .CALLING := by
          cases he : v.state <;> simp_all [awaits]
        have hplace : (v.frames = [.call] ∨ v.frames = [.upgrade]) ∧ v.n_pending = 1 := by
          unfold Place at hp
          rw [hcalling] at hp
          exact hp
        have hlast : reply.continues = false := by
          by_contra hc
          exact hcont ⟨by simpa using hc, by rw [hcalling]; nofun, by rw [hcalling]; nofun⟩
        refine ⟨h.crashed, ⟨hplace.1, hplace.2, rfl, hlast⟩, fun _ => hadd, nofun, fun _ hf => ?_⟩
        obtain ⟨hb, _, hsome⟩ := h.upgrade (.inl hcalling) hf
        exact ⟨hb, nofun, fun _ => hsome (by rw [hcur]; rfl)⟩

/-- The reply callback has taken the reply, or closed the connection. -/
theorem Inv.callback_returned (h : v.Inv) (hst : v.callback_returned = some v') : v'.Inv := by
  unfold ClientLink.callback_returned at hst
  split at hst
  · next continues frames hframes =>
    cases hst
    unfold reply_callback_returned
    dsimp only
    split
    · next hs =>
      have hs : v.state ≠ .PROCESSING_REPLY := hs
      -- the connection is closed, or about to be
      have hgone : gone v.state = true := by
        have hp := h.place
        unfold Place at hp
        cases he : v.state <;> simp_all [gone]
      exact .of_gone h.crashed hgone
    · next hs =>
      have hs : v.state = .PROCESSING_REPLY := not_not.mp hs
      have hp := h.place
      have hc := h.counter (by rw [hs]; rfl)
      unfold Place at hp
      unfold inflight at hc
      rw [hs] at hp hc
      rw [hframes] at hp
      obtain ⟨hf, hpos⟩ := hp
      obtain ⟨hcont, hnil⟩ := cons.inj hf
      have hcont : continues = v.current_continues := by
        injection hcont
      rw [← hcont] at hc
      split
      · next hz => exact absurd hz (Nat.ne_of_gt hpos)
      cases continues with
      | true => exact ⟨h.crashed, ⟨hnil, hpos⟩, fun _ => hc, nofun, nofun⟩
      | false =>
        simp only [Bool.false_eq_true, if_false, varlink_clear_current] at hc ⊢
        by_cases hz : v.n_pending - 1 = 0
        · simp only [hz]
          refine ⟨h.crashed, ⟨hnil, rfl⟩, fun _ => ?_, nofun, nofun⟩
          show 0 + v.answered = v.calls.length + 0
          omega
        · simp only [hz]
          refine ⟨h.crashed, ⟨hnil, Nat.pos_of_ne_zero hz⟩, fun _ => ?_, nofun, nofun⟩
          show v.n_pending - 1 + v.answered = v.calls.length + 0
          omega
  · next frames hframes =>
    cases hst
    exact Inv.close h.crashed
  · cases hst

/-! ## Section 9: Synchronous calls that return -/

/-- A reply has been taken, and the counter goes back. -/
theorem Inv.finish (hcrashed : v.crashed = false) (hn : v.n_pending = 1)
    (hframes : v.frames = []) (hcounter : v.n_pending + v.answered = v.calls.length + 1) :
    (v.finish .IDLE_CLIENT).Inv ∧ (v.finish .IDLE_CLIENT).Rested := by
  unfold ClientLink.finish
  rw [if_neg (not_not.mpr hn)]
  refine ⟨⟨hcrashed, ⟨hframes, ?_⟩, fun _ => ?_, nofun, nofun⟩, .inl rfl⟩
  · show v.n_pending - 1 = 0
    rw [hn]
  · show v.n_pending - 1 + v.answered = v.calls.length + 0
    omega

theorem Inv.finish_gone (hcrashed : v.crashed = false) (hn : v.n_pending = 1) (hs : gone s = true) :
    (v.finish s).Inv ∧ (v.finish s).Rested := by
  unfold ClientLink.finish
  rw [if_neg (not_not.mpr hn)]
  exact ⟨.of_gone hcrashed hs, .inr hs⟩

/-- The states of a connection with a synchronous call on top of the stack,
    outside of its loop. -/
theorem Inv.synchronous_top (h : v.Inv) {frame : ClientFrame R} {frames : List (ClientFrame R)}
    (hframes : v.frames = frame :: frames) (hsync : frame.synchronous = true)
    (hs : ¬ (v.state = .CALLING ∨ v.state = .COLLECTING)) : gone v.state = true ∨ (frames = [] ∧
      (((frame = .call ∨ frame = .upgrade) ∧ v.state = .CALLED) ∨
        ((∃ c, frame = .collect c) ∧ v.state = .COLLECTING_REPLY))) := by
  have hp := h.place
  unfold Place at hp
  rw [hframes] at hp
  cases he : v.state with
  | PENDING_DISCONNECT | PENDING_TIMEOUT | DISCONNECTED => exact .inl rfl
  | CALLING => exact absurd (.inl he) hs
  | COLLECTING => exact absurd (.inr he) hs
  | CALLED =>
    rw [he] at hp
    refine .inr ?_
    rcases hp.1 with hf | hf
    · obtain ⟨rfl, rfl⟩ := cons.inj hf
      exact ⟨rfl, .inl ⟨.inl rfl, rfl⟩⟩
    · obtain ⟨rfl, rfl⟩ := cons.inj hf
      exact ⟨rfl, .inl ⟨.inr rfl, rfl⟩⟩
  | COLLECTING_REPLY =>
    rw [he] at hp
    obtain ⟨⟨c, hf⟩, _⟩ := hp
    obtain ⟨rfl, rfl⟩ := cons.inj hf
    exact .inr ⟨rfl, .inr ⟨⟨c, rfl⟩, rfl⟩⟩
  | PROCESSING_REPLY =>
    -- a callback is on top
    rw [he] at hp
    obtain ⟨rfl, _⟩ := cons.inj hp.1
    cases hsync
  | PROCESSING_DISCONNECT | PROCESSING_TIMEOUT | PROCESSING_FAILURE =>
    rw [he] at hp
    obtain ⟨_, hf⟩ := hp
    obtain ⟨rfl, _⟩ := cons.inj hf
    cases hsync
  | _ => simp [he] at hp

/-- A call whose reply has come. -/
theorem Inv.called (h : v.Inv) (hs : v.state = .CALLED) :
    v.n_pending = 1 ∧ (∃ m, v.current = some m) ∧
      v.n_pending + v.answered = v.calls.length + 1 := by
  have hp := h.place
  have hc := h.counter (by rw [hs]; rfl)
  unfold Place at hp
  unfold inflight at hc
  rw [hs] at hp hc
  obtain ⟨_, hn, hcur, hcont⟩ := hp
  rw [hcont] at hc
  exact ⟨hn, Option.isSome_iff_exists.mp hcur, hc⟩

theorem Inv.call_returned (h : v.Inv) (hs : v.state = .CALLED) :
    { v with frames := [] }.call_returned.Inv ∧ { v with frames := [] }.call_returned.Rested := by
  obtain ⟨hn, ⟨m, hcur⟩, hcounter⟩ := h.called hs
  simp only [hs, hcur, Bool.false_eq_true, ne_eq, not_true_eq_false, if_false]
  apply Inv.finish
  · exact h.crashed
  · exact hn
  · rfl
  · exact hcounter

/-- The flag for bounded reads, of a connection that waits for nothing. -/
theorem Rested.unbounded (h : v.Inv ∧ v.Rested) :
    { v with bounded := false }.Inv ∧ { v with bounded := false }.Rested := by
  refine ⟨h.1.set_bounded false ?_, h.2⟩
  rcases h.2 with hs | hs
  · rw [hs]
    exact ⟨nofun, nofun⟩
  · constructor
    · intro he
      rw [he] at hs
      cases hs
    · intro he
      rw [he] at hs
      cases hs

theorem Inv.upgrade_returned (h : v.Inv) (hframes : v.frames = [.upgrade]) (hs : v.state = .CALLED)
    (ok : Bool) :
    ({ v with frames := [] }.upgrade_returned ok).Inv ∧
      ({ v with frames := [] }.upgrade_returned ok).Rested := by
  obtain ⟨hn, ⟨m, hcur⟩, hcounter⟩ := h.called hs
  obtain ⟨_, _, hinput⟩ := h.upgrade (.inr hs) hframes
  obtain ⟨hbuffer, hrest⟩ := hinput (by rw [hcur]; rfl)
  unfold ClientLink.upgrade_returned
  simp only [hs, hcur, hbuffer, hrest, gone, Bool.false_eq_true, ne_eq, not_true_eq_false, or_self,
    if_false]
  split
  · apply Rested.unbounded
    apply Inv.finish
    · exact h.crashed
    · exact hn
    · rfl
    · exact hcounter
  split
  · apply Inv.finish_gone
    · exact h.crashed
    · exact hn
    · rfl
  · apply Rested.unbounded
    apply Inv.finish_gone
    · exact h.crashed
    · exact hn
    · rfl

/-- The loop goes on, or the call returns. -/
theorem Inv.collect_turn (h : v.Inv) {collected : List (Incoming R)}
    (hframes : v.frames = [.collect collected]) (hs : v.state = .COLLECTING_REPLY) {ok : Bool}
    (hok : v.Orderly (.synchronous_return ok)) :
    ({ v with frames := [] }.collect_turn ok collected).Inv ∧
      (({ v with frames := [] }.collect_turn ok collected).Rested ∨
        ({ v with frames := [] }.collect_turn ok collected).synchronous_calls = 1) := by
  have hp := h.place
  have hc := h.counter (by rw [hs]; rfl)
  unfold Place at hp
  unfold inflight at hc
  rw [hs] at hp hc
  obtain ⟨_, hn, m, hcur, herror⟩ := hp
  unfold ClientLink.collect_turn
  simp only [hs, hcur, gone, Bool.false_eq_true, ne_eq, not_true_eq_false, if_false]
  cases hcont : v.current_continues with
  | true =>
    obtain ⟨rfl, hroom⟩ := hok hs hcont
    have hroom := hroom collected [] hframes
    rw [hcont] at hc
    simp only [herror hcont, Option.isSome_none, Bool.false_eq_true, if_false, if_true,
      if_neg (Nat.not_le.mpr hroom), not_true_eq_false]
    exact ⟨⟨h.crashed, ⟨⟨_, rfl⟩, hn⟩, fun _ => hc, nofun, nofun⟩, .inr rfl⟩
  | false =>
    rw [hcont] at hc
    have hfinish : ∀ w : ClientLink R, w.frames = [] → w.crashed = v.crashed →
        w.n_pending = v.n_pending → w.answered = v.answered → w.calls = v.calls → ∀ l,
        { w.finish .IDLE_CLIENT with delivered := l }.Inv ∧
          ({ w.finish .IDLE_CLIENT with delivered := l }.Rested ∨
            { w.finish .IDLE_CLIENT with delivered := l }.synchronous_calls = 1) := by
      intro w hf hcrashed hw ha hcalls l
      obtain ⟨hinv, hrested⟩ := Inv.finish (hcrashed.trans h.crashed) (hw.trans hn) hf
        (by rw [hw, ha, hcalls]; exact hc)
      exact ⟨⟨hinv.crashed, hinv.place, hinv.counter, hinv.fresh, hinv.upgrade⟩, .inl hrested⟩
    -- in each branch the connection is idle, whatever has been handed out
    split
    · apply hfinish <;> rfl
    split
    · apply hfinish <;> rfl
    split
    · apply hfinish <;> rfl
    · apply hfinish <;> rfl

/-- A connection that is gone when a synchronous call looks at it. -/
theorem Inv.returned_gone (h : v.Inv) (hgone : gone v.state = true) {w : ClientLink R}
    (hcrashed : w.crashed = v.crashed) (hs : w.state = v.state) : w.Inv ∧ w.Rested := by
  have hgone : gone w.state = true := by rw [hs]; exact hgone
  exact ⟨.of_gone (hcrashed.trans h.crashed) hgone, .inr hgone⟩

theorem Inv.synchronous_returned (h : v.Inv) {ok : Bool} (hok : v.Orderly (.synchronous_return ok))
    (hst : v.synchronous_returned ok = some v') :
    v'.Inv ∧ (v'.synchronous_calls < v.synchronous_calls → v'.Rested) := by
  unfold ClientLink.synchronous_returned at hst
  split at hst
  · cases hst
  next hs =>
  split at hst
  · next frames hframes =>
    cases hst
    rcases h.synchronous_top hframes rfl hs with hgone | ⟨rfl, ⟨_, hcalled⟩ | ⟨⟨c, hf⟩, _⟩⟩
    · have hw : { v with frames := frames }.call_returned = { v with frames := frames } :=
        if_pos hgone
      obtain ⟨hinv, hrested⟩ := h.returned_gone hgone (w := { v with frames := frames }) rfl rfl
      rw [hw]
      exact ⟨hinv, fun _ => hrested⟩
    · obtain ⟨hinv, hrested⟩ := h.call_returned hcalled
      exact ⟨hinv, fun _ => hrested⟩
    · cases hf
  · next frames hframes =>
    cases hst
    rcases h.synchronous_top hframes rfl hs with hgone | ⟨rfl, ⟨_, hcalled⟩ | ⟨⟨c, hf⟩, _⟩⟩
    · have hw : { v with frames := frames }.upgrade_returned ok =
          { v with frames := frames, bounded := false } := if_pos hgone
      obtain ⟨hinv, hrested⟩ :=
        h.returned_gone hgone (w := { v with frames := frames, bounded := false }) rfl rfl
      rw [hw]
      exact ⟨hinv, fun _ => hrested⟩
    · obtain ⟨hinv, hrested⟩ := h.upgrade_returned hframes hcalled ok
      exact ⟨hinv, fun _ => hrested⟩
    · cases hf
  · next collected frames hframes =>
    cases hst
    rcases h.synchronous_top hframes rfl hs with hgone | ⟨rfl, ⟨hf | hf, _⟩ | ⟨_, hreply⟩⟩
    · have hw : { v with frames := frames }.collect_turn ok collected =
          { v with frames := frames } := if_pos hgone
      obtain ⟨hinv, hrested⟩ := h.returned_gone hgone (w := { v with frames := frames }) rfl rfl
      rw [hw]
      exact ⟨hinv, fun _ => hrested⟩
    · cases hf
    · cases hf
    · obtain ⟨hinv, hrested | hcount⟩ := h.collect_turn hframes hreply hok
      · exact ⟨hinv, fun _ => hrested⟩
      · refine ⟨hinv, fun hlt => ?_⟩
        rw [hcount] at hlt
        simp [synchronous_calls, hframes, ClientFrame.synchronous] at hlt
  · cases hst

/-! ## Section 10: Runs -/

/-- The API is called from outside of the loops of synchronous calls. -/
theorem Inv.callable (h : v.Inv) (hcallable : v.callable = true) :
    v.state ≠ .CALLING ∧ v.state ≠ .CALLED := by
  have hp := h.place
  unfold Place at hp
  unfold ClientLink.callable at hcallable
  constructor
  · intro hs
    rw [hs] at hp
    rcases hp.1 with hf | hf
    · rw [hf] at hcallable; cases hcallable
    · rw [hf] at hcallable; cases hcallable
  · intro hs
    rw [hs] at hp
    rcases hp.1 with hf | hf
    · rw [hf] at hcallable; cases hcallable
    · rw [hf] at hcallable; cases hcallable

/-- A synchronous call that an idle client makes is there afterwards, or the
    client is still idle. -/
theorem call_internal_rested (sent : Bool) (frame : ClientFrame R)
    (hsync : frame.synchronous = true) (hs : v.state = .IDLE_CLIENT)
    (hcount : (v.varlink_call_internal frame sent).1.synchronous_calls = v.synchronous_calls) :
    (v.varlink_call_internal frame sent).1.Rested := by
  unfold varlink_call_internal at *
  rw [if_neg (not_not.mpr hs)] at *
  split at hcount
  · next hn => rw [if_pos hn]; exact .inl hs
  next hn =>
  rw [if_neg hn]
  split at hcount
  · next hsent => rw [if_pos hsent]; exact .inl hs
  · simp only [synchronous_calls, countP_cons, hsync, if_true] at hcount
    omega

theorem collect_rested (sent : Bool) (hs : v.state = .IDLE_CLIENT)
    (hcount : (v.sd_varlink_collect sent).synchronous_calls = v.synchronous_calls) :
    (v.sd_varlink_collect sent).Rested := by
  unfold sd_varlink_collect at *
  rw [if_neg (not_not.mpr hs)] at *
  split at hcount
  · next hn => rw [if_pos hn]; exact .inl hs
  next hn =>
  rw [if_neg hn]
  split at hcount
  · next hsent => rw [if_pos hsent]; exact .inl hs
  · have hcount : v.frames.countP (·.synchronous) + 1 = v.frames.countP (·.synchronous) := by
      simpa only [synchronous_calls, countP_cons, ClientFrame.synchronous, if_true] using hcount
    omega

theorem call_and_upgrade_rested (sent : Bool) (hs : v.state = .IDLE_CLIENT)
    (hcount : (v.sd_varlink_call_and_upgrade sent).synchronous_calls = v.synchronous_calls) :
    (v.sd_varlink_call_and_upgrade sent).Rested := by
  unfold sd_varlink_call_and_upgrade at *
  have hx := call_internal_rested (v := { v with bounded := true }) sent .upgrade rfl hs
  split at hcount
  · next w heq =>
    rw [heq] at hx
    exact hx hcount
  · next w heq =>
    rw [heq] at hx
    exact hx hcount

/-- One step. -/
theorem Inv.step (h : v.Inv) {label : ClientLabel R} (hok : v.Orderly label)
    (hst : v.step label = some v') : v'.Inv ∧ (v.returned v' label → v'.Rested) := by
  unfold ClientLink.step at hst
  rw [if_neg (by rw [h.crashed]; nofun)] at hst
  cases label with
  | peer m =>
    cases hst
    exact ⟨⟨h.crashed, h.place, h.counter, h.fresh, h.upgrade⟩, nofun⟩
  | read n rest =>
    dsimp only at hst
    split at hst
    · exact ⟨h.read hst, nofun⟩
    · cases hst
  | parse =>
    dsimp only at hst
    split at hst
    · exact ⟨h.parse hst, nofun⟩
    · cases hst
  | dispatch_reply sanitize =>
    dsimp only at hst
    split at hst
    · next hguard =>
      cases hst
      exact ⟨h.dispatch_reply hguard.2.1 sanitize, nofun⟩
    · cases hst
  | callback_return => exact ⟨h.callback_returned hst, nofun⟩
  | test_disconnect =>
    dsimp only at hst
    split at hst
    · cases hst
      exact ⟨.of_gone h.crashed rfl, nofun⟩
    · cases hst
  | dispatch_disconnect =>
    dsimp only at hst
    split at hst
    · cases hst
      exact ⟨.local_error h.crashed (.inr (.inl rfl)), nofun⟩
    · cases hst
  | test_timeout =>
    dsimp only at hst
    split at hst
    · cases hst
      exact ⟨.of_gone h.crashed rfl, nofun⟩
    · cases hst
  | dispatch_timeout =>
    dsimp only at hst
    split at hst
    · cases hst
      exact ⟨.local_error h.crashed (.inr (.inr rfl)), nofun⟩
    · cases hst
  | process_failed =>
    dsimp only at hst
    split at hst
    · cases hst
    split at hst
    · cases hst
      exact ⟨.of_gone h.crashed rfl, nofun⟩
    · cases hst
      exact ⟨.close h.crashed, nofun⟩
  | close =>
    dsimp only at hst
    split at hst
    · cases hst
      exact ⟨.close h.crashed, nofun⟩
    · cases hst
  | send =>
    dsimp only at hst
    split at hst
    · cases hst
      exact ⟨h, nofun⟩
    · cases hst
  | invoke sent =>
    dsimp only at hst
    split at hst
    · cases hst
      exact ⟨h.invoke sent hok, nofun⟩
    · cases hst
  | observe sent =>
    dsimp only at hst
    split at hst
    · cases hst
      exact ⟨h.observe sent hok, nofun⟩
    · cases hst
  | call sent =>
    dsimp only at hst
    split at hst
    · cases hst
      exact ⟨h.call_internal sent .call (.inl rfl) nofun,
        fun hret => call_internal_rested sent .call rfl hret.1 hret.2⟩
    · cases hst
  | call_and_upgrade sent =>
    dsimp only at hst
    split at hst
    · next hcallable =>
      cases hst
      exact ⟨h.call_and_upgrade sent hok (h.callable hcallable),
        fun hret => call_and_upgrade_rested sent hret.1 hret.2⟩
    · cases hst
  | collect sent =>
    dsimp only at hst
    split at hst
    · cases hst
      exact ⟨h.collect sent, fun hret => collect_rested sent hret.1 hret.2⟩
    · cases hst
  | synchronous_return ok => exact h.synchronous_returned hok hst
  | wait_failed => exact hok.elim

theorem Inv.reachable (hv : Reachable (calling.restrict Orderly) v) : v.Inv := by
  refine hv.invariant (fun s hs => ?_) fun s label s' h hst => (h.step hst.1 hst.2).1
  rw [show s = ClientLink.connected from hs]
  exact .connected

theorem Inv.sound (h : v.Inv) : v.Sound := ⟨h.crashed, h.counter⟩

end ClientLink

end SdCompat.Varlink
