import SdCompat.SdVarlink.ClientCalls

/-! # Replies and the calls they answer (sd-varlink.c)

    A server answers the calls of a connection in order, with any number of
    replies marked `continues` before the last one. The client does not number
    its calls: a reply belongs to the call that has waited longest. What the
    replies that have been handed out and those on the way are, taken together,
    is what the server has sent.
-/

open Transition SdCompat.Json

namespace SdCompat.Varlink

open List ClientLink

variable {R : Type}

/-! ## Section 1: What the server sends -/

/-- The message is a reply that is not the last one. -/
def Incoming.continues (m : Incoming R) : Bool :=
  match read_reply m.message with
  | some reply => reply.continues
  | none => false

/-- How many calls are answered by these messages. -/
def finals (l : List (Incoming R)) : Nat := l.countP fun m => !m.continues

@[simp] theorem finals_nil : finals ([] : List (Incoming R)) = 0 := rfl

@[simp] theorem finals_append (l l' : List (Incoming R)) :
    finals (l ++ l') = finals l + finals l' := countP_append

@[simp] theorem finals_singleton (m : Incoming R) :
    finals [m] = if m.continues = true then 0 else 1 := by
  unfold finals
  cases hm : m.continues <;> simp [hm]

variable {l : List (Incoming R)}

/-- Replies that are not the last answer no call. -/
theorem finals_eq_zero (h : ∀ m ∈ l, m.continues = true) : finals l = 0 := by
  refine countP_eq_zero.mpr fun m hm => ?_
  simp [h m hm]

/-- Each message answers the first call that is not answered yet, of which
    there is one. -/
def Numbered (calls : Nat) (l : List (Incoming R)) : Prop :=
  ∀ l₁ m l₂, l = l₁ ++ m :: l₂ → m.call = finals l₁ ∧ m.call < calls

variable {calls : Nat}

theorem Numbered.mono {calls' : Nat} (h : Numbered calls l) (hc : calls ≤ calls') :
    Numbered calls' l := by
  intro l1 m l2 hl
  obtain ⟨hn, hlt⟩ := h l1 m l2 hl
  exact ⟨hn, Nat.lt_of_lt_of_le hlt hc⟩

theorem Numbered.append (h : Numbered calls l) {m : Incoming R} (hn : m.call = finals l)
    (hlt : m.call < calls) : Numbered calls (l ++ [m]) := by
  intro l1 m' l2 hl
  rcases eq_nil_or_concat l2 with rfl | ⟨l3, x, rfl⟩
  · obtain ⟨rfl, hm⟩ := append_inj' hl rfl
    obtain ⟨rfl, _⟩ := cons.inj hm
    exact ⟨hn, hlt⟩
  · have hl : l ++ [m] = (l1 ++ m' :: l3) ++ [x] := by simpa using hl
    obtain ⟨hl, _⟩ := append_inj' hl rfl
    exact h l1 m' l3 hl

/-- When all calls have been answered there is nothing more. -/
theorem Numbered.eq_nil {l' : List (Incoming R)} (h : Numbered calls (l ++ l'))
    (hall : finals l = calls) : l' = [] := by
  cases l' with
  | nil => rfl
  | cons m l' =>
    obtain ⟨hn, hlt⟩ := h l m l' rfl
    omega

namespace ClientLink

variable {v v' : ClientLink R}

/-! ## Section 2: Where a reply is -/

/-- What a synchronous call has got and not handed out yet. -/
def held (v : ClientLink R) : List (Incoming R) :=
  match v.state, v.frames with
  | .CALLED, _ => v.current.toList
  | .COLLECTING, .collect collected :: _ => collected
  | .COLLECTING_REPLY, .collect collected :: _ => collected ++ v.current.toList
  | _, _ => []

/-- What has not been looked at. -/
def unread (v : ClientLink R) : List (Incoming R) :=
  (if awaits v.state then v.current.toList else []) ++ v.buffer ++ v.wire

/-- The replies that have been handed out. -/
def handed_out (v : ClientLink R) : List (Incoming R) := v.delivered.map (·.1)

/-- **Each reply goes to its call**: the replies handed out are the first ones
    the server has sent, each one handed out for the call it answers, and as
    long as the connection is not closed the others are on the way, in order. -/
structure Matched (v : ClientLink R) : Prop where
  order : v.handed_out <+: v.peer
  call : ∀ x ∈ v.delivered, x.1.call = x.2
  complete : v.state.IS_ALIVE = true → v.handed_out ++ v.held ++ v.unread = v.peer

/-- The server answers the calls in order. -/
def Answering (v : ClientLink R) : ClientLabel R → Prop
  | .peer m => m.call = finals v.peer ∧ m.call < v.calls.length
  | _ => True

/-- No asynchronous call is made while a reply is still there, and what a
    collecting call has got is not dropped. -/
def Matching (v : ClientLink R) : ClientLabel R → Prop
  | .invoke sent | .observe sent => sent = true → v.state = .IDLE_CLIENT → v.current = none
  | .synchronous_return ok =>
    v.state = .COLLECTING_REPLY → ∀ collected frames m, v.frames = .collect collected :: frames →
      v.current = some m →
        if (m.message.by_key (ascii "error")).isSome then collected = []
        else ok = true ∧ collected.length < VARLINK_COLLECT_MAX
  | _ => True

/-- What holds of replies at any time. -/
structure Flow (v : ClientLink R) : Prop where
  matched : v.Matched
  numbered : Numbered v.calls.length v.peer
  answered : v.state.IS_ALIVE = true → v.answered = finals (v.handed_out ++ v.held)
  processing : v.state = .PROCESSING_REPLY → v.current.isSome
  collected : v.state.IS_ALIVE = true → ∀ l, v.frames = [.collect l] →
    ∀ m ∈ l, m.continues = true
  dispatched : v.state = .CALLED ∨ v.state = .COLLECTING_REPLY →
    ∀ m, v.current = some m → m.continues = v.current_continues

theorem Flow.connected : (connected : ClientLink R).Flow := by
  refine ⟨⟨⟨[], rfl⟩, nofun, fun _ => rfl⟩, fun l1 m l2 hl => ?_, fun _ => rfl, nofun, nofun, nofun⟩
  cases l1 <;> cases hl

variable {w : ClientLink R}

/-- A connection that is no longer alive: nothing is handed out. -/
theorem Flow.dead (h : v.Flow) (hdelivered : w.delivered = v.delivered) (hpeer : w.peer = v.peer)
    (hcalls : w.calls = v.calls) (hs : w.state.IS_ALIVE = false) : w.Flow := by
  have hnot : ∀ {s : VarlinkState}, s.IS_ALIVE = true → w.state ≠ s := by
    intro s ha hw
    rw [hw, ha] at hs
    cases hs
  refine ⟨⟨?_, ?_, fun ha => ?_⟩, ?_, fun ha => ?_, fun he => ?_, fun ha => ?_, fun he => ?_⟩
  · rw [handed_out, hdelivered, hpeer]
    exact h.matched.order
  · rw [hdelivered]
    exact h.matched.call
  · rw [hs] at ha; cases ha
  · rw [hcalls, hpeer]
    exact h.numbered
  · rw [hs] at ha; cases ha
  · exact absurd he (hnot rfl)
  · rw [hs] at ha; cases ha
  · rcases he with he | he
    · exact absurd he (hnot rfl)
    · exact absurd he (hnot rfl)

/-! ## Section 3: Steps that start a call -/

/-- An idle client has nothing left to read: all calls have been answered. -/
theorem Flow.idle (h : v.Flow) (hinv : v.Inv) (hs : v.state = .IDLE_CLIENT) :
    v.buffer = [] ∧ v.wire = [] ∧ v.handed_out = v.peer ∧ v.answered = finals v.handed_out := by
  have ha : v.state.IS_ALIVE = true := by rw [hs]; rfl
  have hheld : v.held = [] := by
    unfold held
    rw [hs]
  have hunread : v.unread = v.buffer ++ v.wire := by
    unfold unread
    rw [hs]
    rfl
  have hcomplete := h.matched.complete ha
  have hanswered := h.answered ha
  rw [hheld, append_nil] at hcomplete hanswered
  rw [hunread] at hcomplete
  have hnumbered : Numbered v.calls.length (v.handed_out ++ (v.buffer ++ v.wire)) := by
    rw [hcomplete]
    exact h.numbered
  have hnil := hnumbered.eq_nil (by rw [← hanswered]; exact (hinv.idle hs).2.2)
  obtain ⟨hb, hw⟩ := append_eq_nil_iff.mp hnil
  refine ⟨hb, hw, ?_, hanswered⟩
  rw [← hcomplete, hnil, append_nil]

/-- The states in which a new call waits for its first reply. -/
theorem Flow.start (h : v.Flow) (hinv : v.Inv) (hs : v.state = .IDLE_CLIENT)
    (hcurrent : w.current = none) (hbuffer : w.buffer = v.buffer) (hwire : w.wire = v.wire)
    (hdelivered : w.delivered = v.delivered) (hpeer : w.peer = v.peer)
    (hanswered : w.answered = v.answered) (hcalls : v.calls.length ≤ w.calls.length)
    (hheld : w.held = []) (hstate : w.state ≠ .PROCESSING_REPLY)
    (hframes : ∀ l, w.frames = [.collect l] → l = []) : w.Flow := by
  obtain ⟨hb, hw, hall, hfinals⟩ := h.idle hinv hs
  have hout : w.handed_out = v.handed_out := by
    unfold handed_out
    rw [hdelivered]
  refine ⟨⟨?_, ?_, fun _ => ?_⟩, ?_, fun _ => ?_, fun he => absurd he hstate, fun _ l hl => ?_,
    fun _ m hm => ?_⟩
  · rw [hout, hpeer]
    exact h.matched.order
  · rw [hdelivered]
    exact h.matched.call
  · have hunread : w.unread = [] := by
      unfold unread
      rw [hcurrent, hbuffer, hwire, hb, hw]
      simp
    rw [hout, hheld, hunread, hall, hpeer]
    simp
  · rw [hpeer]
    exact h.numbered.mono hcalls
  · rw [hanswered, hout, hheld, append_nil, hfinals]
  · rw [hframes l hl]
    nofun
  · rw [hcurrent] at hm
    cases hm

theorem Flow.clear_current (h : v.Flow) (hinv : v.Inv) (hs : v.state = .IDLE_CLIENT) :
    v.varlink_clear_current.Flow := by
  have hs' : v.varlink_clear_current.state = .IDLE_CLIENT := hs
  refine h.start hinv hs rfl rfl rfl rfl rfl rfl (Nat.le_refl _) ?_ (by rw [hs']; nofun) fun l hl => ?_
  · unfold held
    rw [hs']
  · rw [show v.varlink_clear_current.frames = [] from (hinv.idle hs).1] at hl
    cases hl

/-- An asynchronous call, with nothing left from another one. -/
theorem Flow.start_async (h : v.Flow) (hinv : v.Inv)
    (hs : v.state = .IDLE_CLIENT ∨ v.state = .AWAITING_REPLY)
    (hcurrent : v.state = .IDLE_CLIENT → v.current = none) {state : VarlinkState}
    (hstate : state = .AWAITING_REPLY ∨ state = .AWAITING_REPLY_MORE) (more : Bool) :
    (v.start state more).Flow := by
  have hle : v.calls.length ≤ (v.start state more).calls.length := by
    simp [ClientLink.start]
  have hframes : v.frames = [] := by
    have hp := hinv.place
    unfold Place at hp
    rcases hs with hs | hs
    · rw [hs] at hp; exact hp.1
    · rw [hs] at hp; exact hp.1
  have hheld : (v.start state more).held = [] := by
    rcases hstate with rfl | rfl
    · rfl
    · rfl
  have hnot : (v.start state more).state ≠ .PROCESSING_REPLY := by
    rcases hstate with rfl | rfl
    · nofun
    · nofun
  have hno : ∀ l, (v.start state more).frames = [.collect l] → l = [] := by
    intro l hl
    rw [show (v.start state more).frames = [] from hframes] at hl
    cases hl
  rcases hs with hs | hs
  · exact h.start hinv hs (hcurrent hs) rfl rfl rfl rfl rfl hle hheld hnot hno
  · -- other calls are waiting, and so may be their replies
    have ha : v.state.IS_ALIVE = true := by rw [hs]; rfl
    have hheld' : v.held = [] := by
      unfold held
      rw [hs]
    have hunread : (v.start state more).unread = v.unread := by
      unfold unread
      rw [hs]
      rcases hstate with rfl | rfl
      · rfl
      · rfl
    refine ⟨⟨h.matched.order, h.matched.call, fun _ => ?_⟩, h.numbered.mono hle, fun _ => ?_,
      fun he => absurd he hnot, fun _ l hl => ?_, fun he => ?_⟩
    · rw [hheld, hunread, ← hheld']
      exact h.matched.complete ha
    · rw [hheld, ← hheld']
      exact h.answered ha
    · rw [hno l hl]
      nofun
    · rcases hstate with rfl | rfl
      · rcases he with he | he <;> cases he
      · rcases he with he | he <;> cases he

theorem Flow.invoke (h : v.Flow) (hinv : v.Inv) (sent : Bool) (hok : v.Matching (.invoke sent)) :
    (v.sd_varlink_invoke sent).Flow := by
  unfold sd_varlink_invoke
  split
  · exact h
  next hs =>
  split
  · exact h
  next hsent =>
  have hs : v.state = .IDLE_CLIENT ∨ v.state = .AWAITING_REPLY := by
    by_contra hno
    exact hs ⟨fun he => hno (.inl he), fun he => hno (.inr he)⟩
  exact h.start_async hinv hs (hok (not_not.mp hsent)) (.inl rfl) false

theorem Flow.observe (h : v.Flow) (hinv : v.Inv) (sent : Bool) (hok : v.Matching (.observe sent)) :
    (v.sd_varlink_observe sent).Flow := by
  unfold sd_varlink_observe
  split
  · exact h
  next hs =>
  split
  · exact h
  next hsent =>
  exact h.start_async hinv (.inl (not_not.mp hs)) (hok (not_not.mp hsent)) (.inr rfl) true

theorem Flow.call_internal (h : v.Flow) (hinv : v.Inv) (sent : Bool) {frame : ClientFrame R}
    (hframe : frame = .call ∨ frame = .upgrade) : (v.varlink_call_internal frame sent).1.Flow := by
  unfold varlink_call_internal
  split
  · exact h
  next hs =>
  have hs := not_not.mp hs
  obtain ⟨hf, hn, _⟩ := hinv.idle hs
  rw [if_neg (not_not.mpr hn)]
  split
  · exact h.clear_current hinv hs
  · refine h.start hinv hs rfl rfl rfl rfl rfl rfl (by simp [ClientLink.start, varlink_clear_current])
      rfl nofun fun l hl => ?_
    rcases hframe with rfl | rfl
    · cases hl
    · cases hl

/-- How much is read at a time does not matter here. -/
theorem Flow.set_bounded (h : v.Flow) (bounded : Bool) : { v with bounded := bounded }.Flow :=
  ⟨⟨h.matched.order, h.matched.call, h.matched.complete⟩, h.numbered, h.answered, h.processing,
    h.collected, h.dispatched⟩

theorem Flow.call_and_upgrade (h : v.Flow) (hinv : v.Inv) (sent : Bool)
    (hcallable : v.state ≠ .CALLING ∧ v.state ≠ .CALLED) :
    (v.sd_varlink_call_and_upgrade sent).Flow := by
  have hflow := (h.set_bounded true).call_internal (hinv.set_bounded true hcallable) sent (.inr rfl)
  unfold sd_varlink_call_and_upgrade
  split
  · next w heq =>
    rw [heq] at hflow
    exact hflow
  · next w heq =>
    rw [heq] at hflow
    exact hflow.set_bounded false

theorem Flow.collect (h : v.Flow) (hinv : v.Inv) (sent : Bool) :
    (v.sd_varlink_collect sent).Flow := by
  unfold sd_varlink_collect
  split
  · exact h
  next hs =>
  have hs := not_not.mp hs
  obtain ⟨hf, hn, _⟩ := hinv.idle hs
  rw [if_neg (not_not.mpr hn)]
  split
  · exact h.clear_current hinv hs
  · refine h.start hinv hs rfl rfl rfl rfl rfl rfl (by simp [ClientLink.start, varlink_clear_current])
      rfl nofun fun l hl => ?_
    have hl := (cons.inj hl).1
    injection hl with hl
    exact hl.symm

/-! ## Section 4: Steps of processing -/

variable {m : Incoming R}

theorem Flow.peer (h : v.Flow) (hok : v.Answering (.peer m)) :
    { v with wire := v.wire ++ [m], peer := v.peer ++ [m] }.Flow := by
  refine ⟨⟨h.matched.order.trans (prefix_append _ _), h.matched.call, fun ha => ?_⟩,
    h.numbered.append hok.1 hok.2, h.answered, h.processing, h.collected, h.dispatched⟩
  show v.handed_out ++ v.held ++
    ((if awaits v.state then v.current.toList else []) ++ v.buffer ++ (v.wire ++ [m])) = _
  rw [← h.matched.complete ha]
  simp [unread]

/-- What is read is moved. -/
theorem Flow.moved (h : v.Flow) (current : Option (Incoming R)) (buffer wire : List (Incoming R))
    (rest counted : Bool)
    (hunread : v.state.IS_ALIVE = true →
      (if awaits v.state then current.toList else []) ++ buffer ++ wire = v.unread)
    (hheld : { v with current := current }.held = v.held)
    (hprocessing : v.state = .PROCESSING_REPLY → current.isSome)
    (hdispatched : v.state = .CALLED ∨ v.state = .COLLECTING_REPLY → current = v.current) :
    { v with
      current := current, buffer := buffer, wire := wire, rest := rest,
      counted := counted }.Flow := by
  refine ⟨⟨h.matched.order, h.matched.call, fun ha => ?_⟩, h.numbered, fun ha => ?_, hprocessing,
    h.collected, fun he m hm => h.dispatched he m ((hdispatched he).symm.trans hm)⟩
  · show v.handed_out ++ { v with current := current }.held ++
      ((if awaits v.state then current.toList else []) ++ buffer ++ wire) = v.peer
    rw [hheld, hunread ha]
    exact h.matched.complete ha
  · show v.answered = finals (v.handed_out ++ { v with current := current }.held)
    rw [hheld]
    exact h.answered ha

theorem Flow.read (h : v.Flow) {n : Nat} {rest : Bool} (hst : v.json_stream_read n rest = some v') :
    v'.Flow := by
  unfold json_stream_read at hst
  split at hst
  · cases hst
  next hguard =>
  split at hst
  · cases hst
  split at hst
  · cases hst
  cases hst
  have hbuffer : v.buffer = [] := by
    by_contra hb
    exact hguard (.inr (.inr hb))
  refine h.moved _ _ _ _ v.counted (fun _ => ?_) rfl h.processing fun _ => rfl
  rw [unread, hbuffer, append_assoc, take_append_drop, append_nil]

/-- In the states in which a message is parsed, a client looks at it as a
    reply, or is no longer connected. -/
theorem parse_states (hinv : v.Inv) (hprocesses : v.processes = true) :
    awaits v.state = true ∨ v.state = .IDLE_CLIENT ∨ v.state = .PROCESSING_REPLY ∨
      v.state.IS_ALIVE = false := by
  have hp := hinv.place
  unfold Place at hp
  unfold processes at hprocesses
  cases hs : v.state with
  | AWAITING_REPLY | AWAITING_REPLY_MORE | CALLING | COLLECTING => exact .inl rfl
  | IDLE_CLIENT => exact .inr (.inl rfl)
  | PROCESSING_REPLY => exact .inr (.inr (.inl rfl))
  | CALLED =>
    rw [hs] at hp hprocesses
    rcases hp.1 with hf | hf
    · rw [hf] at hprocesses; cases hprocesses
    · rw [hf] at hprocesses; cases hprocesses
  | COLLECTING_REPLY =>
    rw [hs] at hp hprocesses
    obtain ⟨⟨c, hf⟩, _⟩ := hp
    rw [hf] at hprocesses
    cases hprocesses
  | PENDING_DISCONNECT | PENDING_TIMEOUT | PROCESSING_DISCONNECT | PROCESSING_TIMEOUT
  | PROCESSING_FAILURE | DISCONNECTED => exact .inr (.inr (.inr rfl))
  | _ => simp [hs] at hp

/-- What a call has got does not change with the message that is looked at. -/
theorem held_of_awaits (ha : awaits v.state = true) (current : Option (Incoming R)) :
    { v with current := current }.held = v.held := by
  unfold held
  cases hs : v.state with
  | COLLECTING =>
    cases v.frames with
    | nil => rfl
    | cons frame frames => cases frame <;> rfl
  | _ => simp_all [awaits]

theorem Flow.parse (h : v.Flow) (hinv : v.Inv) (hprocesses : v.processes = true)
    (hst : v.varlink_parse_message = some v') : v'.Flow := by
  unfold varlink_parse_message at hst
  split at hst
  · cases hst
  next hguard =>
  have hcurrent : v.current = none := by simpa using fun hc => hguard (.inr hc)
  split at hst
  · cases hst
  next m buffer hbuf =>
  cases hst
  rcases parse_states hinv hprocesses with ha | hs | hs | hd
  · refine h.moved _ _ v.wire v.rest _ (fun _ => ?_) ?_ (fun _ => rfl) fun he => ?_
    · rw [unread, if_pos ha, if_pos ha, hcurrent, hbuf]
      rfl
    · exact held_of_awaits ha _
    · rcases he with he | he
      · rw [he] at ha; cases ha
      · rw [he] at ha; cases ha
  · -- nothing is left for an idle client
    rw [(h.idle hinv hs).1] at hbuf
    cases hbuf
  · have hcur := h.processing hs
    rw [hcurrent] at hcur
    cases hcur
  · exact h.dead rfl rfl rfl hd

theorem continues_eq {reply : Reply R} (hread : read_reply m.message = some reply) :
    m.continues = reply.continues := by
  unfold Incoming.continues
  rw [hread]

/-- What is known about the message that is looked at: it is the next one, and
    it answers the call that has waited longest. -/
structure Next (v : ClientLink R) (m : Incoming R) : Prop where
  peer : v.handed_out ++ v.held ++ (m :: (v.buffer ++ v.wire)) = v.peer
  call : m.call = finals (v.handed_out ++ v.held)
  answered : v.answered = finals (v.handed_out ++ v.held)
  waiting : v.n_pending + v.answered = v.calls.length

theorem Flow.next (h : v.Flow) (hinv : v.Inv) (hs : awaits v.state = true)
    (hcur : v.current = some m) : v.Next m := by
  have ha : v.state.IS_ALIVE = true := by
    cases he : v.state <;> simp_all [awaits, VarlinkState.IS_ALIVE]
  have hinflight : v.inflight = 0 := by
    unfold inflight
    cases he : v.state <;> simp_all [awaits]
  have hpeer := h.matched.complete ha
  rw [unread, if_pos hs, hcur] at hpeer
  refine ⟨hpeer, (h.numbered _ m _ hpeer.symm).1, h.answered ha, ?_⟩
  have hcounter := hinv.counter ha
  rw [hinflight] at hcounter
  exact hcounter

/-- The reply callback gets the reply to the call that has waited longest. -/
theorem Flow.reply (h : v.Flow) (hinv : v.Inv)
    (hs : v.state = .AWAITING_REPLY ∨ v.state = .AWAITING_REPLY_MORE) (hcur : v.current = some m)
    (hstate : w.state = .PROCESSING_REPLY)
    (hdelivered : w.delivered = v.delivered ++ [(m, v.waiting)]) (hcurrent : w.current = v.current)
    (hbuffer : w.buffer = v.buffer) (hwire : w.wire = v.wire) (hpeer : w.peer = v.peer)
    (hcalls : w.calls = v.calls) (hframes : ∃ c, w.frames = [.reply c])
    (hanswered : w.answered = if m.continues = true then v.answered else v.answered + 1) :
    w.Flow := by
  have hs' : awaits v.state = true := by
    rcases hs with hs | hs
    · rw [hs]; rfl
    · rw [hs]; rfl
  obtain ⟨hnext, hcall, hfinals, hwaiting⟩ := h.next hinv hs' hcur
  have hheld : v.held = [] := by
    unfold held
    rcases hs with hs | hs
    · rw [hs]
    · rw [hs]
  have hheld' : w.held = [] := by
    unfold held
    rw [hstate]
  have hunread : w.unread = v.buffer ++ v.wire := by
    unfold unread
    rw [hstate, hbuffer, hwire]
    rfl
  have hout : w.handed_out = v.handed_out ++ [m] := by
    unfold handed_out
    rw [hdelivered]
    simp
  rw [hheld, append_nil] at hnext hcall hfinals
  have hcomplete : w.handed_out ++ w.held ++ w.unread = w.peer := by
    rw [hout, hheld', hunread, hpeer, ← hnext]
    simp
  obtain ⟨c, hframes⟩ := hframes
  refine ⟨⟨?_, fun x hx => ?_, fun _ => hcomplete⟩, ?_, fun _ => ?_, fun _ => ?_, fun _ l hl => ?_,
    fun he => ?_⟩
  · rw [← hcomplete, append_assoc]
    exact prefix_append _ _
  · rw [hdelivered] at hx
    rcases mem_append.mp hx with hx | hx
    · exact h.matched.call x hx
    · obtain rfl := mem_singleton.mp hx
      show m.call = v.calls.length - v.n_pending
      omega
  · rw [hcalls, hpeer]
    exact h.numbered
  · rw [hanswered, hout, hheld', append_nil, finals_append, finals_singleton, hfinals]
    split
    · rfl
    · rfl
  · rw [hcurrent, hcur]
    rfl
  · rw [hframes] at hl
    cases (cons.inj hl).1
  · rw [hstate] at he
    rcases he with he | he <;> cases he

/-- A synchronous call gets the reply. -/
theorem Flow.hold (h : v.Flow) (hinv : v.Inv) (hs : awaits v.state = true)
    (hcur : v.current = some m) (hstate : w.state = .CALLED ∨ w.state = .COLLECTING_REPLY)
    (hheld : w.held = v.held ++ [m]) (hdelivered : w.delivered = v.delivered)
    (hcurrent : w.current = v.current) (hbuffer : w.buffer = v.buffer) (hwire : w.wire = v.wire)
    (hpeer : w.peer = v.peer) (hcalls : w.calls = v.calls) (hframes : w.frames = v.frames)
    (hcont : m.continues = w.current_continues)
    (hanswered : w.answered = if m.continues = true then v.answered else v.answered + 1) :
    w.Flow := by
  have ha : v.state.IS_ALIVE = true := by
    cases he : v.state <;> simp_all [awaits, VarlinkState.IS_ALIVE]
  obtain ⟨hnext, hcall, hfinals, hwaiting⟩ := h.next hinv hs hcur
  have hunread : w.unread = v.buffer ++ v.wire := by
    unfold unread
    rw [hbuffer, hwire]
    rcases hstate with hw | hw
    · rw [hw]; rfl
    · rw [hw]; rfl
  have hout : w.handed_out = v.handed_out := by
    unfold handed_out
    rw [hdelivered]
  refine ⟨⟨?_, ?_, fun _ => ?_⟩, ?_, fun _ => ?_, fun he => ?_, fun _ l hl => ?_,
    fun _ m' hm' => ?_⟩
  · rw [hout, hpeer]
    exact h.matched.order
  · rw [hdelivered]
    exact h.matched.call
  · rw [hout, hheld, hunread, hpeer, ← hnext]
    simp
  · rw [hcalls, hpeer]
    exact h.numbered
  · rw [hanswered, hout, hheld, ← append_assoc, finals_append, finals_singleton, hfinals]
    split
    · rfl
    · rfl
  · rcases hstate with hw | hw
    · rw [hw] at he; cases he
    · rw [hw] at he; cases he
  · exact h.collected ha l (hframes.symm.trans hl)
  · rw [hcurrent, hcur] at hm'
    cases hm'
    exact hcont

theorem Flow.dispatch_reply (h : v.Flow) (hinv : v.Inv) (hs : awaits v.state = true)
    (sanitize : Bool) : (v.varlink_dispatch_reply sanitize).Flow := by
  have hlocal : (v.dispatch_local_error .PROCESSING_FAILURE).Flow := h.dead rfl rfl rfl rfl
  have hp := hinv.place
  unfold Place at hp
  unfold varlink_dispatch_reply
  rw [if_neg (not_not.mpr hs)]
  split
  · exact h
  next m hcur =>
  have hcounted : v.counted = false := hinv.fresh hs (by rw [hcur]; rfl)
  split
  · next hz =>
    cases he : v.state <;> simp_all [awaits] <;> omega
  split
  · exact hlocal
  next reply hread =>
  split
  · exact hlocal
  split
  · exact hlocal
  have hm := continues_eq hread
  have hanswered : (if reply.continues = true ∨ v.counted = true then v.answered
      else v.answered + 1) = if m.continues = true then v.answered else v.answered + 1 := by
    rw [hcounted, hm]
    simp
  dsimp only
  split
  · next hs' =>
    have hframes : v.frames = [] := by
      rcases hs' with hs' | hs'
      · rw [show v.state = _ from hs'] at hp; exact hp.1
      · rw [show v.state = _ from hs'] at hp; exact hp.1
    refine h.reply hinv hs' hcur rfl rfl rfl rfl rfl rfl rfl ⟨reply.continues, ?_⟩ hanswered
    rw [hframes]
  split
  · next hs'' =>
    rw [hs''] at hp
    obtain ⟨⟨c, hframes⟩, _⟩ := hp
    refine h.hold hinv hs hcur (.inr rfl) ?_ rfl rfl rfl rfl rfl rfl rfl hm hanswered
    simp [held, hs'', hframes, hcur]
  · next hs'' =>
    have hcalling : v.state = .CALLING := by
      cases he : v.state <;> simp_all [awaits]
    refine h.hold hinv hs hcur (.inl rfl) ?_ rfl rfl rfl rfl rfl rfl rfl hm hanswered
    simp [held, hcalling, hcur]

/-! ## Section 5: Callbacks and synchronous calls that return -/

/-- Replies are handed out, or a callback is through with one. -/
theorem Flow.handed (h : v.Flow) (ha : v.state.IS_ALIVE = true)
    (hsame : w.handed_out ++ w.held = v.handed_out ++ v.held) (hunread : w.unread = v.unread)
    (hpeer : w.peer = v.peer) (hcalls : w.calls = v.calls) (hanswered : w.answered = v.answered)
    (hcall : ∀ x ∈ w.delivered, x.1.call = x.2)
    (hstate : w.state ≠ .PROCESSING_REPLY ∧ w.state ≠ .CALLED ∧ w.state ≠ .COLLECTING_REPLY)
    (hcollected : ∀ l, w.frames = [.collect l] → ∀ m ∈ l, m.continues = true) : w.Flow := by
  have hcomplete : w.handed_out ++ w.held ++ w.unread = w.peer := by
    rw [hsame, hunread, hpeer]
    exact h.matched.complete ha
  refine ⟨⟨?_, hcall, fun _ => hcomplete⟩, ?_, fun _ => ?_, fun he => absurd he hstate.1,
    fun _ => hcollected, fun he => (he.elim hstate.2.1 hstate.2.2).elim⟩
  · rw [← hcomplete, append_assoc]
    exact prefix_append _ _
  · rw [hcalls, hpeer]
    exact h.numbered
  · rw [hanswered, hsame]
    exact h.answered ha

theorem Flow.close (h : v.Flow) : v.sd_varlink_close.Flow := by
  unfold sd_varlink_close
  split
  · exact h
  · exact h.dead rfl rfl rfl rfl

theorem Flow.callback_returned (h : v.Flow) (hinv : v.Inv) (hst : v.callback_returned = some v') :
    v'.Flow := by
  unfold ClientLink.callback_returned at hst
  split at hst
  · next continues frames hframes =>
    cases hst
    by_cases hs : v.state = .PROCESSING_REPLY
    · have ha : v.state.IS_ALIVE = true := by rw [hs]; rfl
      have hp := hinv.place
      unfold Place at hp
      rw [hs] at hp
      obtain ⟨hf, hpos⟩ := hp
      rw [hframes] at hf
      obtain ⟨_, rfl⟩ := cons.inj hf
      have hheld : v.held = [] := by
        unfold held
        rw [hs]
      have hunread : v.unread = v.buffer ++ v.wire := by
        unfold unread
        rw [hs]
        rfl
      -- whichever state comes next, nothing is looked at
      have hnext : ∀ (state : VarlinkState) (n : Nat), (state = .AWAITING_REPLY_MORE ∨
          state = .IDLE_CLIENT ∨ state = .AWAITING_REPLY) →
          { v with frames := [], current := none, current_continues := false, counted := false,
                   n_pending := n, state := state }.Flow := by
        intro state n hstate
        refine h.handed ha ?_ ?_ rfl rfl rfl h.matched.call ?_ nofun
        · rw [hheld]
          rcases hstate with rfl | rfl | rfl
          · rfl
          · rfl
          · rfl
        · rw [hunread]
          rcases hstate with rfl | rfl | rfl
          · rfl
          · rfl
          · rfl
        · rcases hstate with rfl | rfl | rfl
          · exact ⟨nofun, nofun, nofun⟩
          · exact ⟨nofun, nofun, nofun⟩
          · exact ⟨nofun, nofun, nofun⟩
      unfold reply_callback_returned
      dsimp only
      split
      · next hne => exact absurd hs hne
      split
      · next hz => exact absurd hz (Nat.ne_of_gt hpos)
      cases continues with
      | true => exact hnext _ _ (.inl rfl)
      | false =>
        refine hnext _ _ (.inr ?_)
        by_cases hz : v.n_pending - 1 = 0
        · simp [varlink_clear_current, hz]
        · simp [varlink_clear_current, hz]
    · have hw : ({ v with frames := frames }.reply_callback_returned continues) =
          { v with frames := frames }.varlink_clear_current := by
        exact if_pos hs
      rw [hw]
      -- the connection is closed, or about to be
      refine h.dead rfl rfl rfl ?_
      have hp := hinv.place
      unfold Place at hp
      show v.state.IS_ALIVE = false
      cases he : v.state <;> simp_all [VarlinkState.IS_ALIVE]
  · next frames hframes =>
    cases hst
    unfold sd_varlink_close
    split
    · next hs => exact h.dead rfl rfl rfl (by rw [show v.state = _ from hs]; rfl)
    · exact h.dead rfl rfl rfl rfl
  · cases hst

/-- The reply to a synchronous call answers that call. -/
theorem Flow.called (h : v.Flow) (hinv : v.Inv) (hs : v.state = .CALLED) (hcur : v.current = some m) :
    m.call = v.waiting := by
  have ha : v.state.IS_ALIVE = true := by rw [hs]; rfl
  have hheld : v.held = [m] := by simp [held, hs, hcur]
  obtain ⟨hn, _, hcounter⟩ := hinv.called hs
  have hlast : m.continues = false := by
    have hp := hinv.place
    unfold Place at hp
    rw [hs] at hp
    rw [h.dispatched (.inl hs) m hcur]
    exact hp.2.2.2
  have hpeer := h.matched.complete ha
  have hanswered := h.answered ha
  rw [hheld] at hpeer hanswered
  have hcall := (h.numbered v.handed_out m v.unread (by rw [← hpeer]; simp)).1
  rw [finals_append, finals_singleton, hlast] at hanswered
  simp only [Bool.false_eq_true, if_false] at hanswered
  show m.call = v.calls.length - v.n_pending
  omega

theorem idle_apart (hs : w.state = .IDLE_CLIENT) :
    w.state ≠ .PROCESSING_REPLY ∧ w.state ≠ .CALLED ∧ w.state ≠ .COLLECTING_REPLY := by
  rw [hs]
  exact ⟨fun h => (by cases h), fun h => (by cases h), fun h => (by cases h)⟩

theorem none_collected (hw : w.frames = []) :
    ∀ l, w.frames = [.collect l] → ∀ m ∈ l, m.continues = true := by
  rw [hw]
  intro l h
  cases h

theorem Flow.call_returned (h : v.Flow) (hinv : v.Inv) (hs : v.state = .CALLED) :
    { v with frames := [] }.call_returned.Flow := by
  have ha : v.state.IS_ALIVE = true := by rw [hs]; rfl
  obtain ⟨hn, ⟨m, hcur⟩, _⟩ := hinv.called hs
  have hcall := h.called hinv hs hcur
  unfold ClientLink.call_returned
  simp only [hs, hcur, gone, Bool.false_eq_true, ne_eq, not_true_eq_false, if_false, finish, hand_out,
    hn]
  refine h.handed ha ?_ ?_ rfl rfl rfl (fun x hx => ?_) (idle_apart rfl) (none_collected rfl)
  · simp [held, handed_out, hs, hcur]
  · simp [unread, hs, awaits]
  · rcases mem_append.mp hx with hx | hx
    · exact h.matched.call x hx
    · obtain rfl := mem_singleton.mp hx
      exact hcall.trans (by simp [waiting, hn])

theorem Flow.upgrade_returned (h : v.Flow) (hinv : v.Inv) (hframes : v.frames = [.upgrade])
    (hs : v.state = .CALLED) (ok : Bool) : ({ v with frames := [] }.upgrade_returned ok).Flow := by
  have ha : v.state.IS_ALIVE = true := by rw [hs]; rfl
  obtain ⟨hn, ⟨m, hcur⟩, _⟩ := hinv.called hs
  have hcall := h.called hinv hs hcur
  obtain ⟨_, _, hinput⟩ := hinv.upgrade (.inr hs) hframes
  obtain ⟨hbuffer, hrest⟩ := hinput (by rw [hcur]; rfl)
  have hmem : ∀ x ∈ v.delivered ++ [(m, v.waiting)], x.1.call = x.2 := by
    intro x hx
    rcases mem_append.mp hx with hx | hx
    · exact h.matched.call x hx
    · obtain rfl := mem_singleton.mp hx
      exact hcall
  unfold ClientLink.upgrade_returned
  simp only [hs, hcur, hbuffer, hrest, gone, Bool.false_eq_true, ne_eq, not_true_eq_false, or_self,
    if_false, finish, hand_out, hn]
  split
  · refine h.handed ha ?_ ?_ rfl rfl rfl (fun x hx => hmem x ?_) (idle_apart rfl) (none_collected rfl)
    · simp [held, handed_out, hs, hcur]
    · simp [unread, hs, awaits, hbuffer]
    · simpa [waiting, hn] using hx
  split
  · refine h.handed ha ?_ ?_ rfl rfl rfl (fun x hx => hmem x ?_)
      ⟨fun h => (by cases h), fun h => (by cases h), fun h => (by cases h)⟩ (none_collected rfl)
    · simp [held, handed_out, hs, hcur]
    · simp [unread, hs, awaits, hbuffer]
    · simpa [waiting, hn] using hx
  · -- the connection is not handed over, nor is the reply
    exact h.dead rfl rfl rfl rfl

variable {collected : List (Incoming R)}

/-- Replies that are not the last one answer the same call as the last. -/
theorem Flow.collected_call (h : v.Flow) (hinv : v.Inv) (hs : v.state = .COLLECTING_REPLY)
    (hframes : v.frames = [.collect collected]) (hcur : v.current = some m) :
    v.held = collected ++ [m] ∧ (m.continues = false → ∀ x ∈ collected ++ [m], x.call = v.waiting) := by
  have ha : v.state.IS_ALIVE = true := by rw [hs]; rfl
  have hheld : v.held = collected ++ [m] := by simp [held, hs, hframes, hcur]
  refine ⟨hheld, fun hlast x hx => ?_⟩
  have hcounter := hinv.counter ha
  have hanswered := h.answered ha
  have hpeer := h.matched.complete ha
  have hcont := h.dispatched (.inr hs) m hcur
  have hall := h.collected ha collected hframes
  rw [hheld] at hanswered hpeer
  unfold inflight at hcounter
  rw [hs, ← hcont, hlast] at hcounter
  simp only [Bool.false_eq_true, if_false] at hcounter
  rw [finals_append, finals_append, finals_eq_zero hall, finals_singleton, hlast] at hanswered
  simp only [Bool.false_eq_true, if_false] at hanswered
  -- what comes before it in the collection does not answer the call
  have hsplit : ∃ l1 l2, collected ++ [m] = l1 ++ x :: l2 ∧ finals l1 = 0 := by
    rcases mem_append.mp hx with hx | hx
    · obtain ⟨l1, l2, rfl⟩ := append_of_mem hx
      exact ⟨l1, l2 ++ [m], by simp,
        finals_eq_zero fun y hy => hall y (mem_append.mpr (.inl hy))⟩
    · obtain rfl := mem_singleton.mp hx
      exact ⟨collected, [], rfl, finals_eq_zero hall⟩
  obtain ⟨l1, l2, heq, hzero⟩ := hsplit
  have hcall := (h.numbered (v.handed_out ++ l1) x (l2 ++ v.unread) (by
    rw [← hpeer, heq]
    simp)).1
  rw [finals_append] at hcall
  show x.call = v.calls.length - v.n_pending
  omega

theorem Flow.collect_turn (h : v.Flow) (hinv : v.Inv) (hframes : v.frames = [.collect collected])
    (hs : v.state = .COLLECTING_REPLY) {ok : Bool} (hok : v.Matching (.synchronous_return ok)) :
    ({ v with frames := [] }.collect_turn ok collected).Flow := by
  have ha : v.state.IS_ALIVE = true := by rw [hs]; rfl
  have hp := hinv.place
  unfold Place at hp
  rw [hs] at hp
  obtain ⟨_, hn, m, hcur, herror⟩ := hp
  obtain ⟨hheld, hcall⟩ := h.collected_call hinv hs hframes hcur
  have hcont := h.dispatched (.inr hs) m hcur
  have hmatching := hok hs collected [] m hframes hcur
  have hunread : v.unread = v.buffer ++ v.wire := by simp [unread, hs, awaits]
  unfold ClientLink.collect_turn
  simp only [hs, hcur, gone, ne_eq, not_true_eq_false, if_false]
  -- what is handed out when the call returns
  have hreturn : m.continues = false → ∀ l, l = collected ++ [m] → ∀ w : ClientLink R,
      w.state = .IDLE_CLIENT → w.frames = [] → w.buffer = v.buffer → w.wire = v.wire →
      w.delivered = v.delivered ++ l.map (fun x => (x, v.waiting)) → w.peer = v.peer →
      w.calls = v.calls → w.answered = v.answered → w.Flow := by
    intro hlast l hl w hw hwf hwb hww hwd hwp hwc hwa
    refine h.handed ha ?_ ?_ hwp hwc hwa (fun x hx => ?_) ?_ ?_
    · rw [hheld, handed_out, hwd, hl]
      simp [held, hw, handed_out, Function.comp_def]
    · rw [hunread, unread, hw, hwb, hww]
      rfl
    · rw [hwd] at hx
      rcases mem_append.mp hx with hx | hx
      · exact h.matched.call x hx
      · obtain ⟨y, hy, rfl⟩ := mem_map.mp hx
        exact hcall hlast y (hl ▸ hy)
    · exact idle_apart hw
    · exact none_collected hwf
  cases hcc : v.current_continues with
  | true =>
    have hnone := herror hcc
    rw [hnone] at hmatching ⊢
    obtain ⟨rfl, hroom⟩ := hmatching
    simp only [Option.isSome_none, Bool.false_eq_true, if_false, if_true,
      if_neg (Nat.not_le.mpr hroom), not_true_eq_false]
    refine h.handed ha ?_ ?_ rfl rfl rfl h.matched.call
      ⟨fun h => (by cases h), fun h => (by cases h), fun h => (by cases h)⟩ fun l hl x hx => ?_
    · rw [hheld]
      rfl
    · rw [hunread]
      rfl
    · injection (cons.inj hl).1 with hl
      rw [← hl] at hx
      rcases mem_append.mp hx with hx | hx
      · exact h.collected ha collected hframes x hx
      · obtain rfl := mem_singleton.mp hx
        rw [hcont, hcc]
  | false =>
    have hlast : m.continues = false := by rw [hcont, hcc]
    simp only [Bool.false_eq_true, if_false, finish, hn, ne_eq, not_true_eq_false]
    split
    · next he =>
      rw [if_pos he] at hmatching
      exact hreturn hlast [m] (by rw [hmatching]; rfl) _ rfl rfl rfl rfl
        (by simp [hand_out, waiting, hn]) rfl rfl rfl
    next he =>
    rw [if_neg he] at hmatching
    obtain ⟨rfl, hroom⟩ := hmatching
    rw [if_neg (Nat.not_le.mpr hroom), if_neg (by simp)]
    exact hreturn hlast _ rfl _ rfl rfl rfl rfl (by simp [hand_out_all, waiting, hn]) rfl rfl rfl

/-! ## Section 6: Runs -/

/-- The condition on steps. -/
def InOrder (v : ClientLink R) (label : ClientLabel R) : Prop :=
  v.Answering label ∧ v.Orderly label ∧ v.Matching label

theorem Flow.synchronous_returned (h : v.Flow) (hinv : v.Inv) {ok : Bool}
    (hok : v.Matching (.synchronous_return ok)) (hst : v.synchronous_returned ok = some v') :
    v'.Flow := by
  have hdead : ∀ {w : ClientLink R}, gone v.state = true → w.delivered = v.delivered →
      w.peer = v.peer → w.calls = v.calls → w.state = v.state → w.Flow := by
    intro w hgone hd hp hc hs
    refine h.dead hd hp hc ?_
    cases he : v.state <;> simp_all [gone, VarlinkState.IS_ALIVE]
  unfold ClientLink.synchronous_returned at hst
  split at hst
  · cases hst
  next hs =>
  split at hst
  · next frames hframes =>
    cases hst
    rcases hinv.synchronous_top hframes rfl hs with hgone | ⟨rfl, ⟨_, hcalled⟩ | ⟨⟨c, hf⟩, _⟩⟩
    · have hw : { v with frames := frames }.call_returned = { v with frames := frames } :=
        if_pos hgone
      rw [hw]
      exact hdead hgone rfl rfl rfl rfl
    · exact h.call_returned hinv hcalled
    · cases hf
  · next frames hframes =>
    cases hst
    rcases hinv.synchronous_top hframes rfl hs with hgone | ⟨rfl, ⟨_, hcalled⟩ | ⟨⟨c, hf⟩, _⟩⟩
    · have hw : { v with frames := frames }.upgrade_returned ok =
          { v with frames := frames, bounded := false } := if_pos hgone
      rw [hw]
      exact hdead hgone rfl rfl rfl rfl
    · exact h.upgrade_returned hinv hframes hcalled ok
    · cases hf
  · next collected frames hframes =>
    cases hst
    rcases hinv.synchronous_top hframes rfl hs with hgone | ⟨rfl, ⟨hf | hf, _⟩ | ⟨_, hreply⟩⟩
    · have hw : { v with frames := frames }.collect_turn ok collected =
          { v with frames := frames } := if_pos hgone
      rw [hw]
      exact hdead hgone rfl rfl rfl rfl
    · cases hf
    · cases hf
    · exact h.collect_turn hinv hframes hreply hok
  · cases hst

/-- One step. -/
theorem Flow.step (h : v.Flow) (hinv : v.Inv) {label : ClientLabel R} (hok : v.InOrder label)
    (hst : v.step label = some v') : v'.Flow := by
  obtain ⟨hanswering, horderly, hok⟩ := hok
  unfold ClientLink.step at hst
  rw [if_neg (by rw [hinv.crashed]; nofun)] at hst
  cases label with
  | peer m =>
    cases hst
    exact h.peer hanswering
  | read n rest =>
    dsimp only at hst
    split at hst
    · exact h.read hst
    · cases hst
  | parse =>
    dsimp only at hst
    split at hst
    · next hprocesses => exact h.parse hinv hprocesses hst
    · cases hst
  | dispatch_reply sanitize =>
    dsimp only at hst
    split at hst
    · next hguard =>
      cases hst
      exact h.dispatch_reply hinv hguard.2.1 sanitize
    · cases hst
  | callback_return => exact h.callback_returned hinv hst
  | test_disconnect =>
    dsimp only at hst
    split at hst
    · cases hst
      exact h.dead rfl rfl rfl rfl
    · cases hst
  | dispatch_disconnect =>
    dsimp only at hst
    split at hst
    · cases hst
      exact h.dead rfl rfl rfl rfl
    · cases hst
  | test_timeout =>
    dsimp only at hst
    split at hst
    · cases hst
      exact h.dead rfl rfl rfl rfl
    · cases hst
  | dispatch_timeout =>
    dsimp only at hst
    split at hst
    · cases hst
      exact h.dead rfl rfl rfl rfl
    · cases hst
  | process_failed =>
    dsimp only at hst
    split at hst
    · cases hst
    split at hst
    · cases hst
      exact h.dead rfl rfl rfl rfl
    · cases hst
      exact h.close
  | close =>
    dsimp only at hst
    split at hst
    · cases hst
      exact h.close
    · cases hst
  | send =>
    dsimp only at hst
    split at hst
    · cases hst
      exact h
    · cases hst
  | invoke sent =>
    dsimp only at hst
    split at hst
    · cases hst
      exact h.invoke hinv sent hok
    · cases hst
  | observe sent =>
    dsimp only at hst
    split at hst
    · cases hst
      exact h.observe hinv sent hok
    · cases hst
  | call sent =>
    dsimp only at hst
    split at hst
    · cases hst
      exact h.call_internal hinv sent (.inl rfl)
    · cases hst
  | call_and_upgrade sent =>
    dsimp only at hst
    split at hst
    · next hcallable =>
      cases hst
      exact h.call_and_upgrade hinv sent (hinv.callable hcallable)
    · cases hst
  | collect sent =>
    dsimp only at hst
    split at hst
    · cases hst
      exact h.collect hinv sent
    · cases hst
  | synchronous_return ok => exact h.synchronous_returned hinv hok hst
  | wait_failed => exact horderly.elim

/-- **Each reply goes to its call**, in every run in which the server answers
    the calls in order and the steps meet the condition. -/
theorem replies_matched (hv : Reachable (calling.restrict InOrder) v) : v.Matched := by
  have hflow : ∀ v : ClientLink R, Reachable (calling.restrict InOrder) v → v.Inv ∧ v.Flow := by
    intro v hv
    induction hv with
    | init hi =>
      rw [show _ = connected from hi]
      exact ⟨.connected, .connected⟩
    | step _ hst ih => exact ⟨(ih.1.step hst.1.2.1 hst.2).1, ih.2.step ih.1 hst.1 hst.2⟩
  exact (hflow v hv).2.matched

/-- A reply without anything in it. -/
def reply_to (call : Nat) : Incoming Float := ⟨.object [], call⟩

/-- A synchronous call, and its reply. -/
theorem replies_matched_one :
    ∃ v : ClientLink Float, v.delivered = [(reply_to 0, 0)] ∧ v.state = .IDLE_CLIENT ∧
      v.Matched := by
  have hnext : ∀ {v v' : ClientLink Float} (label : ClientLabel Float),
      Reachable (calling.restrict InOrder) v → v.InOrder label → v.step label = some v' →
      Reachable (calling.restrict InOrder) v' := fun _ h hok hst => h.step ⟨hok, hst⟩
  have h1 := hnext (.call true) (.init rfl) ⟨trivial, trivial, trivial⟩ rfl
  have h2 := hnext (.peer (reply_to 0)) h1 ⟨⟨rfl, Nat.zero_lt_one⟩, trivial, trivial⟩ rfl
  have h3 := hnext (.read 1 false) h2 ⟨trivial, trivial, trivial⟩ rfl
  have h4 := hnext .parse h3 ⟨trivial, trivial, trivial⟩ rfl
  have h5 := hnext (.dispatch_reply true) h4 ⟨trivial, trivial, trivial⟩ rfl
  have h6 := hnext (.synchronous_return true) h5 ⟨trivial, nofun, nofun⟩ rfl
  exact ⟨_, rfl, rfl, replies_matched h6⟩

/-- The reply to a synchronous call is still there when an asynchronous call is
    made, and is taken for the reply to that one too. -/
theorem pinned_reply_dispatched :
    ¬ ∀ v : ClientLink Float, Reachable (calling.restrict Answering) v → v.Matched := by
  intro h
  have hnext : ∀ {v v' : ClientLink Float} (label : ClientLabel Float),
      Reachable (calling.restrict Answering) v → v.Answering label → v.step label = some v' →
      Reachable (calling.restrict Answering) v' := fun _ h hok hst => h.step ⟨hok, hst⟩
  have h1 := hnext (.call true) (.init rfl) trivial rfl
  have h2 := hnext (.peer (reply_to 0)) h1 ⟨rfl, Nat.zero_lt_one⟩ rfl
  have h3 := hnext (.read 1 false) h2 trivial rfl
  have h4 := hnext .parse h3 trivial rfl
  have h5 := hnext (.dispatch_reply true) h4 trivial rfl
  have h6 := hnext (.synchronous_return true) h5 trivial rfl
  have h7 := hnext (.invoke true) h6 trivial rfl
  have h8 := hnext (.dispatch_reply true) h7 trivial rfl
  -- handed out again, for the second call
  cases (h _ h8).call (reply_to 0, 1) (.tail _ (.head _))

end ClientLink

end SdCompat.Varlink
