import SdCompat.SdBus.AuthServer

/-! # The stream of the client (bus-socket.c)

    What a server answers depends on the bytes that the client sends, and not
    on the pieces in which they are read:

    * `exchange`: the answers to a stream, as a function of the stream;
    * `auth_server`: a server that reads this stream in any pieces, and writes
      its answers in any pieces;
    * `auth_server_outcome`: where nothing more happens, the server has done
      what the function says.

    System calls and allocations succeed here, or are tried again.
-/

open Transition

namespace SdCompat.Auth

open List Option

/-! ## Section 1: Answers to a stream -/

/-- What comes of a stream: the answers, whether there was a `BEGIN`, and what
    is left. -/
structure Exchange where
  bus : SdBus
  out : List UInt8
  begun : Bool
  rest : List UInt8

/-- The answers of a server to a stream. -/
def exchange (c : SdBus) (stream : List UInt8) : Exchange :=
  match _h : memmem_safe stream crlf with
  | none => ⟨c, [], false, stream⟩
  | some i =>
    match handle_line true c (stream.take i) with
    | .begin => ⟨c, [], true, stream.drop (i + 2)⟩
    | .answer c' a =>
      let x := exchange c' (stream.drop (i + 2))
      { x with out := a.text c.server_id ++ x.out }
termination_by stream.length
decreasing_by
  rcases memmem_safe_le _h with hle | hnil
  · rw [List.length_drop]
    change i + 2 ≤ stream.length at hle
    omega
  · cases hnil

section exchange
variable {c c' : SdBus} {p q : List UInt8} {i : Nat} {a : Answer}

theorem crlf_le (h : memmem_safe p crlf = some i) : i + 2 ≤ p.length := by
  rcases memmem_safe_le h with hle | hnil
  · exact hle
  · cases hnil

theorem exchange_none (h : memmem_safe p crlf = none) : exchange c p = ⟨c, [], false, p⟩ := by
  rw [exchange]
  split
  · rfl
  · next hi =>
    rw [h] at hi
    cases hi

theorem exchange_begin (h : memmem_safe p crlf = some i)
    (hl : handle_line true c (p.take i) = .begin) :
    exchange c p = ⟨c, [], true, p.drop (i + 2)⟩ := by
  rw [exchange]
  split
  · next hi =>
    rw [h] at hi
    cases hi
  · next j hj =>
    obtain rfl := some.inj (h.symm.trans hj)
    rw [hl]

theorem exchange_answer (h : memmem_safe p crlf = some i)
    (hl : handle_line true c (p.take i) = .answer c' a) :
    exchange c p = { exchange c' (p.drop (i + 2)) with
      out := a.text c.server_id ++ (exchange c' (p.drop (i + 2))).out } := by
  rw [exchange]
  split
  · next hi =>
    rw [h] at hi
    cases hi
  · next j hj =>
    obtain rfl := some.inj (h.symm.trans hj)
    rw [hl]

/-- **The answers do not depend on where the stream is cut**: they are those to
    the first part, and then those to what is left of it with the second. -/
theorem exchange_append (c : SdBus) (p q : List UInt8) :
    exchange c (p ++ q) =
      if (exchange c p).begun then { exchange c p with rest := (exchange c p).rest ++ q }
      else { exchange (exchange c p).bus ((exchange c p).rest ++ q) with
        out := (exchange c p).out ++ (exchange (exchange c p).bus ((exchange c p).rest ++ q)).out } := by
  induction hn : p.length using Nat.strongRecOn generalizing c p with
  | ind n ih =>
  cases hm : memmem_safe p crlf with
  | none =>
    rw [exchange_none hm]
    simp
  | some i =>
    have hle := crlf_le hm
    have hm' : memmem_safe (p ++ q) crlf = some i := memmem_safe_append hm
    have htake : (p ++ q).take i = p.take i := take_append_of_le_length (by omega)
    have hdrop : (p ++ q).drop (i + 2) = p.drop (i + 2) ++ q := drop_append_of_le_length hle
    cases hl : handle_line true c (p.take i) with
    | begin =>
      have hl' : handle_line true c ((p ++ q).take i) = .begin := by rw [htake, hl]
      rw [exchange_begin hm hl, exchange_begin hm' hl', hdrop]
      simp
    | answer c' a =>
      have hl' : handle_line true c ((p ++ q).take i) = .answer c' a := by rw [htake, hl]
      have hrest := ih (p.drop (i + 2)).length (by rw [length_drop]; omega) c'
        (p.drop (i + 2)) rfl
      rw [exchange_answer hm hl, exchange_answer hm' hl', hdrop, hrest]
      split
      · rfl
      · simp only [append_assoc]

end exchange

/-! ## Section 2: The queue -/

/-- What is queued is in the first vector. -/
def HasQueue (b : SdBus) (h : List UInt8) : Prop :=
  b.auth_iovec = [h, [], []] ∧ (b.auth_index = 0 ∨ b.auth_index = 1 ∧ h = [])

/-- What is queued. -/
def queued (b : SdBus) : List UInt8 := (b.auth_iovec.drop b.auth_index).flatten

section queue
variable {b : SdBus} {h t : List UInt8}

theorem HasQueue.queued (hq : HasQueue b h) : queued b = h := by
  obtain ⟨hiov, hi | ⟨hi, rfl⟩⟩ := hq
  · simp [Auth.queued, hiov, hi]
  · simp [Auth.queued, hiov, hi]

theorem HasQueue.needs_write (hq : HasQueue b h) :
    bus_socket_auth_needs_write b = true ↔ h ≠ [] := by
  unfold bus_socket_auth_needs_write
  obtain ⟨hiov, hi | ⟨hi, rfl⟩⟩ := hq
  · rw [hiov, hi]
    simp [length_pos_iff]
  · rw [hiov, hi]
    simp

/-- The bus with another queue. -/
def with_queue (b : SdBus) (h : List UInt8) : SdBus :=
  { b with auth_iovec := [h, [], []], auth_index := 0 }

theorem with_queue_has (b : SdBus) (h : List UInt8) : HasQueue (with_queue b h) h :=
  ⟨rfl, .inl rfl⟩

theorem HasQueue.write (hq : HasQueue b h) (t : List UInt8) :
    bus_socket_auth_write true b t = (.ok 0, with_queue b (h ++ t)) := by
  obtain ⟨hiov, hi⟩ := hq
  have hindex : ¬ 1 < b.auth_index := by
    rcases hi with hi | ⟨hi, _⟩
    · omega
    · omega
  unfold bus_socket_auth_write with_queue
  rw [if_neg hindex, hiov]
  rfl

theorem iovec_advance_first (hne : h ≠ []) {k : Nat} (hk : k ≤ h.length) :
    iovec_advance [h, [], []] k =
      if k = h.length then ([[], [], []], 1) else ([h.drop k, [], []], 0) := by
  have hpos := length_pos_iff.mpr hne
  cases k with
  | zero =>
    rw [if_neg (by omega)]
    rfl
  | succ k =>
    have hstep : iovec_advance [h, [], []] (k + 1) =
        if k + 1 < h.length then ([h.drop (k + 1), [], []], 0)
        else
          ([] :: (iovec_advance [[], []] (k + 1 - h.length)).1,
            (iovec_advance [[], []] (k + 1 - h.length)).2 + 1) := rfl
    rw [hstep]
    by_cases hall : k + 1 = h.length
    · rw [if_neg (by omega), if_pos hall, hall, Nat.sub_self]
      rfl
    · rw [if_pos (by omega), if_neg hall]

/-- Writing changes the queue only. -/
theorem HasQueue.advance (hq : HasQueue b h) (hne : h ≠ []) {k : Nat} (hk : k ≤ h.length) :
    ∃ iov i, advance_auth_iovec b k = { b with auth_iovec := iov, auth_index := i } ∧
      HasQueue (advance_auth_iovec b k) (h.drop k) := by
  obtain ⟨hiov, hi | ⟨_, hnil⟩⟩ := hq
  · have hadvance : iovec_advance (b.auth_iovec.drop b.auth_index) k =
        if k = h.length then ([[], [], []], 1) else ([h.drop k, [], []], 0) := by
      rw [hiov, hi, drop_zero, iovec_advance_first hne hk]
    unfold HasQueue advance_auth_iovec
    rw [hadvance, hi]
    by_cases hall : k = h.length
    · rw [hall]
      simp
    · rw [if_neg hall]
      simp
  · exact absurd hnil hne

end queue

/-! ## Section 3: The verifier -/

/-- What the answers depend on: the bus without its buffers. -/
def core (b : SdBus) : SdBus :=
  { b with rbuffer := [], auth_index := 0, auth_iovec := [], auth_rbegin := 0 }

theorem handle_line_core (mem : Bool) (b : SdBus) (line : List UInt8) :
    handle_line mem (core b) line =
      match handle_line mem b line with
      | .answer b' a => .answer (core b') a
      | .begin => .begin := by
  have hanonymous : ∀ p, verify_anonymous_token mem (core b) p = verify_anonymous_token mem b p :=
    fun _ => rfl
  have hexternal : ∀ p, verify_external_token mem (core b) p = verify_external_token mem b p :=
    fun _ => rfl
  have hdata : ∀ p, verify_data_token mem (core b) p = verify_data_token mem b p := fun _ => rfl
  have hauth : (core b).auth = b.auth := rfl
  have haccept : (core b).accept_fd = b.accept_fd := rfl
  unfold handle_line
  simp only [hanonymous, hexternal, hdata, hauth, haccept]
  split_ifs <;> rfl

/-- What follows the lines that have been handled. -/
def rest_of (b : SdBus) : List UInt8 := b.rbuffer.drop (max 1 b.auth_rbegin)

/-- The server is still in the phase, and has answered all lines but a `BEGIN`
    that has to wait. -/
structure Waits (b b' : SdBus) (h : List UInt8) (x : Exchange) : Prop where
  state : b'.state = .authenticating
  client : b'.bus_client = b.bus_client
  rbuffer : b'.rbuffer = b.rbuffer
  core : core b' = x.bus
  queue : HasQueue b' (h ++ x.out)
  rbegin : b'.auth_rbegin ≤ b'.rbuffer.length
  rest : exchange x.bus (rest_of b') = ⟨x.bus, [], x.begun, x.rest⟩

/-- The server has left the phase. -/
structure Starts (b b' : SdBus) (x : Exchange) : Prop where
  state : b'.state = if b.bus_client then .hello else .running
  auth : b'.auth = x.bus.auth
  can_fds : b'.can_fds = x.bus.can_fds
  rbuffer : b'.rbuffer = x.rest
  queue : HasQueue b' []

/-- What the verifier does where the answers are these: `BEGIN` has an effect
    once nothing is queued. -/
def Verified (b : SdBus) (h : List UInt8) (x : Exchange) (processed : Bool)
    (r : Outcome Nat) (b' : SdBus) : Prop :=
  (x.begun = true ∧ h ++ x.out = [] ∧ r = .ok 1 ∧ Starts b b' x) ∨
  ((x.begun = true → h ++ x.out ≠ []) ∧ Waits b b' h x ∧
    (r = .ok 1 ∨ r = .ok 0 ∧ x.begun = false) ∧
    (x.begun = false → x.out = [] → processed = false → r = .ok 0))

section verify
variable {b : SdBus} {h : List UInt8}

theorem answer_ne_nil (id : List UInt8) (a : Answer) : a.text id ≠ [] := by
  cases a <;> simp [Answer.text, ascii]

/-- After a line the rest is as it would be without it. -/
theorem Verified.answered {b₂ : SdBus} {t : List UInt8} {x : Exchange} {processed : Bool}
    {r : Outcome Nat} {b' : SdBus} (hv : Verified b₂ (h ++ t) x true r b') (ht : t ≠ [])
    (hbuffer : b₂.rbuffer = b.rbuffer) (hclient : b₂.bus_client = b.bus_client) :
    Verified b h { x with out := t ++ x.out } processed r b' := by
  rcases hv with ⟨hbegun, hnil, hr, hs⟩ | ⟨hne, hw, hr, hzero⟩
  · left
    refine ⟨hbegun, by rw [← append_assoc]; exact hnil, hr, ?_⟩
    exact ⟨by rw [← hclient]; exact hs.state, hs.auth, hs.can_fds, hs.rbuffer, hs.queue⟩
  · right
    refine ⟨?_, ?_, hr, ?_⟩
    · intro hbegun
      rw [← append_assoc]
      exact hne hbegun
    · refine ⟨hw.state, hw.client.trans hclient, hw.rbuffer.trans hbuffer, hw.core, ?_, hw.rbegin,
        hw.rest⟩
      rw [← append_assoc]
      exact hw.queue
    · intro _ hnil
      exact absurd (append_eq_nil_iff.mp hnil).1 ht

/-- Where there is no line, nothing is done. -/
theorem Verified.none (processed : Bool) (hst : b.state = .authenticating) (hq : HasQueue b h)
    (hle : b.auth_rbegin ≤ b.rbuffer.length) (hm : memmem_safe (rest_of b) crlf = none) :
    Verified b h (exchange (core b) (rest_of b)) processed (.ok processed.toNat) b := by
  have hx := exchange_none (c := core b) hm
  right
  rw [hx]
  refine ⟨by simp, ⟨hst, rfl, rfl, rfl, by simpa using hq, hle, hx⟩, ?_, ?_⟩
  · cases processed with
    | false => exact .inr ⟨rfl, rfl⟩
    | true => exact .inl rfl
  · rintro _ _ rfl
    rfl

/-- The phase ends. -/
theorem start_running (hq : HasQueue b []) (rest : List UInt8) :
    (bus_start_running none { b with rbuffer := rest }).1 = .ok 1 ∧
      Starts b (bus_start_running none { b with rbuffer := rest }).2 ⟨core b, [], true, rest⟩ := by
  unfold bus_start_running
  by_cases hclient : b.bus_client = true
  · rw [if_pos hclient]
    exact ⟨rfl, by rw [if_pos hclient], rfl, rfl, rfl, hq⟩
  · rw [if_neg hclient]
    exact ⟨rfl, by rw [if_neg hclient], rfl, rfl, rfl, hq⟩

section line
variable {line : List UInt8} (fuel n : Nat) (processed : Bool)

theorem loop_none (hn : next_line b = none) :
    verify_server_loop no_failure (fuel + 1) n b processed = (.ok processed.toNat, b, []) := by
  unfold verify_server_loop
  rw [hn]

theorem loop_begin (hn : next_line b = some line) (hl : handle_line true b line = .begin) :
    verify_server_loop no_failure (fuel + 1) n b processed =
      if bus_socket_auth_needs_write b then (.ok 1, b, [])
      else
        let r := bus_start_running none
          { b with rbuffer := b.rbuffer.drop (b.auth_rbegin + line.length + 2) }
        (r.1, r.2, [.begun]) := by
  have hmem : ∀ j, no_failure.mem j = true := fun _ => rfl
  have hsignal : no_failure.signal = none := rfl
  unfold verify_server_loop verify_server_line
  rw [hn]
  simp only [hmem, hsignal, hl]
  by_cases hw : bus_socket_auth_needs_write b = true
  · simp only [if_pos hw]
  · simp only [if_neg hw]

theorem loop_answer {b₁ : SdBus} {a : Answer} (hn : next_line b = some line)
    (hl : handle_line true b line = .answer b₁ a) (hq : HasQueue b₁ h) :
    let r := verify_server_loop no_failure fuel (n + 1)
      { with_queue b₁ (h ++ a.text b₁.server_id) with
        auth_rbegin := b.auth_rbegin + line.length + 2 } true
    (verify_server_loop no_failure (fuel + 1) n b processed).1 = r.1 ∧
      (verify_server_loop no_failure (fuel + 1) n b processed).2.1 = r.2.1 := by
  intro r
  have hmem : ∀ j, no_failure.mem j = true := fun _ => rfl
  unfold verify_server_loop verify_server_line
  rw [hn]
  simp only [hmem, hl, hq.write]
  exact ⟨rfl, rfl⟩

end line

theorem verify_loop (fuel n : Nat) (processed : Bool) (hst : b.state = .authenticating)
    (hq : HasQueue b h) (hbegin : 1 ≤ b.auth_rbegin) (hle : b.auth_rbegin ≤ b.rbuffer.length)
    (hfuel : (rest_of b).length ≤ fuel) : Verified b h (exchange (core b) (rest_of b)) processed
      (verify_server_loop no_failure fuel n b processed).1
      (verify_server_loop no_failure fuel n b processed).2.1 := by
  induction fuel generalizing n b h processed with
  | zero =>
    have hnil : rest_of b = [] := length_eq_zero_iff.mp (by omega)
    exact .none processed hst hq hle (by rw [hnil]; rfl)
  | succ fuel ih =>
    have hrest : rest_of b = b.rbuffer.drop b.auth_rbegin := by
      unfold rest_of
      rw [Nat.max_eq_right hbegin]
    have hlen : (rest_of b).length = b.rbuffer.length - b.auth_rbegin := by
      rw [hrest, length_drop]
    cases hm : memmem_safe (rest_of b) crlf with
    | none =>
      have hn : next_line b = none := by
        unfold next_line
        rw [← hrest, hm]
        rfl
      rw [loop_none fuel n processed hn]
      exact .none processed hst hq hle hm
    | some i =>
      have hi := crlf_le hm
      have hn : next_line b = some ((rest_of b).take i) := by
        unfold next_line
        rw [← hrest, hm]
        rfl
      have hline : ((rest_of b).take i).length = i := by
        rw [length_take, Nat.min_eq_left (by omega)]
      have hcore := handle_line_core true b ((rest_of b).take i)
      cases hl : handle_line true b ((rest_of b).take i) with
      | begin =>
        rw [hl] at hcore
        have hx := exchange_begin hm hcore
        rw [loop_begin fuel n processed hn hl, hx, hline]
        by_cases hne : h = []
        · -- the end of the phase
          subst hne
          have hdrop : b.rbuffer.drop (b.auth_rbegin + i + 2) = (rest_of b).drop (i + 2) := by
            rw [hrest, drop_drop, Nat.add_assoc]
          rw [if_neg fun hw => hq.needs_write.mp hw rfl, hdrop]
          obtain ⟨hr, hstarts⟩ := start_running hq ((rest_of b).drop (i + 2))
          exact .inl ⟨rfl, rfl, hr, hstarts⟩
        · rw [if_pos (hq.needs_write.mpr hne)]
          refine .inr ⟨fun _ => by simpa using hne, ?_, .inl rfl, ?_⟩
          · exact ⟨hst, rfl, rfl, rfl, by simpa using hq, hle, hx⟩
          · intro hbegun
            cases hbegun
      | answer b₁ a =>
        rw [hl] at hcore
        obtain ⟨auth, can_fds, hframe⟩ := handle_line_frame hl
        have hq₁ : HasQueue b₁ h := by
          rw [hframe]
          exact hq
        obtain ⟨hresult, hbus⟩ := loop_answer fuel n processed hn hl hq₁
        rw [hresult, hbus, exchange_answer hm hcore, hline]
        -- the bus with which the loop goes on
        obtain ⟨b₂, hb₂⟩ : ∃ b₂, b₂ = { with_queue b₁ (h ++ a.text b₁.server_id) with
            auth_rbegin := b.auth_rbegin + i + 2 } := ⟨_, rfl⟩
        rw [← hb₂]
        have hcore₂ : core b₂ = core b₁ := by
          rw [hb₂]
          rfl
        have hbuffer : b₂.rbuffer = b.rbuffer := by
          rw [hb₂, hframe]
          rfl
        have hid : b₁.server_id = (core b).server_id := by
          rw [hframe]
          rfl
        have hrbegin : b₂.auth_rbegin = b.auth_rbegin + i + 2 := by
          rw [hb₂]
        have hst₂ : b₂.state = .authenticating := by
          rw [hb₂, hframe]
          exact hst
        have hq₂ : HasQueue b₂ (h ++ a.text b₁.server_id) := by
          rw [hb₂]
          exact with_queue_has b₁ _
        have hrest₂ : rest_of b₂ = (rest_of b).drop (i + 2) := by
          unfold rest_of at hrest ⊢
          rw [hbuffer, hrbegin, hrest, drop_drop, Nat.max_eq_right (by omega), Nat.add_assoc]
        have hrec := ih (n + 1) true hst₂ hq₂ (by omega) (by rw [hbuffer]; omega)
          (by rw [hrest₂, length_drop]; omega)
        rw [hcore₂, hrest₂, hid] at hrec
        exact hrec.answered (answer_ne_nil _ a) hbuffer (by rw [hb₂, hframe]; rfl)

/-- The verifier, where the stream starts as it should. -/
theorem verify_server (hst : b.state = .authenticating) (hq : HasQueue b h)
    (hle : b.auth_rbegin ≤ b.rbuffer.length) (hfirst : b.rbuffer.head? = some 0) :
    Verified b h (exchange (core b) (rest_of b)) false
      (bus_socket_auth_verify_server no_failure b).1
      (bus_socket_auth_verify_server no_failure b).2.1 := by
  have hpos : 0 < b.rbuffer.length := by
    rw [length_pos_iff]
    intro hnil
    rw [hnil] at hfirst
    cases hfirst
  unfold bus_socket_auth_verify_server
  rw [if_neg (by omega), if_neg (fun hne => hne hfirst)]
  by_cases hshort : b.rbuffer.length < 3
  · -- there is no room for a line
    rw [if_pos hshort]
    apply Verified.none false hst hq hle
    cases hm : memmem_safe (rest_of b) crlf with
    | none => rfl
    | some i =>
      have hi := crlf_le hm
      unfold rest_of at hi
      rw [length_drop] at hi
      omega
  · rw [if_neg hshort]
    have hst₁ : (first_line b).state = .authenticating := by
      unfold first_line
      split
      · exact hst
      · exact hst
    have hbuffer : (first_line b).rbuffer = b.rbuffer := by
      unfold first_line
      split
      · rfl
      · rfl
    have hq₁ : HasQueue (first_line b) h := by
      unfold first_line
      split
      · exact hq
      · exact hq
    have hbegin : (first_line b).auth_rbegin = max 1 b.auth_rbegin := by
      unfold first_line
      split
      · show 1 = _
        omega
      · omega
    have hrest : rest_of (first_line b) = rest_of b := by
      unfold rest_of
      congr 1
      omega
    have hcore : core (first_line b) = core b := by
      unfold first_line
      split
      · rfl
      · rfl
    have hclient : (first_line b).bus_client = b.bus_client := by
      unfold first_line
      split
      · rfl
      · rfl
    have hfuel : (rest_of (first_line b)).length ≤ b.rbuffer.length := by
      unfold rest_of
      rw [hbuffer, length_drop]
      omega
    have hv := verify_loop b.rbuffer.length 0 false hst₁ hq₁ (by omega)
      (by rw [hbuffer]; omega) hfuel
    rw [hrest, hcore] at hv
    rcases hv with ⟨hbegun, hnil, hr, hs⟩ | ⟨hne, hw, hr, hzero⟩
    · refine .inl ⟨hbegun, hnil, hr, ?_⟩
      exact ⟨by rw [← hclient]; exact hs.state, hs.auth, hs.can_fds, hs.rbuffer, hs.queue⟩
    · refine .inr ⟨hne, ?_, hr, hzero⟩
      exact ⟨hw.state, hw.client.trans hclient, hw.rbuffer.trans hbuffer, hw.core, hw.queue,
        hw.rbegin, hw.rest⟩

end verify

/-! ## Section 4: A server and its client -/

/-- A server, what the client sends, as far as it has not been read, what has
    been written, and whether the connection has failed. -/
structure AuthServer where
  bus : SdBus
  unread : List UInt8
  written : List UInt8
  ended : Outcome Unit

/-- How a call ends. -/
def ending : Outcome Nat → Outcome Unit
  | .ok _ => .ok ()
  | .err e => .err e
  | .abort => .abort

/-- `bus_socket_read_auth` gets to reading, if there was nothing to do before. -/
def gets_to_read (b : SdBus) : Bool :=
  (bus_socket_auth_verify_server no_failure b).1 == .ok 0 && b.rbuffer.length < read_auth_room b

/-- `bus_socket_process_authenticating` before the timeout: so many bytes can be
    written and read, or none for now. -/
def bus_socket_process_authenticating (sent read : Option Nat) (s : AuthServer) : AuthServer :=
  let k := sent.map (min · (queued s.bus).length)
  let w := bus_socket_write_auth bus_socket_auth_verify_server no_failure
    (match k with
      | some k => .ok k
      | none => .error none) s.bus
  let written :=
    if bus_socket_auth_needs_write s.bus then s.written ++ (queued s.bus).take (k.getD 0)
    else s.written
  if w.1 = .ok 0 then
    let b := w.2.1
    let bs := s.unread.take (min (read.getD 0) (read_auth_room b - b.rbuffer.length))
    let r := bus_socket_read_auth bus_socket_auth_verify_server no_failure no_failure true
      (if bs = [] then .again else .bytes bs none) b
    { bus := r.2.1
      unread := if gets_to_read b then s.unread.drop bs.length else s.unread
      written := written
      ended := ending r.1 }
  else { s with bus := w.2.1, written := written, ended := ending w.1 }

/-- The calls, in any order of pieces. -/
def auth_server : System AuthServer (Option Nat × Option Nat) where
  init := fun s =>
    s.bus.state = .authenticating ∧ s.bus.rbuffer = [] ∧ s.bus.auth_rbegin = 0 ∧
    HasQueue s.bus [] ∧ s.written = [] ∧ s.ended = .ok ()
  step := fun s l s' =>
    s.bus.state = .authenticating ∧ s.ended = .ok () ∧
    s' = bus_socket_process_authenticating l.1 l.2 s

/-- No call changes anything any more. -/
def Settled (s : AuthServer) : Prop := ∀ l s', auth_server.step s l s' → s' = s

/-- What has become of a connection. -/
structure AuthOutcome where
  responses : List UInt8
  auth : BusAuth
  can_fds : Bool
  state : BusState
  ended : Outcome Unit
  /-- What follows the `BEGIN`. -/
  left_over : Option (List UInt8)

def AuthServer.outcome (s : AuthServer) : AuthOutcome where
  responses := s.written ++ queued s.bus
  auth := s.bus.auth
  can_fds := s.bus.can_fds
  state := s.bus.state
  ended := s.ended
  left_over := if s.bus.state = .authenticating then none else some (s.bus.rbuffer ++ s.unread)

/-- What should become of it: the stream has to begin with a NUL byte, and
    `BEGIN` has to come within the first `BUS_AUTH_SIZE_MAX` bytes. -/
def auth_outcome (c : SdBus) (stream : List UInt8) : AuthOutcome :=
  if stream = [] then ⟨[], c.auth, c.can_fds, .authenticating, .ok (), none⟩
  else if stream.head? ≠ some 0 then
    ⟨[], c.auth, c.can_fds, .authenticating, .err Errno.EIO, none⟩
  else
    let x := exchange c (stream.take BUS_AUTH_SIZE_MAX).tail
    if x.begun then
      ⟨x.out, x.bus.auth, x.bus.can_fds, if c.bus_client then .hello else .running, .ok (),
        some (x.rest ++ stream.drop BUS_AUTH_SIZE_MAX)⟩
    else
      ⟨x.out, x.bus.auth, x.bus.can_fds, .authenticating,
        if stream.length < BUS_AUTH_SIZE_MAX then .ok () else .err .ENOBUFS, none⟩

/-! ## Section 5: What the calls keep -/

/-- The phase goes on, before the verifier looks at the buffer: with the answers
    to what is left these are the answers to all of the buffer. -/
structure Pending (c : SdBus) (stream h : List UInt8) (s : AuthServer) : Prop where
  state : s.bus.state = .authenticating
  ended : s.ended = .ok ()
  client : s.bus.bus_client = c.bus_client
  stream : s.bus.rbuffer ++ s.unread = stream
  size : s.bus.rbuffer.length ≤ BUS_AUTH_SIZE_MAX
  first : s.bus.rbuffer.head? = some 0
  rbegin : s.bus.auth_rbegin ≤ s.bus.rbuffer.length
  queue : HasQueue s.bus h
  all : exchange c s.bus.rbuffer.tail = { exchange (core s.bus) (rest_of s.bus) with
    out := (s.written ++ h) ++ (exchange (core s.bus) (rest_of s.bus)).out }

/-- The phase goes on, and the verifier has looked at the buffer. -/
structure Looked (c : SdBus) (stream h : List UInt8) (s : AuthServer) : Prop
    extends Pending c stream h s where
  lines : (exchange (core s.bus) (rest_of s.bus)).bus = core s.bus
  out : (exchange (core s.bus) (rest_of s.bus)).out = []
  waits : (exchange (core s.bus) (rest_of s.bus)).begun = true → h ≠ []

/-- Nothing has been read yet. -/
structure Fresh (c : SdBus) (stream : List UInt8) (s : AuthServer) : Prop where
  state : s.bus.state = .authenticating
  ended : s.ended = .ok ()
  core : core s.bus = c
  unread : s.unread = stream
  rbuffer : s.bus.rbuffer = []
  rbegin : s.bus.auth_rbegin = 0
  queue : HasQueue s.bus []
  written : s.written = []

/-- The phase is over. -/
structure Started (c : SdBus) (stream : List UInt8) (s : AuthServer) : Prop where
  state : s.bus.state = if c.bus_client then .hello else .running
  ended : s.ended = .ok ()
  queue : HasQueue s.bus []
  bytes : ∃ read, read ++ s.unread = stream ∧ read.length ≤ BUS_AUTH_SIZE_MAX ∧
    read.head? = some 0 ∧ (exchange c read.tail).begun = true ∧
    s.written = (exchange c read.tail).out ∧ s.bus.auth = (exchange c read.tail).bus.auth ∧
    s.bus.can_fds = (exchange c read.tail).bus.can_fds ∧
    s.bus.rbuffer = (exchange c read.tail).rest

/-- The connection has failed: the first byte is wrong, or there was no `BEGIN`
    in a full buffer. -/
def Failed (c : SdBus) (stream : List UInt8) (s : AuthServer) : Prop :=
  (s.ended = .err Errno.EIO ∧ stream ≠ [] ∧ stream.head? ≠ some 0 ∧ s.bus.state = .authenticating ∧
    s.written ++ queued s.bus = [] ∧ s.bus.auth = c.auth ∧ s.bus.can_fds = c.can_fds) ∨
  (s.ended = .err .ENOBUFS ∧ ∃ h, Looked c stream h { s with ended := .ok () } ∧
    s.bus.rbuffer.length = BUS_AUTH_SIZE_MAX ∧
    (exchange (core s.bus) (rest_of s.bus)).begun = false)

section calls
variable {c : SdBus} {stream h : List UInt8} {s : AuthServer}

theorem Pending.verify (hp : Pending c stream h s) :
    let r := bus_socket_auth_verify_server no_failure s.bus
    let y := exchange (core s.bus) (rest_of s.bus)
    (r.1 = .ok 1 ∧ Started c stream { s with bus := r.2.1 }) ∨
    (Looked c stream (h ++ y.out) { s with bus := r.2.1 } ∧ r.2.1.rbuffer = s.bus.rbuffer ∧
      (exchange (core r.2.1) (rest_of r.2.1)).begun = y.begun ∧
      (r.1 = .ok 1 ∨ r.1 = .ok 0 ∧ y.begun = false) ∧
      (y.begun = false → y.out = [] → r.1 = .ok 0)) := by
  intro r y
  have hv := verify_server hp.state hp.queue hp.rbegin hp.first
  rcases hv with ⟨hbegun, hnil, hr, hs⟩ | ⟨hne, hw, hr, hzero⟩
  · left
    obtain ⟨hh, hy⟩ := append_eq_nil_iff.mp hnil
    refine ⟨hr, ?_, hp.ended, hs.queue, s.bus.rbuffer, hp.stream, hp.size, hp.first, ?_⟩
    · rw [← hp.client]
      exact hs.state
    · rw [hp.all]
      refine ⟨hbegun, ?_, hs.auth, hs.can_fds, hs.rbuffer⟩
      simp only [hh, hy, append_nil]
  · right
    have hcore : core r.2.1 = y.bus := hw.core
    have hrest : exchange (core r.2.1) (rest_of r.2.1) = ⟨y.bus, [], y.begun, y.rest⟩ := by
      rw [hcore]
      exact hw.rest
    refine ⟨⟨⟨hw.state, hp.ended, ?_, ?_, ?_, ?_, hw.rbegin, hw.queue, ?_⟩, ?_, ?_, ?_⟩,
      hw.rbuffer, ?_, hr, ?_⟩
    · exact hw.client.trans hp.client
    · show r.2.1.rbuffer ++ s.unread = stream
      rw [hw.rbuffer]
      exact hp.stream
    · show r.2.1.rbuffer.length ≤ _
      rw [hw.rbuffer]
      exact hp.size
    · show r.2.1.rbuffer.head? = _
      rw [hw.rbuffer]
      exact hp.first
    · show exchange c r.2.1.rbuffer.tail = _
      rw [hw.rbuffer, hp.all]
      simp only [hrest, append_nil, append_assoc]
      rfl
    · show (exchange (core r.2.1) (rest_of r.2.1)).bus = core r.2.1
      rw [hrest, hcore]
    · show (exchange (core r.2.1) (rest_of r.2.1)).out = []
      rw [hrest]
    · show (exchange (core r.2.1) (rest_of r.2.1)).begun = true → _
      rw [hrest]
      exact hne
    · rw [hrest]
    · intro hbegun hout
      exact hzero hbegun hout rfl

variable {bs : List UInt8}

variable {rest : List UInt8}

/-- More bytes are read. -/
theorem Looked.receive (hl : Looked c stream h s)
    (hbegun : (exchange (core s.bus) (rest_of s.bus)).begun = false)
    (hunread : bs ++ rest = s.unread) (hsize : s.bus.rbuffer.length + bs.length ≤ BUS_AUTH_SIZE_MAX) :
    Pending c stream h
      { s with bus := { s.bus with rbuffer := s.bus.rbuffer ++ bs }, unread := rest } := by
  obtain ⟨d, buffer, hbuffer⟩ : ∃ d buffer, s.bus.rbuffer = d :: buffer := by
    cases hb : s.bus.rbuffer with
    | nil =>
      have hfirst := hl.first
      rw [hb] at hfirst
      cases hfirst
    | cons d buffer => exact ⟨d, buffer, rfl⟩
  refine ⟨hl.state, hl.ended, hl.client, ?_, ?_, ?_, ?_, hl.queue, ?_⟩
  · show (s.bus.rbuffer ++ bs) ++ rest = stream
    rw [append_assoc, hunread]
    exact hl.stream
  · show (s.bus.rbuffer ++ bs).length ≤ _
    rw [length_append]
    exact hsize
  · show (s.bus.rbuffer ++ bs).head? = _
    rw [← hl.first, hbuffer]
    rfl
  · show s.bus.auth_rbegin ≤ (s.bus.rbuffer ++ bs).length
    have := hl.rbegin
    rw [length_append]
    omega
  · show exchange c (s.bus.rbuffer ++ bs).tail = _
    have hrest : rest_of { s.bus with rbuffer := s.bus.rbuffer ++ bs } = rest_of s.bus ++ bs := by
      have hle := hl.rbegin
      have hpos : 1 ≤ s.bus.rbuffer.length := by simp [hbuffer]
      have hmax : max 1 s.bus.auth_rbegin ≤ s.bus.rbuffer.length := by omega
      exact drop_append_of_le_length hmax
    have htail : (s.bus.rbuffer ++ bs).tail = s.bus.rbuffer.tail ++ bs := by
      rw [hbuffer]
      rfl
    have hcore : core { s.bus with rbuffer := s.bus.rbuffer ++ bs } = core s.bus := rfl
    rw [htail, exchange_append, hl.all]
    simp only [hrest, hcore, hl.lines, hl.out, append_nil, Bool.false_eq_true, if_false]
    rw [exchange_append (core s.bus) (rest_of s.bus) bs]
    simp only [hbegun, hl.lines, hl.out, nil_append, Bool.false_eq_true, if_false]

/-- Some of the queue is written. -/
theorem Looked.sent (hl : Looked c stream h s) (hne : h ≠ []) {k : Nat} (hk : k ≤ h.length) :
    Pending c stream (h.drop k)
      { s with bus := advance_auth_iovec s.bus k, written := s.written ++ h.take k } := by
  obtain ⟨iov, i, hframe, hq⟩ := hl.queue.advance hne hk
  have hcore : core (advance_auth_iovec s.bus k) = core s.bus := by
    rfl
  have hrest : rest_of (advance_auth_iovec s.bus k) = rest_of s.bus := by
    rfl
  have hbuffer : (advance_auth_iovec s.bus k).rbuffer = s.bus.rbuffer := by
    rw [hframe]
  refine ⟨?_, hl.ended, ?_, ?_, ?_, ?_, ?_, hq, ?_⟩
  · rw [hframe]
    exact hl.state
  · rw [hframe]
    exact hl.client
  · rw [hframe]
    exact hl.stream
  · rw [hframe]
    exact hl.size
  · rw [hframe]
    exact hl.first
  · rw [hframe]
    exact hl.rbegin
  · show exchange c (advance_auth_iovec s.bus k).rbuffer.tail = _
    simp only [hcore, hrest, append_assoc, take_append_drop]
    have hall := hl.all
    simp only [append_assoc] at hall
    exact hall

/-- A server whose phase goes on. -/
def Waiting (c : SdBus) (stream : List UInt8) (s : AuthServer) : Prop :=
  Fresh c stream s ∨ ∃ h, Looked c stream h s

/-- How far a call can get. -/
def Goes (c : SdBus) (stream : List UInt8) (s : AuthServer) : Prop :=
  Waiting c stream s ∨ Started c stream s ∨ Failed c stream s

theorem ending_ok {r : Outcome Nat} (h : r = .ok 1 ∨ r = .ok 0) : ending r = .ok () := by
  rcases h with rfl | rfl
  · rfl
  · rfl

/-- The verifier after reading. -/
theorem Pending.read (hp : Pending c stream h s) (r : Outcome Nat)
    (hr : r = (bus_socket_auth_verify_server no_failure s.bus).1 ∨ r = .ok 1) :
    Goes c stream { s with
      bus := (bus_socket_auth_verify_server no_failure s.bus).2.1, ended := ending r } := by
  have hended : ending r = s.ended := by
    rw [hp.ended]
    apply ending_ok
    rcases hp.verify with ⟨hone, _⟩ | ⟨_, _, _, hor, _⟩
    · rcases hr with rfl | rfl
      · exact .inl hone
      · exact .inl rfl
    · rcases hr with rfl | rfl
      · exact hor.imp id And.left
      · exact .inl rfl
  rw [hended]
  rcases hp.verify with ⟨_, hs⟩ | ⟨hl, _⟩
  · exact .inr (.inl hs)
  · exact .inl (.inr ⟨_, hl⟩)

variable {b : SdBus}

/-- What `bus_socket_read_auth` does, where the verifier had nothing to do. -/
theorem read_auth_verified (read : ReadResult)
    (h0 : (bus_socket_auth_verify_server no_failure b).1 = .ok 0) :
    let r := bus_socket_read_auth bus_socket_auth_verify_server no_failure no_failure true read b
    let r' := read_auth_more (bus_socket_auth_verify_server no_failure) true read
      (bus_socket_auth_verify_server no_failure b).2.1
    r.1 = r'.1 ∧ r.2.1 = r'.2.1 := by
  intro r r'
  have hr : r = bus_socket_read_auth bus_socket_auth_verify_server no_failure no_failure true read b :=
    rfl
  unfold bus_socket_read_auth at hr
  split at hr
  · next heq =>
    have hr' : r' = read_auth_more (bus_socket_auth_verify_server no_failure) true read _ := rfl
    rw [heq] at hr'
    rw [hr, hr']
    exact ⟨rfl, rfl⟩
  · next hne =>
    exact (hne _ _ (Prod.ext h0 rfl)).elim

theorem read_auth_done {read : ReadResult}
    (h0 : (bus_socket_auth_verify_server no_failure b).1 ≠ .ok 0) :
    bus_socket_read_auth bus_socket_auth_verify_server no_failure no_failure true read b =
      bus_socket_auth_verify_server no_failure b := by
  unfold bus_socket_read_auth
  split
  · next heq =>
    rw [heq] at h0
    exact absurd rfl h0
  · rfl

/-- Bytes are read and looked at. -/
theorem read_auth_bytes (bs : List UInt8) (hroom : b.rbuffer.length < read_auth_room b) :
    let r := read_auth_more (bus_socket_auth_verify_server no_failure) true (.bytes bs none) b
    let r' := bus_socket_auth_verify_server no_failure { b with rbuffer := b.rbuffer ++ bs }
    (r.1 = r'.1 ∨ r.1 = .ok 1 ∧ r'.1 = .ok 0) ∧ r.2.1 = r'.2.1 := by
  unfold read_auth_more
  rw [if_neg (by omega)]
  simp only
  obtain ⟨r, b', evs⟩ := bus_socket_auth_verify_server no_failure { b with rbuffer := b.rbuffer ++ bs }
  cases r with
  | ok n =>
    cases n with
    | zero => exact ⟨.inr ⟨rfl, rfl⟩, rfl⟩
    | succ n => exact ⟨.inl rfl, rfl⟩
  | err e => exact ⟨.inl rfl, rfl⟩
  | abort => exact ⟨.inl rfl, rfl⟩

/-- The first bytes. -/
theorem Fresh.read (hf : Fresh c stream s) (hbs : bs ≠ []) (hunread : bs ++ rest = s.unread)
    (hsize : bs.length ≤ BUS_AUTH_SIZE_MAX) (r : Outcome Nat)
    (hr : r = (bus_socket_auth_verify_server no_failure { s.bus with rbuffer := bs }).1 ∨ r = .ok 1 ∧ (bus_socket_auth_verify_server no_failure { s.bus with rbuffer := bs }).1 = .ok 0) :
    Goes c stream { s with
      bus := (bus_socket_auth_verify_server no_failure { s.bus with rbuffer := bs }).2.1
      unread := rest, ended := ending r } := by
  obtain ⟨d, bs', rfl⟩ := exists_cons_of_ne_nil hbs
  by_cases hd : d = 0
  · subst hd
    have hp : Pending c stream []
        { s with bus := { s.bus with rbuffer := 0 :: bs' }, unread := rest } := by
      refine ⟨hf.state, hf.ended, ?_, ?_, hsize, rfl, ?_, hf.queue, ?_⟩
      · rw [← hf.core]
        rfl
      · rw [← hf.unread]
        exact hunread
      · rw [hf.rbegin]
        exact Nat.zero_le _
      · have hrest : rest_of { s.bus with rbuffer := 0 :: bs' } = bs' := by
          simp only [hf.rbegin]
          rfl
        have hcore : Auth.core { s.bus with rbuffer := 0 :: bs' } = c := hf.core
        show exchange c bs' = _
        simp only [hrest, hcore, hf.written, nil_append]
    exact hp.read r (hr.imp id And.left)
  · -- this is no client
    have hverify : bus_socket_auth_verify_server no_failure { s.bus with rbuffer := d :: bs' } =
        (.err Errno.EIO, { s.bus with rbuffer := d :: bs' }, []) := by
      unfold bus_socket_auth_verify_server
      rw [if_neg (by simp), if_pos (by simpa using hd)]
    rw [hverify] at hr ⊢
    obtain rfl : r = .err Errno.EIO := by
      rcases hr with hr | ⟨_, hzero⟩
      · exact hr
      · cases hzero
    right
    right
    left
    have hstream : stream = d :: (bs' ++ rest) := by
      rw [← hf.unread, ← hunread]
      rfl
    refine ⟨rfl, by simp [hstream], by simpa [hstream] using hd, hf.state, ?_, ?_, ?_⟩
    · have hq : HasQueue { s.bus with rbuffer := d :: bs' } [] := hf.queue
      rw [hq.queued, hf.written]
      rfl
    · rw [← hf.core]
      rfl
    · rw [← hf.core]
      rfl

theorem with_ended {e : Outcome Unit} (he : s.ended = e) : { s with ended := e } = s := by
  rw [← he]

theorem Pending.pos (hp : Pending c stream h s) : 0 < s.bus.rbuffer.length := by
  rw [length_pos_iff]
  intro hnil
  have hfirst := hp.first
  rw [hnil] at hfirst
  cases hfirst

variable {r : Outcome Nat × SdBus × List Event}

/-- A read, where the verifier had nothing to do. -/
theorem Looked.read_more (hl : Looked c stream h s)
    (hbegun : (exchange (core s.bus) (rest_of s.bus)).begun = false) (n : Nat)
    (hbs : bs = s.unread.take (min n (read_auth_room s.bus - s.bus.rbuffer.length)))
    (hr : r = read_auth_more (bus_socket_auth_verify_server no_failure) true (if bs = [] then .again else .bytes bs none) s.bus) :
    Goes c stream { s with
      bus := r.2.1, unread := s.unread.drop bs.length, ended := ending r.1 } := by
  by_cases hfull : read_auth_room s.bus ≤ s.bus.rbuffer.length
  · -- there is no room
    have hnil : bs = [] := by
      rw [hbs, Nat.sub_eq_zero_of_le hfull, Nat.min_zero, take_zero]
    have hmore : r = (.err .ENOBUFS, s.bus, []) := by
      rw [hr]
      unfold read_auth_more
      rw [if_pos hfull]
    rw [hmore, hnil]
    have hl' : Looked c stream h { s with ended := .ok () } := by
      rw [with_ended hl.ended]
      exact hl
    have hlen : s.bus.rbuffer.length = BUS_AUTH_SIZE_MAX := by
      have hsize := hl.size
      unfold read_auth_room at hfull
      omega
    exact .inr (.inr (.inr ⟨rfl, h, hl', hlen, hbegun⟩))
  · by_cases hnil : bs = []
    · -- nothing has arrived
      have hmore : r = (.ok 0, s.bus, []) := by
        rw [hr, if_pos hnil]
        unfold read_auth_more
        rw [if_neg hfull]
        rfl
      rw [hmore, hnil]
      refine .inl (.inr ⟨h, ?_⟩)
      show Looked c stream h { s with ended := .ok () }
      rw [with_ended hl.ended]
      exact hl
    · rw [if_neg hnil] at hr
      obtain ⟨hor, hbus⟩ := read_auth_bytes bs (show s.bus.rbuffer.length < _ by omega)
      rw [← hr] at hor hbus
      have hp : Pending c stream h { s with
          bus := { s.bus with rbuffer := s.bus.rbuffer ++ bs }
          unread := s.unread.drop bs.length } := by
        have hlen : bs.length ≤ read_auth_room s.bus - s.bus.rbuffer.length := by
          rw [hbs, length_take]
          omega
        have hroom : read_auth_room s.bus ≤ BUS_AUTH_SIZE_MAX := Nat.min_le_right _ _
        apply hl.receive hbegun
        · rw [← prefix_iff_eq_append, hbs]
          exact List.take_prefix _ _
        · omega
      rw [hbus]
      exact hp.read r.1 (hor.imp id And.left)

/-- A call of `bus_socket_read_auth`. -/
theorem Looked.read (hl : Looked c stream h s) (n : Nat)
    (hbs : bs = s.unread.take (min n (read_auth_room s.bus - s.bus.rbuffer.length)))
    (hr : r = bus_socket_read_auth bus_socket_auth_verify_server no_failure no_failure true (if bs = [] then .again else .bytes bs none) s.bus) :
    Goes c stream { s with
      bus := r.2.1
      unread := if gets_to_read s.bus then s.unread.drop bs.length else s.unread
      ended := ending r.1 } := by
  by_cases h0 : (bus_socket_auth_verify_server no_failure s.bus).1 = .ok 0
  · have hverified := read_auth_verified (if bs = [] then .again else .bytes bs none) h0
    rcases hl.verify with ⟨hone, _⟩ | ⟨hl', hbuffer, hbegun', hor, _⟩
    · rw [h0] at hone
      cases hone
    have hbegun : (exchange (core s.bus) (rest_of s.bus)).begun = false := by
      rcases hor with hone | ⟨_, hbegun⟩
      · rw [h0] at hone
        cases hone
      · exact hbegun
    -- the bus that reads
    obtain ⟨b, hb⟩ : ∃ b, b = (bus_socket_auth_verify_server no_failure s.bus).2.1 := ⟨_, rfl⟩
    rw [← hb] at hverified hl' hbuffer hbegun'
    have hroom : read_auth_room b = read_auth_room s.bus := by
      unfold read_auth_room
      rw [hbuffer]
    have hbs' : bs = s.unread.take (min n (read_auth_room b - b.rbuffer.length)) := by
      rw [hbs, hroom, hbuffer]
    have hgoes := hl'.read_more (hbegun'.trans hbegun) n hbs' rfl
    have hunread : (if gets_to_read s.bus then s.unread.drop bs.length else s.unread) =
        s.unread.drop bs.length := by
      by_cases hfull : s.bus.rbuffer.length < read_auth_room s.bus
      · have hgets : gets_to_read s.bus = true := by
          unfold gets_to_read
          rw [h0, decide_eq_true hfull]
          rfl
        rw [if_pos hgets]
      · have hnil : bs = [] := by
          rw [hbs, Nat.sub_eq_zero_of_le (by omega), Nat.min_zero, take_zero]
        rw [hnil]
        simp
    rw [hr, hunread, hverified.1, hverified.2]
    exact hgoes
  · have hgets : ¬ gets_to_read s.bus = true := by
      unfold gets_to_read
      simp [h0]
    rw [if_neg hgets, hr, read_auth_done h0]
    exact hl.toPending.read _ (.inl rfl)

theorem Fresh.verify (hf : Fresh c stream s) :
    bus_socket_auth_verify_server no_failure s.bus = (.ok 0, s.bus, []) := by
  unfold bus_socket_auth_verify_server
  rw [if_pos (by rw [hf.rbuffer]; decide)]

theorem Fresh.room (hf : Fresh c stream s) : s.bus.rbuffer.length < read_auth_room s.bus := by
  unfold read_auth_room
  rw [hf.rbuffer]
  decide

theorem Fresh.gets (hf : Fresh c stream s) : gets_to_read s.bus = true := by
  unfold gets_to_read
  rw [hf.verify, decide_eq_true hf.room]
  rfl

/-- The first call that reads. -/
theorem Fresh.first_read (hf : Fresh c stream s) (n : Nat)
    (hbs : bs = s.unread.take (min n (read_auth_room s.bus - s.bus.rbuffer.length)))
    (hr : r = bus_socket_read_auth bus_socket_auth_verify_server no_failure no_failure true (if bs = [] then .again else .bytes bs none) s.bus) :
    Goes c stream { s with
      bus := r.2.1
      unread := if gets_to_read s.bus then s.unread.drop bs.length else s.unread
      ended := ending r.1 } := by
  have hverify := hf.verify
  have hlt := hf.room
  have hgets := hf.gets
  have hverified := read_auth_verified (if bs = [] then .again else .bytes bs none)
    (show (bus_socket_auth_verify_server no_failure s.bus).1 = .ok 0 by rw [hverify])
  rw [if_pos hgets, hr, hverified.1, hverified.2, hverify]
  by_cases hnil : bs = []
  · -- nothing has arrived
    have hmore : read_auth_more (bus_socket_auth_verify_server no_failure) true .again s.bus =
        (.ok 0, s.bus, []) := by
      unfold read_auth_more
      rw [if_neg (by omega)]
      rfl
    rw [if_pos hnil, hmore, hnil]
    refine .inl (.inl ?_)
    show Fresh c stream { s with ended := .ok () }
    rw [with_ended hf.ended]
    exact hf
  · rw [if_neg hnil]
    obtain ⟨hor, hbus⟩ := read_auth_bytes bs hlt
    have hbuffer : s.bus.rbuffer ++ bs = bs := by
      rw [hf.rbuffer]
      rfl
    rw [hbuffer] at hor hbus
    rw [hbus]
    have hunread : bs ++ s.unread.drop bs.length = s.unread := by
      rw [← prefix_iff_eq_append, hbs]
      exact List.take_prefix _ _
    have hsize : bs.length ≤ BUS_AUTH_SIZE_MAX := by
      have hmax : read_auth_room s.bus ≤ BUS_AUTH_SIZE_MAX := Nat.min_le_right _ _
      rw [hbs, length_take]
      omega
    exact hf.read hnil hunread hsize _ hor

/-! ## Section 6: Runs -/

/-- What is read by a call that writes nothing, or all it could. -/
def read_part (read : Option Nat) (s : AuthServer) : AuthServer :=
  let bs := s.unread.take (min (read.getD 0) (read_auth_room s.bus - s.bus.rbuffer.length))
  let r := bus_socket_read_auth bus_socket_auth_verify_server no_failure no_failure true
    (if bs = [] then .again else .bytes bs none) s.bus
  { s with
    bus := r.2.1
    unread := if gets_to_read s.bus then s.unread.drop bs.length else s.unread
    ended := ending r.1 }

theorem process_unsent (sent read : Option Nat)
    (hn : bus_socket_auth_needs_write s.bus = false ∨ sent = none) :
    bus_socket_process_authenticating sent read s = read_part read s := by
  unfold bus_socket_process_authenticating bus_socket_write_auth
  rcases hn with hn | rfl
  · simp only [hn]
    rfl
  · cases hw : bus_socket_auth_needs_write s.bus with
    | false => rfl
    | true =>
      simp only [map_none, getD_none, take_zero, append_nil, Bool.not_true,
        Bool.false_eq_true, if_false, if_true]
      rfl

theorem process_sent (n : Nat) (read : Option Nat) (hw : bus_socket_auth_needs_write s.bus = true) :
    let k := min n (queued s.bus).length
    let w := bus_socket_auth_verify_server no_failure (advance_auth_iovec s.bus k)
    let s' := { s with bus := w.2.1, written := s.written ++ (queued s.bus).take k }
    bus_socket_process_authenticating (some n) read s =
      if w.1 = .ok 0 then read_part read s' else { s' with ended := ending w.1 } := by
  unfold bus_socket_process_authenticating bus_socket_write_auth
  simp only [hw, map_some, Bool.not_true, Bool.false_eq_true, if_false, if_true,
    getD_some]
  rfl

/-- A call from a waiting server. -/
theorem Waiting.call (hw : Waiting c stream s) (sent read : Option Nat) :
    Goes c stream (bus_socket_process_authenticating sent read s) := by
  rcases hw with hf | ⟨h, hl⟩
  · have hn : bus_socket_auth_needs_write s.bus = false := by
      rw [Bool.eq_false_iff]
      exact fun hn => hf.queue.needs_write.mp hn rfl
    rw [process_unsent sent read (.inl hn)]
    exact hf.first_read (read.getD 0) rfl rfl
  · cases hn : bus_socket_auth_needs_write s.bus with
    | false =>
      rw [process_unsent sent read (.inl hn)]
      exact hl.read (read.getD 0) rfl rfl
    | true =>
      cases sent with
      | none =>
        rw [process_unsent none read (.inr rfl)]
        exact hl.read (read.getD 0) rfl rfl
      | some n =>
        have hne := hl.queue.needs_write.mp hn
        have hp := hl.sent hne (Nat.min_le_right n h.length)
        rw [process_sent n read hn, hl.queue.queued]
        by_cases h0 : (bus_socket_auth_verify_server no_failure
            (advance_auth_iovec s.bus (min n h.length))).1 = .ok 0
        · rw [if_pos h0]
          rcases hp.verify with ⟨hone, _⟩ | ⟨hl', _⟩
          · rw [h0] at hone
            cases hone
          · exact hl'.read (read.getD 0) rfl rfl
        · rw [if_neg h0]
          exact hp.read _ (.inl rfl)

theorem auth_server_goes (h0 : auth_server.init s) {ls : List (Option Nat × Option Nat)}
    {s' : AuthServer} (hr : Run auth_server s ls s') : Goes (core s.bus) s.unread s' := by
  refine hr.invariant (fun s₁ l s₂ hg hst => ?_) ?_
  · obtain ⟨hstate, hended, rfl⟩ := hst
    rcases hg with hw | hs | hf
    · exact hw.call l.1 l.2
    · -- the phase is over
      have hstarted := hs.state
      rw [hstate] at hstarted
      split at hstarted
      · cases hstarted
      · cases hstarted
    · rcases hf with ⟨he, _⟩ | ⟨he, _⟩
      · rw [hended] at he
        cases he
      · rw [hended] at he
        cases he
  · obtain ⟨hstate, hbuffer, hrbegin, hq, hwritten, hended⟩ := h0
    exact .inl (.inl ⟨hstate, hended, rfl, rfl, hbuffer, hrbegin, hq, hwritten⟩)

/-! ### Settled states -/

theorem process_sent_written (n : Nat) (read : Option Nat)
    (hw : bus_socket_auth_needs_write s.bus = true) :
    (bus_socket_process_authenticating (some n) read s).written =
      s.written ++ (queued s.bus).take (min n (queued s.bus).length) := by
  rw [process_sent n read hw]
  split
  · rfl
  · rfl

section
variable (hs : Settled s) (hstate : s.bus.state = .authenticating) (hended : s.ended = .ok ())
include hs hstate hended

/-- A settled server that goes on has nothing to read. -/
theorem Settled.unread (hn : bus_socket_auth_needs_write s.bus = false)
    (hgets : gets_to_read s.bus = true) : s.unread = [] := by
  have hcall := hs (none, some 1) _ ⟨hstate, hended, rfl⟩
  rw [process_unsent none (some 1) (.inl hn)] at hcall
  have hunread := congrArg (fun s => s.unread.length) hcall
  unfold read_part at hunread
  have hroom : s.bus.rbuffer.length < read_auth_room s.bus := by
    unfold gets_to_read at hgets
    simp only [Bool.and_eq_true, decide_eq_true_eq] at hgets
    exact hgets.2
  simp only [hgets, if_true, getD_some, length_drop, length_take] at hunread
  rw [← length_eq_zero_iff]
  omega

/-- All that is queued has been written. -/
theorem Settled.queue (hq : HasQueue s.bus h) : h = [] := by
  by_contra hne
  have hn := hq.needs_write.mpr hne
  have hcall := hs (some h.length, none) _ ⟨hstate, hended, rfl⟩
  have hwritten := process_sent_written h.length none hn
  rw [hcall, hq.queued, Nat.min_self] at hwritten
  simp [hne] at hwritten

end

/-- A server that has not read anything. -/
theorem Fresh.outcome (hf : Fresh c stream s) (hs : Settled s) : s.outcome = auth_outcome c stream := by
  have hn : bus_socket_auth_needs_write s.bus = false := by
    rw [Bool.eq_false_iff]
    exact fun hn => hf.queue.needs_write.mp hn rfl
  have hnil : stream = [] := by
    rw [← hf.unread]
    exact hs.unread hf.state hf.ended hn hf.gets
  unfold AuthServer.outcome auth_outcome
  rw [if_pos hnil, hf.queue.queued, hf.written, hf.state, hf.ended, ← hf.core]
  rfl

theorem Pending.stream_ne (hp : Pending c stream h s) : stream ≠ [] ∧ stream.head? = some 0 := by
  have hpos := hp.pos
  rw [← hp.stream]
  constructor
  · rw [← length_pos_iff, length_append]
    omega
  · rw [head?_append, hp.first]
    rfl

/-- The answers to the whole buffer, once the verifier has looked at it. -/
theorem Looked.answers (hl : Looked c stream h s)
    (hbegun : (exchange (core s.bus) (rest_of s.bus)).begun = false) :
    (exchange c s.bus.rbuffer.tail).out = s.written ++ h ∧
      (exchange c s.bus.rbuffer.tail).bus = core s.bus ∧
      (exchange c s.bus.rbuffer.tail).begun = false := by
  rw [hl.all]
  simp only [hl.out, hl.lines, hbegun, append_nil, and_self]

/-- A server that has read all there is. -/
theorem Looked.outcome (hl : Looked c stream h s) (hs : Settled s) :
    s.outcome = auth_outcome c stream := by
  obtain rfl := hs.queue hl.state hl.ended hl.queue
  have hn : bus_socket_auth_needs_write s.bus = false := by
    rw [Bool.eq_false_iff]
    exact fun hn => hl.queue.needs_write.mp hn rfl
  have hbegun : (exchange (core s.bus) (rest_of s.bus)).begun = false := by
    rw [Bool.eq_false_iff]
    exact fun hbegun => hl.waits hbegun rfl
  obtain ⟨h0, hkept⟩ : (bus_socket_auth_verify_server no_failure s.bus).1 = .ok 0 ∧
      (bus_socket_auth_verify_server no_failure s.bus).2.1.rbuffer = s.bus.rbuffer := by
    rcases verify_server hl.state hl.queue hl.rbegin hl.first with ⟨hbegun', _⟩ | ⟨_, hw, _, hzero⟩
    · rw [hbegun] at hbegun'
      cases hbegun'
    · exact ⟨hzero hbegun hl.out rfl, hw.rbuffer⟩
  have hroom : s.bus.rbuffer.length < read_auth_room s.bus := by
    by_contra hfull
    -- the next call would fail
    have hmore : ∀ read, (read_auth_more (bus_socket_auth_verify_server no_failure) true read
        (bus_socket_auth_verify_server no_failure s.bus).2.1).1 = .err .ENOBUFS := by
      intro read
      unfold read_auth_more read_auth_room at *
      rw [hkept, if_pos (by omega)]
    have hcall := hs (none, none) _ ⟨hl.state, hl.ended, rfl⟩
    rw [process_unsent none none (.inl hn)] at hcall
    have hended : (read_part none s).ended = .err .ENOBUFS :=
      congrArg ending ((read_auth_verified _ h0).1.trans (hmore _))
    rw [hcall, hl.ended] at hended
    cases hended
  have hunread : s.unread = [] := by
    apply hs.unread hl.state hl.ended hn
    unfold gets_to_read
    rw [h0, decide_eq_true hroom]
    rfl
  have hbuffer : s.bus.rbuffer = stream := by
    rw [← hl.stream, hunread, append_nil]
  have hlt : stream.length < BUS_AUTH_SIZE_MAX := by
    rw [← hbuffer]
    exact Nat.lt_of_lt_of_le hroom (Nat.min_le_right _ _)
  obtain ⟨hne, hfirst⟩ := hl.stream_ne
  obtain ⟨hout, hbus, hno⟩ := hl.answers hbegun
  rw [hbuffer] at hout hbus hno
  unfold AuthServer.outcome auth_outcome
  rw [if_neg hne, if_neg (not_not_intro hfirst), take_of_length_le (by omega)]
  simp only [hout, hbus, hno, hl.state, hl.ended, hl.queue.queued, if_true, if_pos hlt,
    Bool.false_eq_true, if_false]
  rfl

/-- The end of the phase comes with the same bytes. -/
theorem Started.outcome (hst : Started c stream s) : s.outcome = auth_outcome c stream := by
  obtain ⟨read, hstream, hsize, hfirst, hbegun, hwritten, hauth, hcan, hbuffer⟩ := hst.bytes
  obtain ⟨rest, rfl⟩ : ∃ rest, read = 0 :: rest := by
    cases read with
    | nil => cases hfirst
    | cons d rest => exact ⟨rest, by rw [some.inj hfirst]⟩
  rw [tail_cons] at hbegun hwritten hauth hcan hbuffer
  -- the part of the stream in which there has to be a `BEGIN`
  obtain ⟨more, hmore⟩ : ∃ more, more = s.unread.take (BUS_AUTH_SIZE_MAX - (0 :: rest).length) :=
    ⟨_, rfl⟩
  have htake : stream.take BUS_AUTH_SIZE_MAX = 0 :: (rest ++ more) := by
    rw [← hstream, take_append, take_of_length_le hsize, hmore]
    rfl
  have hdrop : more ++ stream.drop BUS_AUTH_SIZE_MAX = s.unread := by
    rw [← hstream, drop_append, drop_eq_nil_of_le hsize, hmore]
    exact take_append_drop _ _
  have hx : exchange c (rest ++ more) =
      { exchange c rest with rest := (exchange c rest).rest ++ more } := by
    rw [exchange_append, if_pos hbegun]
  have hne : stream ≠ [] := by
    rw [← hstream]
    exact cons_ne_nil _ _
  have hhead : stream.head? = some 0 := by
    rw [← hstream]
    rfl
  have hleft : ¬ s.bus.state = .authenticating := by
    rw [hst.state]
    split
    · exact fun h => by cases h
    · exact fun h => by cases h
  unfold AuthServer.outcome auth_outcome
  rw [if_neg hne, if_neg (not_not_intro hhead), if_neg hleft, htake, tail_cons, hx]
  simp only [hbegun, if_true, append_assoc, hdrop, hst.queue.queued, append_nil, hwritten,
    hauth, hcan, hst.state, hst.ended, hbuffer]

/-- The failures are those of the stream. -/
theorem Failed.outcome (hf : Failed c stream s) : s.outcome = auth_outcome c stream := by
  rcases hf with ⟨he, hne, hfirst, hstate, hwritten, hauth, hcan⟩ | ⟨he, h, hl, hlen, hbegun⟩
  · unfold AuthServer.outcome auth_outcome
    rw [if_neg hne, if_pos hfirst, if_pos hstate, hwritten, hauth, hcan, hstate, he]
  · obtain ⟨hne, hfirst⟩ := hl.stream_ne
    obtain ⟨hout, hbus, hno⟩ := hl.answers hbegun
    have htake : stream.take BUS_AUTH_SIZE_MAX = s.bus.rbuffer := by
      rw [← hl.stream]
      exact take_left' hlen
    have hle : ¬ stream.length < BUS_AUTH_SIZE_MAX := by
      have hstream := congrArg length hl.stream
      rw [length_append] at hstream
      change s.bus.rbuffer.length + _ = _ at hstream
      omega
    unfold AuthServer.outcome auth_outcome
    rw [if_neg hne, if_neg (not_not_intro hfirst), htake]
    have hstate : s.bus.state = .authenticating := hl.state
    have hq : queued s.bus = h := hl.queue.queued
    simp only [hout, hbus, hno, hstate, he, hq, if_neg hle, Bool.false_eq_true, if_false]
    rfl

end calls

/-- **The answers, the mechanism, the state and what is left over depend on the
    stream alone.** -/
theorem auth_server_outcome {s s' : AuthServer} {ls : List (Option Nat × Option Nat)}
    (h0 : auth_server.init s) (hr : Run auth_server s ls s') (hs : Settled s') :
    s'.outcome = auth_outcome (core s.bus) s.unread := by
  rcases auth_server_goes h0 hr with (hf | ⟨h, hl⟩) | hst | hf
  · exact hf.outcome hs
  · exact hl.outcome hs
  · exact hst.outcome
  · exact hf.outcome

/-- A client that sends all it has at once. -/
def eager_client : AuthServer where
  bus := (fresh_server true).bus
  unread := 0 :: ascii "AUTH ANONYMOUS 61\r\nBEGIN\r\nl"
  written := []
  ended := .ok ()

/-- Its server, once the `OK` has been written. -/
def eager_started : AuthServer :=
  bus_socket_process_authenticating (some 100) none
    (bus_socket_process_authenticating none (some 100) eager_client)

theorem eager_started_state : eager_started.bus.state = .running := by decide +kernel

theorem auth_server_outcome_example :
    Settled eager_started ∧
      eager_started.outcome = auth_outcome (core eager_client.bus) eager_client.unread ∧
      eager_started.outcome.left_over = some (ascii "l") := by
  have hsettled : Settled eager_started := by
    rintro l s' ⟨hstate, _⟩
    rw [eager_started_state] at hstate
    cases hstate
  have hinit : auth_server.init eager_client := by
    refine ⟨by decide +kernel, by decide +kernel, by decide +kernel, ⟨by decide +kernel, ?_⟩, rfl, rfl⟩
    exact .inl (by decide +kernel)
  have hrun : Run auth_server eager_client [(none, some 100), (some 100, none)] eager_started :=
    .cons ⟨by decide +kernel, rfl, rfl⟩ (.single ⟨by decide +kernel, by decide +kernel, rfl⟩)
  exact ⟨hsettled, auth_server_outcome hinit hrun hsettled, by decide +kernel⟩

end SdCompat.Auth
