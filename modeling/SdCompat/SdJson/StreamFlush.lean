import SdCompat.SdBus.ReplyCallback
import SdCompat.SdJson.StreamOutput

/-! # Flushing a JSON stream (json-stream.c)

    `json_stream_flush` writes until nothing is left to be written, and waits in
    between with `json_stream_wait`, which ends early when the stream has a
    deadline of its own. What the descriptors come back with is given, round by
    round; what the poll reports of the input is left out.
-/

open Transition

namespace SdCompat.Json

open Call Nat
open Bus (usec_add USEC_INFINITY)

variable {R : Type}

/-! ## Section 1: Model -/

/-- `JsonStreamPhase` -/
inductive JsonStreamPhase where
  | reading
  | awaiting_reply
  | idle_client
  | pending_output
  | other
  deriving DecidableEq

/-- What `JsonStream` has for a flush; `phase` is what the callback of the consumer
    gives. -/
structure JsonStream (R : Type) where
  out : JsonOutput R
  phase : JsonStreamPhase
  last_activity : Nat
  timeout : Nat
  got_pollhup : Bool
  last_activity_le : last_activity ≤ USEC_INFINITY

theorem usec_add_le (a b : Nat) (ha : a ≤ USEC_INFINITY) : usec_add a b ≤ USEC_INFINITY := by
  unfold usec_add
  split
  · exact le_refl _
  · omega

/-- `n` microseconds later something has been written. -/
def JsonStream.active (s : JsonStream R) (n : Nat) : JsonStream R :=
  { s with
    last_activity := usec_add s.last_activity n
    last_activity_le := usec_add_le _ _ s.last_activity_le }

/-- What a poll comes back with. -/
inductive Polled where
  | ready (pollout pollhup : Bool)
  | timed_out
  | error (e : Errno)

/-- What one round of the loop meets. Since the last activity this much time has
    gone by: the clock does not go back. -/
structure FlushRound where
  write : JsonWriteEnv
  elapsed : Nat
  polled : Polled

/-- `json_stream_get_timeout` -/
def json_stream_get_timeout (s : JsonStream R) : Nat :=
  if s.phase ≠ .awaiting_reply then USEC_INFINITY else usec_add s.last_activity s.timeout

/-- `usec_sub_unsigned` -/
def usec_sub_unsigned (timestamp delta : Nat) : Nat :=
  if timestamp = USEC_INFINITY then USEC_INFINITY else timestamp - delta

/-- `json_stream_handle_revents` -/
def json_stream_handle_revents (pollout pollhup : Bool) (s : JsonStream R) : JsonStream R :=
  if s.out.connecting then
    if pollout || pollhup then { s with out := { s.out with connecting := false } } else s
  else { s with got_pollhup := s.got_pollhup || pollhup }

/-- `json_stream_wait`. It does not return if the poll is to end by a timeout that is
    infinite, or by an event of a descriptor that is not there. -/
def json_stream_wait (timeout elapsed : Nat) (polled : Polled) (s : JsonStream R) :
    Option (Outcome Nat) × JsonStream R :=
  let deadline := json_stream_get_timeout s
  let timeout :=
    if deadline ≠ USEC_INFINITY then
      min timeout (usec_sub_unsigned deadline (usec_add s.last_activity elapsed))
    else timeout
  match polled with
  | .timed_out => (if timeout = USEC_INFINITY then none else some (.ok 0), s)
  | .error e => (some (if ERRNO_IS_TRANSIENT e then .ok 1 else .err e), s)
  | .ready pollout pollhup =>
    if s.out.output_fd < 0 then (none, s)
    else (some (.ok 1), json_stream_handle_revents pollout pollhup s)

/-- `json_stream_has_buffered_output` -/
def json_stream_has_buffered_output (s : JsonStream R) : Outcome Bool :=
  if s.out.output_buffer_size = 0 ∧ s.out.output_queue = [] then .ok false
  else if s.out.write_disconnected then .err Errno.ECONNRESET
  else .ok true

section model
variable [DoubleFormat R]

/-- `json_stream_write`, with the time of the last activity, which is set where bytes
    have been written. -/
def json_stream_write_at (e : FlushRound) (s : JsonStream R) : Outcome Nat × JsonStream R :=
  match json_stream_write e.write s.out with
  | (.ok n, out) =>
    if 0 < n ∧ out.write_disconnected = false then
      (.ok n, { s.active e.elapsed with out := out })
    else (.ok n, { s with out := out })
  | (r, out) => (r, { s with out := out })

/-- `json_stream_flush`: none if it has not returned after these rounds. -/
def json_stream_flush (ret : Nat) :
    List FlushRound → JsonStream R → Option (Outcome Nat) × JsonStream R
  | rounds, s =>
    match json_stream_has_buffered_output s with
    | .err e => (some (.err e), s)
    | .abort => (some .abort, s)
    | .ok false => (some (.ok ret), s)
    | .ok true =>
      match rounds with
      | [] => (none, s)
      | e :: rounds =>
        match json_stream_write_at e s with
        | (.err e, s) => (some (.err e), s)
        | (.abort, s) => (some .abort, s)
        | (.ok n, s) =>
          if 0 < n then json_stream_flush 1 rounds s
          else match json_stream_wait USEC_INFINITY e.elapsed e.polled s with
            | (none, s) => (none, s)
            | (some (.err e), s) =>
              if ERRNO_IS_TRANSIENT e then json_stream_flush ret rounds s else (some (.err e), s)
            | (some .abort, s) => (some .abort, s)
            | (some (.ok r), s) =>
              if r = 0 then (some .abort, s)     -- assert(r > 0)
              else json_stream_flush ret rounds s

end model

/-! ## Section 2: What a round does -/

section round
variable {s : JsonStream R} {out : JsonOutput R}

/-- With a deadline the wait can time out. -/
theorem wait_timed_out (h : json_stream_get_timeout s ≠ USEC_INFINITY) (elapsed : Nat) :
    json_stream_wait USEC_INFINITY elapsed .timed_out s = (some (.ok 0), s) := by
  have hle : json_stream_get_timeout s ≤ USEC_INFINITY := by
    unfold json_stream_get_timeout
    split
    · exact le_refl _
    · exact usec_add_le _ _ s.last_activity_le
  have hfinite : min USEC_INFINITY (usec_sub_unsigned (json_stream_get_timeout s)
      (usec_add s.last_activity elapsed)) ≠ USEC_INFINITY := by
    unfold usec_sub_unsigned
    rw [if_neg h]
    omega
  unfold json_stream_wait
  dsimp only
  rw [if_pos h, if_neg hfinite]

/-- A deadline that is infinite stays so. -/
theorem timeout_later (h : json_stream_get_timeout s = USEC_INFINITY) (n : Nat) :
    json_stream_get_timeout (s.active n) = USEC_INFINITY := by
  have hle := usec_add_le s.last_activity n s.last_activity_le
  have hmore : s.last_activity ≤ usec_add s.last_activity n := by
    unfold usec_add
    split
    · exact s.last_activity_le
    · exact le_add_right _ _
  unfold json_stream_get_timeout at *
  change (if s.phase ≠ _ then _ else usec_add (usec_add s.last_activity n) s.timeout) = _
  split
  · rfl
  · next hphase =>
    rw [if_neg hphase] at h
    generalize usec_add s.last_activity n = later at hle hmore
    unfold usec_add at *
    split
    · rfl
    · split at h
      · omega
      · omega

/-- What the functions that write leave of the state. -/
structure SameTarget (out out' : JsonOutput R) : Prop where
  ok : out'.Ok
  output_fd : out'.output_fd = out.output_fd
  connecting : out'.connecting = out.connecting

variable [DoubleFormat R]

/-- Where there is something to be written, there is something in the buffer once
    the queue has been formatted. -/
theorem format_queue_fills (env : Nat → FormatEnv) {i : Nat} {queue : List (QueueItem R)}
    (h : out.Ok) (hqueue : out.output_queue = queue)
    (hbuffered : 0 < out.output_buffer_size ∨ queue ≠ []) :
    Ensures (json_stream_format_queue_loop env i queue) out
      (fun _ t => SameTarget out t ∧ 0 < t.output_buffer_size) fun _ => True := by
  induction queue generalizing i out with
  | nil =>
    have hpos := hbuffered.resolve_right fun hne => hne rfl
    exact ensures_pure ⟨⟨h, rfl, rfl⟩, hpos⟩
  | cons q rest ih =>
    refine ensures_get_bind ?_
    split
    · next hfds => exact ensures_pure ⟨⟨h, rfl, rfl⟩, h.fds hfds⟩
    · split
      · next hstop => exact ensures_pure ⟨⟨h, rfl, rfl⟩, hstop.2⟩
      · refine ensures_check_bind trivial fun _ => ?_
        have hformat : Ensures (json_stream_format_json (env i) q) out
            (fun _ t => JsonOutput.Appended (out.text q) out t) fun _ => True := by
          unfold Ensures
          rcases format_json_run h (env i) q with ⟨t, hrun, ha, -⟩ | ⟨hrun, -⟩ | ⟨hrun, -⟩
          · rw [hrun]
            exact ha
          · rw [hrun]
            trivial
          · rw [hrun]
            trivial
        refine ensures_bind hformat fun _ t ha => ensures_modify_bind ?_
        have hpos : 0 < t.output_buffer_size := by
          rw [ha.size]
          exact Nat.add_pos_right _ (List.length_pos_iff.mpr (text_ne out q))
        refine ensures_mono (ih ⟨ha.inside, fun _ => hpos⟩ rfl (.inl hpos)) ?_ fun _ h => h
        rintro _ u ⟨hsame, hu⟩
        refine ⟨⟨hsame.ok, hsame.output_fd.trans ?_, hsame.connecting.trans ?_⟩, hu⟩
        · change t.output_fd = out.output_fd
          rw [ha.same]
        · change t.connecting = out.connecting
          rw [ha.same]

/-- A write on a stream with a descriptor does not abort. -/
theorem write_same_target (h : out.Ok) (env : JsonWriteEnv)
    (hbuffered : 0 < out.output_buffer_size ∨ out.output_queue ≠ [])
    (htarget : out.connecting = true ∨ 0 ≤ out.output_fd) :
    Ensures (json_stream_write env) out (fun _ t => SameTarget out t) fun _ => True := by
  refine ensures_get_bind ?_
  split
  · exact ensures_pure ⟨h, rfl, rfl⟩
  · next hconn =>
    have hfd := htarget.resolve_left hconn
    split
    · exact ensures_pure ⟨h, rfl, rfl⟩
    · refine ensures_bind (format_queue_fills env.format h rfl hbuffered) fun _ t ht => ?_
      obtain ⟨hsame, hpos⟩ := ht
      refine ensures_get_bind ?_
      rw [if_neg (ne_of_gt hpos), if_neg (by rw [hsame.output_fd]; omega)]
      split
      · split
        · exact ensures_pure hsame
        · split
          · exact ensures_modify_bind
              (ensures_pure ⟨⟨hsame.ok.inside, hsame.ok.fds⟩, hsame.output_fd, hsame.connecting⟩)
          · exact ensures_fail trivial
      · next k _ =>
        have hkept := kept_wrote hsame.ok (n := min (k + 1) t.output_buffer_size) (by omega)
          (min_le_right _ _)
        exact ensures_modify_bind
          (ensures_pure ⟨hkept.ok, hsame.output_fd, hsame.connecting⟩)

/-- The socket would block, and there is memory for all the messages. -/
def would_block : JsonWriteEnv := ⟨fun _ => ⟨true, true, true, true⟩, .error Errno.EAGAIN⟩

/-- Then a write either comes back with nothing done, or aborts. -/
theorem write_would_block (h : out.Ok) (hfits : WriteFits out)
    (hbuffered : 0 < out.output_buffer_size ∨ out.output_queue ≠ [])
    (hdisconnected : out.write_disconnected = false) : (json_stream_write would_block out).1 =
      if out.connecting = false ∧ out.output_fd < 0 then .abort else .ok 0 := by
  unfold json_stream_write
  rw [get_bind_run]
  by_cases hconn : out.connecting = true
  · rw [hconn]
    rfl
  · have hfills := format_queue_fills would_block.format (i := 0) h rfl hbuffered
    have hrun : json_stream_format_queue would_block.format out =
        json_stream_format_queue_loop would_block.format 0 out.output_queue out := rfl
    have hends := (format_queue_loop_run would_block.format (i := 0) h rfl).1
    rw [if_neg hconn, if_neg (by rw [hdisconnected]; exact Bool.false_ne_true), bind_run]
    unfold Ensures at hfills
    rw [← hrun] at hfills hends
    match hr : json_stream_format_queue would_block.format out with
    | (.abort, t) =>
      rw [hr] at hfills
      exact hfills.elim
    | (.err e, t) =>
      rw [hr] at hends
      cases hends with
      | no_memory hno =>
        obtain ⟨i, hi⟩ := hno
        cases hi
      | full hfull =>
        rcases hfits with hc | hd | hrest
        · exact absurd hc hconn
        · exact absurd (hdisconnected.symm.trans hd) Bool.false_ne_true
        · exact absurd hrest hfull
    | (.ok _, t) =>
      rw [hr] at hfills
      obtain ⟨hsame, hpos⟩ := hfills
      dsimp only
      rw [get_bind_run, if_neg (ne_of_gt hpos), hsame.output_fd]
      by_cases hfd : out.output_fd < 0
      · rw [if_pos hfd, if_pos ⟨Bool.eq_false_iff.mpr hconn, hfd⟩]
        rfl
      · rw [if_neg hfd, if_neg fun h => hfd h.2]
        rfl

end round

/-! ## Section 3: The loop -/

section loop
variable [DoubleFormat R] {s : JsonStream R} {out : JsonOutput R}

/-- A flush that has returned has written everything, or failed. -/
def Flushed (r : Option (Outcome Nat) × JsonStream R) : Prop :=
  match r.1 with
  | some (.ok _) => r.2.out.output_buffer_size = 0 ∧ r.2.out.output_queue = []
  | some .abort => False
  | _ => True

/-- The stream has a descriptor, and no deadline. -/
structure Undisturbed (s : JsonStream R) : Prop where
  ok : s.out.Ok
  deadline : json_stream_get_timeout s = USEC_INFINITY
  target : s.out.connecting = true ∨ 0 ≤ s.out.output_fd

omit [DoubleFormat R] in
theorem buffered_cases (s : JsonStream R) :
    (json_stream_has_buffered_output s = .ok false ∧ s.out.output_buffer_size = 0 ∧
      s.out.output_queue = []) ∨ json_stream_has_buffered_output s = .err Errno.ECONNRESET ∨
    (json_stream_has_buffered_output s = .ok true ∧ s.out.write_disconnected = false ∧
      (0 < s.out.output_buffer_size ∨ s.out.output_queue ≠ [])) := by
  unfold json_stream_has_buffered_output
  split
  · next hnone => exact .inl ⟨rfl, hnone⟩
  · next hsome =>
    cases hd : s.out.write_disconnected with
    | true => exact .inr (.inl rfl)
    | false =>
      refine .inr (.inr ⟨rfl, rfl, ?_⟩)
      by_cases hsize : s.out.output_buffer_size = 0
      · exact .inr fun hq => hsome ⟨hsize, hq⟩
      · exact .inl (pos_of_ne_zero hsize)

/-- A write leaves such a stream as it is, in this. -/
theorem Undisturbed.write (h : Undisturbed s)
    (hbuffered : 0 < s.out.output_buffer_size ∨ s.out.output_queue ≠ []) (e : FlushRound) :
    ∃ r t, json_stream_write_at e s = (r, t) ∧ r ≠ .abort ∧ (r.isOk → Undisturbed t) := by
  have hwrite := write_same_target h.ok e.write hbuffered h.target
  unfold Ensures at hwrite
  unfold json_stream_write_at
  match hr : json_stream_write e.write s.out with
  | (.abort, out) =>
    rw [hr] at hwrite
    exact hwrite.elim
  | (.err x, out) => exact ⟨_, _, rfl, nofun, nofun⟩
  | (.ok n, out) =>
    rw [hr] at hwrite
    have htarget : out.connecting = true ∨ 0 ≤ out.output_fd := by
      rw [hwrite.connecting, hwrite.output_fd]
      exact h.target
    dsimp only
    split
    · exact ⟨_, _, rfl, nofun, fun _ => ⟨hwrite.ok, timeout_later h.deadline _, htarget⟩⟩
    · exact ⟨_, _, rfl, nofun, fun _ => ⟨hwrite.ok, h.deadline, htarget⟩⟩

omit [DoubleFormat R] in
theorem Undisturbed.wait (h : Undisturbed s) (elapsed : Nat) (polled : Polled) :
    (json_stream_wait USEC_INFINITY elapsed polled s).1 ≠ some .abort ∧
    (json_stream_wait USEC_INFINITY elapsed polled s).1 ≠ some (.ok 0) ∧
    Undisturbed (json_stream_wait USEC_INFINITY elapsed polled s).2 := by
  have hinfinite : (if json_stream_get_timeout s ≠ USEC_INFINITY then
      min USEC_INFINITY (usec_sub_unsigned (json_stream_get_timeout s)
        (usec_add s.last_activity elapsed))
      else USEC_INFINITY) = USEC_INFINITY := if_neg fun hne => hne h.deadline
  unfold json_stream_wait
  cases polled with
  | timed_out =>
    dsimp only
    rw [if_pos hinfinite]
    exact ⟨nofun, nofun, h⟩
  | error e =>
    dsimp only
    split
    · exact ⟨nofun, nofun, h⟩
    · exact ⟨nofun, nofun, h⟩
  | ready pollout pollhup =>
    dsimp only
    split
    · exact ⟨nofun, nofun, h⟩
    · next hfd =>
      refine ⟨nofun, nofun, ?_⟩
      unfold json_stream_handle_revents
      split
      · split
        · exact ⟨⟨h.ok.inside, h.ok.fds⟩, h.deadline, .inr (Int.not_lt.mp hfd)⟩
        · exact h
      · exact ⟨h.ok, h.deadline, h.target⟩

/-- Such a stream is flushed. -/
theorem Undisturbed.flushed (h : Undisturbed s) (ret : Nat) (rounds : List FlushRound) :
    Flushed (json_stream_flush ret rounds s) := by
  induction rounds generalizing s ret with
  | nil =>
    unfold json_stream_flush
    rcases buffered_cases s with ⟨hb, hempty⟩ | hb | ⟨hb, -⟩
    · rw [hb]
      exact hempty
    · rw [hb]
      trivial
    · rw [hb]
      trivial
  | cons e rounds ih =>
    unfold json_stream_flush
    rcases buffered_cases s with ⟨hb, hempty⟩ | hb | ⟨hb, -, hbuffered⟩
    · rw [hb]
      exact hempty
    · rw [hb]
      trivial
    · rw [hb]
      dsimp only
      obtain ⟨r, t, hr, habort, hok⟩ := h.write hbuffered e
      rw [hr]
      cases r with
      | abort => exact absurd rfl habort
      | err x => trivial
      | ok n =>
        have ht := hok rfl
        dsimp only
        split
        · exact ih ht 1
        · obtain ⟨hno, hzero, hu⟩ := ht.wait e.elapsed e.polled
          match hw : json_stream_wait USEC_INFINITY e.elapsed e.polled t with
          | (none, u) => trivial
          | (some .abort, u) =>
            rw [hw] at hno
            exact absurd rfl hno
          | (some (.err x), u) =>
            rw [hw] at hu
            dsimp only
            split
            · exact ih hu ret
            · trivial
          | (some (.ok r), u) =>
            rw [hw] at hu hzero
            dsimp only
            split
            · next hr => exact absurd (by rw [hr]) hzero
            · exact ih hu ret

end loop

/-- A client has queued a call, and waits for a reply for at most 45 seconds. -/
def calling : JsonStream Float where
  out := full_enqueue [] full_start
  phase := .awaiting_reply
  last_activity := 1000
  timeout := 45000000
  got_pollhup := false
  last_activity_le := by decide

theorem calling_reachable : Reachable (output_system Float) ⟨calling.out, [empty_object []]⟩ :=
  full_enqueue_step [] (.init ⟨rfl, rfl, rfl, rfl, rfl, rfl⟩) (by decide +kernel)

end SdCompat.Json
