import SdCompat.SdBus.SocketWrite
import SdCompat.SdJson.Format
import SdCompat.SdJson.StreamParse

/-! # Writing to a JSON stream (json-stream.c)

    `json_stream_enqueue_full` formats a message into the output buffer at
    once where it can, and else puts it on the output queue with its
    descriptors. `json_stream_write` moves what is on the queue to the buffer,
    as far as the boundaries of descriptors allow, and writes what is in the
    buffer. Logging and the time of the last activity are left out, and so is
    the choice between `send` and `write`, which come back with the same.
-/

open Bytes Transition

namespace SdCompat.Json

open Call List Nat Errno
open Bus (Packet Sent)

variable {R : Type}

/-! ## Section 1: Model -/

/-- `JsonStreamQueueItem`: a message, with what
    `sd_json_variant_is_sensitive_recursive` says of it. -/
structure QueueItem (R : Type) where
  data : Variant R
  sensitive : Bool
  fds : List Int

/-- What `JsonStream` has for writing. The last field is a record: the bytes
    written to the descriptor, each with the descriptors passed along. -/
structure JsonOutput (R : Type) where
  setup : StreamSetup
  queue_max : Nat
  connecting : Bool
  write_disconnected : Bool
  output_fd : Int
  output_buffer : List UInt8
  output_buffer_index : Nat
  output_buffer_size : Nat
  output_buffer_sensitive : Bool
  output_fds : List Int
  output_queue : List (QueueItem R)
  written : List (UInt8 × List Int)

/-- The memory for formatting a message: for its text, for the delimiter, for
    a larger buffer, and for a copy of its descriptors. -/
structure FormatEnv where
  text : Bool
  delimiter : Bool
  buffer : Bool
  array : Bool

/-- There is memory for all of it. -/
def FormatEnv.enough (env : FormatEnv) : Bool :=
  env.text && env.delimiter && env.buffer && env.array

/-- What one call of `json_stream_write` meets: the memory for every message
    that is moved, and what is sent. -/
structure JsonWriteEnv where
  format : Nat → FormatEnv
  sent : Sent

namespace JsonOutput

/-- The bytes that are still to be written. -/
def content (s : JsonOutput R) : List UInt8 :=
  slice s.output_buffer s.output_buffer_index s.output_buffer_size

end JsonOutput

section model
variable [DoubleFormat R]

/-- The text of a message, and the delimiter. -/
def JsonOutput.text (s : JsonOutput R) (m : QueueItem R) : List UInt8 :=
  sd_json_variant_format m.data false ++ s.setup.delim

/-- The part of `json_stream_format_json` that puts the text into the output
    buffer. -/
def json_stream_append (env : FormatEnv) (text : List UInt8) : Call (JsonOutput R) PUnit := do
  let s ← get
  if s.output_buffer_size = 0 then
    modify fun s =>
      { s with
        output_buffer := text
        output_buffer_size := text.length
        output_buffer_index := 0
        output_buffer_sensitive := false }
  else if !s.output_buffer_sensitive && s.output_buffer_index = 0 then do
    check env.buffer ENOMEM
    modify fun s =>
      { s with
        output_buffer := s.output_buffer.take s.output_buffer_size ++ text
        output_buffer_size := s.output_buffer_size + text.length }
  else do
    check env.buffer ENOMEM
    modify fun s =>
      { s with
        output_buffer := s.content ++ text
        output_buffer_size := s.output_buffer_size + text.length
        output_buffer_index := 0 }

/-- `json_stream_format_json` -/
def json_stream_format_json (env : FormatEnv) (m : QueueItem R) : Call (JsonOutput R) PUnit := do
  let s ← get
  check env.text ENOMEM
  check (s.setup.delimiter.isNone || env.delimiter) ENOMEM
  check (s.output_buffer_size + (s.text m).length ≤ s.setup.buffer_max) ENOBUFS
  json_stream_append env (s.text m)
  modify fun s => { s with output_buffer_sensitive := s.output_buffer_sensitive || m.sensitive }

/-- The loop of `json_stream_format_queue`. -/
def json_stream_format_queue_loop (env : Nat → FormatEnv) :
    Nat → List (QueueItem R) → Call (JsonOutput R) PUnit
  | _, [] => pure ⟨⟩
  | i, q :: rest => do
    let s ← get
    if s.output_fds ≠ [] then pure ⟨⟩
    -- the descriptors must not go with the bytes of another message
    else if q.fds ≠ [] ∧ 0 < s.output_buffer_size then pure ⟨⟩
    else do
      check (q.fds.isEmpty || (env i).array) ENOMEM
      json_stream_format_json (env i) q
      modify fun s => { s with output_fds := q.fds, output_queue := rest }
      json_stream_format_queue_loop env (i + 1) rest

/-- `json_stream_format_queue` -/
def json_stream_format_queue (env : Nat → FormatEnv) : Call (JsonOutput R) PUnit := do
  let s ← get
  json_stream_format_queue_loop env 0 s.output_queue

/-- `json_stream_enqueue_full` -/
def json_stream_enqueue_full (env : FormatEnv) (item_mem : Bool) (m : QueueItem R) :
    Call (JsonOutput R) PUnit := do
  let s ← get
  -- without descriptors, and with nothing queued: directly into the buffer
  if m.fds.isEmpty && s.output_queue.isEmpty then json_stream_format_json env m
  else do
    check (s.output_queue.length < s.queue_max) ENOBUFS
    check item_mem ENOMEM
    modify fun s => { s with output_queue := s.output_queue ++ [m] }

/-- `n` bytes have been written, with the descriptors there were. -/
def JsonOutput.wrote (n : Nat) (s : JsonOutput R) : JsonOutput R :=
  { s with
    written := s.written ++ Packet.stream ⟨s.content.take n, s.output_fds⟩
    output_buffer :=
      if s.output_buffer_sensitive then
        replace s.output_buffer s.output_buffer_index (List.replicate n 0)
      else s.output_buffer
    output_buffer_size := s.output_buffer_size - n
    output_buffer_index :=
      if s.output_buffer_size - n = 0 then 0 else s.output_buffer_index + n
    output_buffer_sensitive := s.output_buffer_size - n ≠ 0 && s.output_buffer_sensitive
    output_fds := [] }

/-- `json_stream_write` -/
def json_stream_write (env : JsonWriteEnv) : Call (JsonOutput R) Nat := do
  let s ← get
  if s.connecting then pure 0
  else if s.write_disconnected then pure 0
  else do
    json_stream_format_queue env.format
    let s ← get
    if s.output_buffer_size = 0 then pure 0
    else if s.output_fd < 0 then abort
    else match env.sent with
      | .error e =>
        if ERRNO_IS_TRANSIENT e then pure 0
        else if ERRNO_IS_DISCONNECT e then do
          modify fun s => { s with write_disconnected := true }
          pure 1
        else fail e
      | .wrote k => do
        modify (·.wrote (min (k + 1) s.output_buffer_size))
        pure 1

end model

/-! ## Section 2: What a call does -/

namespace JsonOutput

/-- The buffer has the bytes that are to be written, and with descriptors to
    be passed there are some. -/
structure Ok (s : JsonOutput R) : Prop where
  inside : s.output_buffer_index + s.output_buffer_size ≤ s.output_buffer.length
  fds : s.output_fds ≠ [] → 0 < s.output_buffer_size

variable {s : JsonOutput R}

theorem Ok.length_content (h : s.Ok) : s.content.length = s.output_buffer_size :=
  length_slice h.inside

/-- Text was put behind what is in the buffer, and nothing else was changed. -/
structure Appended (text : List UInt8) (s s' : JsonOutput R) : Prop where
  same : s' = { s with
    output_buffer := s'.output_buffer
    output_buffer_index := s'.output_buffer_index
    output_buffer_size := s'.output_buffer_size
    output_buffer_sensitive := s'.output_buffer_sensitive }
  inside : s'.output_buffer_index + s'.output_buffer_size ≤ s'.output_buffer.length
  size : s'.output_buffer_size = s.output_buffer_size + text.length
  content : s'.content = s.content ++ text

variable {s' : JsonOutput R} {text : List UInt8}

theorem Appended.ok (h : s.Ok) (ha : Appended text s s') : s'.Ok := by
  refine ⟨ha.inside, fun hf => ?_⟩
  rw [ha.same] at hf
  rw [ha.size]
  exact lt_of_lt_of_le (h.fds hf) (le_add_right _ _)

/-- A mark on the buffer changes no bytes. -/
theorem Appended.mark (ha : Appended text s s') (b : Bool) :
    Appended text s { s' with output_buffer_sensitive := b } := by
  refine ⟨?_, ha.inside, ha.size, ha.content⟩
  rw [ha.same]

end JsonOutput

open JsonOutput

section run
variable [DoubleFormat R] {s : JsonOutput R}

omit [DoubleFormat R] in
/-- The text is put into the buffer, unless there is no memory. -/
theorem append_run (h : s.Ok) (env : FormatEnv) (text : List UInt8) :
    (∃ s', json_stream_append env text s = (.ok ⟨⟩, s') ∧ Appended text s s') ∨
      (json_stream_append env text s = (.err .ENOMEM, s) ∧ env.buffer = false) := by
  have hlen := h.length_content
  have hin := h.inside
  unfold json_stream_append
  rw [get_bind_run]
  by_cases hsize : s.output_buffer_size = 0
  · rw [if_pos hsize]
    refine .inl ⟨_, rfl, rfl, ?_, ?_, ?_⟩
    · exact le_of_eq (zero_add _)
    · show text.length = _
      omega
    · show slice text 0 text.length = _
      rw [hsize] at hlen
      rw [eq_nil_of_length_eq_zero hlen]
      simp [slice]
  rw [if_neg hsize]
  by_cases hplace : (!s.output_buffer_sensitive && s.output_buffer_index = 0) = true
  · rw [if_pos hplace]
    have hidx : s.output_buffer_index = 0 := by
      rw [Bool.and_eq_true, decide_eq_true_eq] at hplace
      exact hplace.2
    cases hmem : env.buffer with
    | false => exact .inr ⟨check_bind_run_false rfl _ _ _, rfl⟩
    | true =>
      have htake : (s.output_buffer.take s.output_buffer_size).length = s.output_buffer_size := by
        rw [length_take]
        omega
      refine .inl ⟨_, rfl, rfl, ?_, rfl, ?_⟩
      · show s.output_buffer_index + _ ≤ (s.output_buffer.take _ ++ text).length
        rw [length_append, htake, hidx, zero_add]
      · show slice (s.output_buffer.take s.output_buffer_size ++ text) s.output_buffer_index
          (s.output_buffer_size + text.length) = _
        rw [content, hidx, slice, slice, drop_zero, drop_zero]
        rw [take_of_length_le (by rw [length_append, htake])]
  · rw [if_neg hplace]
    cases hmem : env.buffer with
    | false => exact .inr ⟨check_bind_run_false rfl _ _ _, rfl⟩
    | true =>
      refine .inl ⟨_, rfl, rfl, ?_, rfl, ?_⟩
      · show 0 + (s.output_buffer_size + text.length) ≤ (s.content ++ text).length
        rw [length_append, hlen, zero_add]
      · show slice (s.content ++ text) 0 (s.output_buffer_size + text.length) = _
        rw [slice, drop_zero, take_of_length_le]
        rw [length_append, hlen]

/-- **Formatting a message**: it is put into the buffer, there is no memory,
    or it does not fit. -/
theorem format_json_run (h : s.Ok) (env : FormatEnv) (m : QueueItem R) :
    (∃ s', json_stream_format_json env m s = (.ok ⟨⟩, s') ∧ Appended (s.text m) s s' ∧
        s.output_buffer_size + (s.text m).length ≤ s.setup.buffer_max) ∨
      (json_stream_format_json env m s = (.err .ENOMEM, s) ∧ env.enough = false) ∨
      (json_stream_format_json env m s = (.err .ENOBUFS, s) ∧
        ¬ s.output_buffer_size + (s.text m).length ≤ s.setup.buffer_max) := by
  unfold json_stream_format_json
  rw [get_bind_run]
  cases htext : env.text with
  | false => exact .inr (.inl ⟨check_bind_run_false rfl _ _ _, by simp [FormatEnv.enough, htext]⟩)
  | true =>
    rw [check_bind_run_true rfl]
    cases hdelim : s.setup.delimiter.isNone || env.delimiter with
    | false =>
      refine .inr (.inl ⟨check_bind_run_false rfl _ _ _, ?_⟩)
      have hd : env.delimiter = false := (Bool.or_eq_false_iff.mp hdelim).2
      simp [FormatEnv.enough, hd]
    | true =>
      rw [check_bind_run_true rfl]
      by_cases hfits : s.output_buffer_size + (s.text m).length ≤ s.setup.buffer_max
      · rw [check_bind_run_true (decide_eq_true hfits)]
        rcases append_run h env (s.text m) with ⟨s', hrun, happ⟩ | ⟨hrun, hmem⟩
        · rw [bind_run_ok hrun]
          exact .inl ⟨_, rfl, happ.mark _, hfits⟩
        · rw [bind_run, hrun]
          exact .inr (.inl ⟨rfl, by simp [FormatEnv.enough, hmem]⟩)
      · rw [check_bind_run_false (decide_eq_false hfits)]
        exact .inr (.inr ⟨rfl, hfits⟩)

end run

/-! ## Section 3: What is still to be written -/

/-- The bytes of two parts, where the descriptors go with the first. -/
theorem packet_append {a b : List UInt8} {fds : List Int} (h : a ≠ [] ∨ fds = []) :
    Packet.stream ⟨a ++ b, fds⟩ = Packet.stream ⟨a, fds⟩ ++ Packet.stream ⟨b, []⟩ := by
  have hrest : ∀ l : List UInt8, l.map (fun b => (b, ([] : List Int))) = Packet.stream ⟨l, []⟩ := by
    intro l
    cases l with
    | nil => rfl
    | cons c l => rfl
  cases a with
  | nil =>
    obtain rfl : fds = [] := h.resolve_left fun hne => hne rfl
    rfl
  | cons c a =>
    show (c, fds) :: (a ++ b).map (fun b => (b, ([] : List Int))) = _
    rw [map_append, hrest b]
    rfl

section accounts
variable [DoubleFormat R]

/-- The bytes of messages, one after the other, the descriptors of each with
    its first byte. -/
def JsonOutput.packets (s : JsonOutput R) (messages : List (QueueItem R)) :
    List (UInt8 × List Int) :=
  messages.flatMap fun m => Packet.stream ⟨s.text m, m.fds⟩

variable {s s' : JsonOutput R}

theorem packets_congr (h : s'.setup = s.setup) (messages : List (QueueItem R)) :
    s'.packets messages = s.packets messages := by
  simp only [JsonOutput.packets, JsonOutput.text, h]

/-- All bytes of the messages, written and to be written, each with its
    descriptors. -/
def JsonOutput.stream (s : JsonOutput R) : List (UInt8 × List Int) :=
  s.written ++ Packet.stream ⟨s.content, s.output_fds⟩ ++ s.packets s.output_queue

/-- A call left the sequence of all messages as it was. -/
structure Preserved (s s' : JsonOutput R) : Prop where
  ok : s'.Ok
  setup : s'.setup = s.setup
  stream : s'.stream = s.stream

theorem Preserved.refl (h : s.Ok) : Preserved s s := ⟨h, rfl, rfl⟩

theorem Preserved.trans {s'' : JsonOutput R} (h : Preserved s s') (h' : Preserved s' s'') : Preserved s s'' :=
  ⟨h'.ok, h'.setup.trans h.setup, h'.stream.trans h.stream⟩

/-- Whether all messages fit that a call moves from the queue to the buffer,
    where `size` bytes are in the buffer: it stops after a message with
    descriptors, and before one when there are bytes in the buffer. -/
def QueueFits (s : JsonOutput R) : Nat → List (QueueItem R) → Prop
  | _, [] => True
  | size, q :: rest =>
    q.fds ≠ [] ∧ 0 < size ∨
      size + (s.text q).length ≤ s.setup.buffer_max ∧
        (q.fds ≠ [] ∨ QueueFits s (size + (s.text q).length) rest)

/-- The same, for a state with the same setup. -/
theorem queueFits_congr (h : s'.setup = s.setup) (size : Nat) (queue : List (QueueItem R)) :
    QueueFits s' size queue ↔ QueueFits s size queue := by
  induction queue generalizing size with
  | nil => rfl
  | cons q rest ih => simp only [QueueFits, JsonOutput.text, h, ih]

/-- A message is moved from the queue to the buffer. -/
theorem kept_move {q : QueueItem R} {rest : List (QueueItem R)} (h : s.Ok)
    (hqueue : s.output_queue = q :: rest) (hfds : s.output_fds = [])
    (hq : q.fds ≠ [] → s.output_buffer_size = 0) (ha : Appended (s.text q) s s')
    (hne : s.text q ≠ []) : Preserved s { s' with output_fds := q.fds, output_queue := rest } := by
  have hlen := h.length_content
  refine ⟨⟨ha.inside, fun _ => ?_⟩, by rw [ha.same], ?_⟩
  · show 0 < s'.output_buffer_size
    rw [ha.size]
    have := length_pos_iff.mpr hne
    omega
  · have hsetup : s'.setup = s.setup := by rw [ha.same]
    have hwritten : s'.written = s.written := by rw [ha.same]
    have hbytes : Packet.stream ⟨s.content ++ s.text q, q.fds⟩ =
        Packet.stream ⟨s.content, []⟩ ++ Packet.stream ⟨s.text q, q.fds⟩ := by
      by_cases hnil : q.fds = []
      · rw [hnil, packet_append (.inr rfl)]
      · have hc : s.content = [] := by
          rw [hq hnil] at hlen
          exact eq_nil_of_length_eq_zero hlen
        rw [hc]
        rfl
    have hrest : JsonOutput.packets { s' with output_fds := q.fds, output_queue := rest } rest =
        s.packets rest := packets_congr hsetup rest
    show s'.written ++ Packet.stream ⟨s'.content, q.fds⟩ ++ JsonOutput.packets _ rest = _
    rw [hrest, JsonOutput.stream, hqueue, hfds, hwritten, ha.content, hbytes]
    simp only [JsonOutput.packets, flatMap_cons, append_assoc]

theorem text_ne (s : JsonOutput R) (m : QueueItem R) : s.text m ≠ [] := fun h =>
  s.setup.delim_ne (append_eq_nil_iff.mp h).2

/-- How the loop of `json_stream_format_queue` ends: all was moved that could
    be, or there was no memory, or a message did not fit. -/
inductive QueueEnds (env : Nat → FormatEnv) (fits : Prop) : Outcome PUnit → Prop where
  | done (h : fits) : QueueEnds env fits (.ok ⟨⟩)
  | no_memory (h : ∃ i, (env i).enough = false) : QueueEnds env fits (.err .ENOMEM)
  | full (h : ¬ fits) : QueueEnds env fits (.err .ENOBUFS)

theorem format_queue_loop_run (env : Nat → FormatEnv) {i : Nat} {queue : List (QueueItem R)}
    (h : s.Ok) (hqueue : s.output_queue = queue) :
    QueueEnds env (s.output_fds ≠ [] ∨ QueueFits s s.output_buffer_size queue)
        (json_stream_format_queue_loop env i queue s).1 ∧
      Preserved s (json_stream_format_queue_loop env i queue s).2 := by
  induction queue generalizing i s with
  | nil => exact ⟨.done (.inr trivial), .refl h⟩
  | cons q rest ih =>
    rw [json_stream_format_queue_loop, get_bind_run]
    by_cases hfds : s.output_fds = []
    · rw [if_neg (fun hne => hne hfds)]
      by_cases hstop : q.fds ≠ [] ∧ 0 < s.output_buffer_size
      · rw [if_pos hstop]
        exact ⟨.done (.inr (.inl hstop)), .refl h⟩
      rw [if_neg hstop]
      cases harray : q.fds.isEmpty || (env i).array with
      | false =>
        have hno : (env i).enough = false := by
          simp [FormatEnv.enough, (Bool.or_eq_false_iff.mp harray).2]
        exact ⟨.no_memory ⟨i, hno⟩, .refl h⟩
      | true =>
        rw [check_bind_run_true rfl]
        rcases format_json_run h (env i) q with ⟨s', hrun, ha, hfits⟩ | ⟨hrun, hno⟩ | ⟨hrun, hfull⟩
        · rw [bind_run_ok hrun]
          have hkept := kept_move h hqueue hfds
            (fun hne => Nat.eq_zero_of_not_pos fun hpos => hstop ⟨hne, hpos⟩) ha (text_ne s q)
          obtain ⟨hends, hkept'⟩ := ih (i := i + 1) hkept.ok rfl
          refine ⟨?_, hkept.trans hkept'⟩
          -- the messages behind it fit if all do
          have hiff : (q.fds ≠ [] ∨ QueueFits { s' with output_fds := q.fds, output_queue := rest }
              s'.output_buffer_size rest) ↔
              (s.output_fds ≠ [] ∨ QueueFits s s.output_buffer_size (q :: rest)) := by
            rw [queueFits_congr hkept.setup, ha.size]
            simp only [hfds, ne_eq, not_true_eq_false, false_or]
            constructor
            · exact fun hr => .inr ⟨hfits, hr⟩
            · rintro (hs | ⟨-, hr⟩)
              · exact (hstop hs).elim
              · exact hr
          rwa [propext hiff] at hends
        · rw [bind_run, hrun]
          exact ⟨.no_memory ⟨i, hno⟩, .refl h⟩
        · rw [bind_run, hrun]
          refine ⟨.full ?_, .refl h⟩
          rintro (hne | hs | ⟨hfits, -⟩)
          · exact hne hfds
          · exact hstop hs
          · exact hfull hfits
    · rw [if_pos hfds]
      exact ⟨.done (.inl hfds), .refl h⟩

/-- Bytes are written, the descriptors with the first of them. -/
theorem kept_wrote (h : s.Ok) {n : Nat} (hn : 0 < n) (hle : n ≤ s.output_buffer_size) :
    Preserved s (s.wrote n) := by
  have hin := h.inside
  have hlen := h.length_content
  have hbuf : (s.wrote n).output_buffer.length = s.output_buffer.length := by
    show length (if s.output_buffer_sensitive then _ else _) = _
    split
    · rw [length_replace (by rw [length_replicate]; omega)]
    · rfl
  have hcontent : (s.wrote n).content = s.content.drop n := by
    show slice (if s.output_buffer_sensitive then _ else _)
      (if s.output_buffer_size - n = 0 then 0 else s.output_buffer_index + n)
      (s.output_buffer_size - n) = _
    have hmoved : slice (if s.output_buffer_sensitive then
        replace s.output_buffer s.output_buffer_index (replicate n 0) else s.output_buffer)
        (s.output_buffer_index + n) (s.output_buffer_size - n) = s.content.drop n := by
      rw [JsonOutput.content, ← slice_drop]
      split
      · rw [slice_replace_right (by rw [length_replicate]) (by omega)]
      · rfl
    by_cases hz : s.output_buffer_size - n = 0
    · rw [← hmoved, hz]
      simp [slice]
    · rw [if_neg hz]
      exact hmoved
  refine ⟨⟨?_, fun hf => (hf rfl).elim⟩, rfl, ?_⟩
  · show (if s.output_buffer_size - n = 0 then 0 else s.output_buffer_index + n) +
      (s.output_buffer_size - n) ≤ _
    split
    · omega
    · omega
  · have hne : s.content.take n ≠ [] := by
      intro hnil
      have := congrArg length hnil
      rw [length_take, length_nil] at this
      omega
    have hsplit := @packet_append _ (s.content.drop n) s.output_fds (.inl hne)
    rw [take_append_drop] at hsplit
    show s.written ++ Packet.stream ⟨s.content.take n, s.output_fds⟩ ++
      Packet.stream ⟨(s.wrote n).content, []⟩ ++ JsonOutput.packets _ s.output_queue = _
    have hqueue : (s.wrote n).packets s.output_queue = s.packets s.output_queue :=
      packets_congr rfl _
    rw [hcontent, hqueue, JsonOutput.stream, hsplit, append_assoc s.written]

/-- No message is moved that does not fit: the condition under which a write
    fails for no reason of its own. -/
def WriteFits (s : JsonOutput R) : Prop :=
  s.connecting = true ∨ s.write_disconnected = true ∨ s.output_fds ≠ [] ∨
    QueueFits s s.output_buffer_size s.output_queue

/-- How a write ends; the assertion is that there is a descriptor. -/
inductive WriteEnds (env : JsonWriteEnv) (fits : Prop) : Outcome Nat → Prop where
  | abort (h : fits) : WriteEnds env fits .abort
  | done {n : Nat} (h : fits) : WriteEnds env fits (.ok n)
  | no_memory (h : ∃ i, (env.format i).enough = false) : WriteEnds env fits (.err .ENOMEM)
  | full (h : ¬ fits) : WriteEnds env fits (.err .ENOBUFS)
  | error {e : Errno} (h : env.sent = .error e) (hfits : fits) : WriteEnds env fits (.err e)

/-- **One write**: no bytes are lost and none change their place, and it only
    fails for want of memory, for an error of the descriptor, or because a
    message that is moved does not fit. -/
theorem write_run (env : JsonWriteEnv) (h : s.Ok) : Preserved s (json_stream_write env s).2 ∧
      WriteEnds env (WriteFits s) (json_stream_write env s).1 := by
  unfold json_stream_write
  rw [get_bind_run]
  by_cases hconn : s.connecting = true
  · rw [if_pos hconn]
    exact ⟨.refl h, .done (.inl hconn)⟩
  rw [if_neg hconn]
  by_cases hdisc : s.write_disconnected = true
  · rw [if_pos hdisc]
    exact ⟨.refl h, .done (.inr (.inl hdisc))⟩
  rw [if_neg hdisc]
  have hfits : WriteFits s ↔ (s.output_fds ≠ [] ∨ QueueFits s s.output_buffer_size s.output_queue) := by
    simp [WriteFits, hconn, hdisc]
  have hloop := format_queue_loop_run env.format (i := 0) h rfl
  have hqueue : json_stream_format_queue env.format s =
      json_stream_format_queue_loop env.format 0 s.output_queue s := rfl
  rw [← hqueue, ← propext hfits] at hloop
  obtain ⟨hends, hkept⟩ := hloop
  rw [bind_run]
  match hrun : json_stream_format_queue env.format s with
  | (.abort, s1) =>
    rw [hrun] at hends
    cases hends
  | (.err e, s1) =>
    rw [hrun] at hends hkept
    refine ⟨hkept, ?_⟩
    cases hends with
    | no_memory hno => exact .no_memory hno
    | full hfull => exact .full hfull
  | (.ok _, s1) =>
    rw [hrun] at hends hkept
    have hall : WriteFits s := by
      cases hends with
      | done hall => exact hall
    dsimp only
    rw [get_bind_run]
    by_cases hsize : s1.output_buffer_size = 0
    · rw [if_pos hsize]
      exact ⟨hkept, .done hall⟩
    rw [if_neg hsize]
    by_cases hfd : s1.output_fd < 0
    · rw [if_pos hfd]
      exact ⟨hkept, .abort hall⟩
    rw [if_neg hfd]
    cases hsent : env.sent with
    | error e =>
      dsimp only
      by_cases htransient : ERRNO_IS_TRANSIENT e = true
      · rw [if_pos htransient]
        exact ⟨hkept, .done hall⟩
      rw [if_neg htransient]
      by_cases hdisconnect : ERRNO_IS_DISCONNECT e = true
      · rw [if_pos hdisconnect]
        have hok : Ok s1 := hkept.ok
        exact ⟨hkept.trans ⟨⟨hok.inside, hok.fds⟩, rfl, rfl⟩, .done hall⟩
      · rw [if_neg hdisconnect]
        exact ⟨hkept, .error hsent hall⟩
    | wrote k =>
      have hpos : 0 < min (k + 1) s1.output_buffer_size := by omega
      exact ⟨hkept.trans (kept_wrote hkept.ok hpos (min_le_right _ _)), .done hall⟩

/-- **One message more**: it is behind all others, or it was not taken and
    nothing has changed. -/
theorem enqueue_run (env : FormatEnv) (item_mem : Bool) (m : QueueItem R) (h : s.Ok) :
    let r := json_stream_enqueue_full env item_mem m s
    (r.1 = .ok ⟨⟩ ∧ r.2.Ok ∧ r.2.setup = s.setup ∧
        r.2.stream = s.stream ++ Packet.stream ⟨s.text m, m.fds⟩) ∨
      ∃ e, r.1 = .err e ∧ r.2 = s := by
  unfold json_stream_enqueue_full
  rw [get_bind_run]
  cases hfast : m.fds.isEmpty && s.output_queue.isEmpty with
  | true =>
    rw [if_pos rfl]
    rw [Bool.and_eq_true, List.isEmpty_iff, List.isEmpty_iff] at hfast
    obtain ⟨hfds, hqueue⟩ := hfast
    rcases format_json_run h env m with ⟨s', hrun, ha, -⟩ | ⟨hrun, -⟩ | ⟨hrun, -⟩
    · rw [hrun]
      refine .inl ⟨rfl, ha.ok h, by rw [ha.same], ?_⟩
      have hne : s.content ≠ [] ∨ s.output_fds = [] := by
        by_cases hnil : s.output_fds = []
        · exact .inr hnil
        · refine .inl fun hc => ?_
          have hlen := h.length_content
          have hpos := h.fds hnil
          rw [hc, length_nil] at hlen
          omega
      have hwritten : s'.written = s.written := by rw [ha.same]
      have hf : s'.output_fds = s.output_fds := by rw [ha.same]
      have hq : s'.output_queue = [] := by rw [ha.same]; exact hqueue
      rw [JsonOutput.stream, JsonOutput.stream, hwritten, hf, hq, hqueue, hfds, ha.content,
        packet_append hne]
      simp [JsonOutput.packets]
    · rw [hrun]
      exact .inr ⟨_, rfl, rfl⟩
    · rw [hrun]
      exact .inr ⟨_, rfl, rfl⟩
  | false =>
    rw [if_neg Bool.false_ne_true]
    cases hroom : decide (s.output_queue.length < s.queue_max) with
    | false => exact .inr ⟨_, rfl, rfl⟩
    | true =>
      cases item_mem with
      | false => exact .inr ⟨_, rfl, rfl⟩
      | true =>
        rw [check_bind_run_true rfl, check_bind_run_true rfl, modify_run]
        refine .inl ⟨rfl, ⟨h.inside, h.fds⟩, rfl, ?_⟩
        have hpackets : JsonOutput.packets { s with output_queue := s.output_queue ++ [m] }
            (s.output_queue ++ [m]) = s.packets (s.output_queue ++ [m]) := packets_congr rfl _
        show s.written ++ Packet.stream ⟨s.content, s.output_fds⟩ ++ JsonOutput.packets _ _ = _
        rw [hpackets, JsonOutput.stream]
        simp [JsonOutput.packets]

end accounts

/-! ## Section 4: Runs -/

/-- The calls on the writing side, with what they meet; and the connection is
    made. -/
inductive OutputCall (R : Type) where
  | enqueue (env : FormatEnv) (item_mem : Bool) (m : QueueItem R)
  | write (env : JsonWriteEnv)
  | connected

/-- A stream that is written to, and the messages it has accepted. -/
structure Sending (R : Type) where
  output : JsonOutput R
  accepted : List (QueueItem R)

section system
variable [DoubleFormat R]

/-- Messages are queued and written in any order. A call that aborts ends the
    process. -/
def output_system (R : Type) [DoubleFormat R] : System (Sending R) (OutputCall R) where
  init s := s.output.output_buffer_index = 0 ∧ s.output.output_buffer_size = 0 ∧
    s.output.output_fds = [] ∧ s.output.output_queue = [] ∧ s.output.written = [] ∧ s.accepted = []
  step s l s' :=
    match l with
    | .enqueue env item_mem m =>
      let r := json_stream_enqueue_full env item_mem m s.output
      r.1 ≠ .abort ∧ s'.output = r.2 ∧
        s'.accepted = if r.1.isOk then s.accepted ++ [m] else s.accepted
    | .write env =>
      let r := json_stream_write env s.output
      r.1 ≠ .abort ∧ s'.output = r.2 ∧ s'.accepted = s.accepted
    | .connected => s' = { s with output := { s.output with connecting := false } }

/-- What every call keeps: the bytes written and those to be written are the
    messages accepted. -/
structure Accounted (s : Sending R) : Prop where
  ok : s.output.Ok
  stream : s.output.stream = s.output.packets s.accepted

theorem accounted_of_reachable {s : Sending R} (h : Reachable (output_system R) s) :
    Accounted s := by
  refine Reachable.invariant (S := output_system R) (fun s hi => ?_) (fun s l s' hs hst => ?_) h
  · obtain ⟨hidx, hsize, hfds, hqueue, hwritten, haccepted⟩ := hi
    refine ⟨⟨by omega, fun hf => (hf hfds).elim⟩, ?_⟩
    rw [JsonOutput.stream, hqueue, hwritten, haccepted, content, hsize]
    simp [slice, Packet.stream]
  · cases l with
    | enqueue env item_mem m =>
      obtain ⟨-, hout, hacc⟩ := hst
      rcases enqueue_run env item_mem m hs.ok with ⟨hok, hinside, hsetup, hstream⟩ | ⟨e, he, hsame⟩
      · rw [hok] at hacc
        rw [← hout] at hinside hsetup hstream
        refine ⟨hinside, ?_⟩
        rw [hstream, hs.stream, packets_congr hsetup, hacc]
        simp [JsonOutput.packets, Outcome.isOk]
      · rw [he] at hacc
        rw [hsame] at hout
        have hacc' : s'.accepted = s.accepted := hacc
        exact ⟨hout ▸ hs.ok, by rw [hout, hacc', hs.stream]⟩
    | write env =>
      obtain ⟨-, hout, hacc⟩ := hst
      have hkept := (write_run env hs.ok).1
      rw [← hout] at hkept
      exact ⟨hkept.ok, by rw [hkept.stream, hs.stream, hacc, packets_congr hkept.setup]⟩
    | connected =>
      subst hst
      exact ⟨⟨hs.ok.inside, hs.ok.fds⟩, hs.stream⟩

/-- A write returns an error only when the descriptor or an allocation
    fails. -/
def FailsWithReason (s : JsonOutput R) : Prop :=
  ∀ env e, (json_stream_write env s).1 = .err e →
    (∃ i, (env.format i).enough = false) ∨ env.sent = .error e

/-- **Output order**: the bytes written are always the first of those of the
    messages accepted, in their order, the descriptors of each message with
    its first byte, and all others are still to be written. A write fails for
    no other reason than the descriptor or an allocation just when all
    messages fit that it moves from the queue to the buffer. -/
theorem json_output_in_order {s : Sending R} (hr : Reachable (output_system R) s) :
    s.output.written <+: s.output.packets s.accepted ∧
      s.output.stream = s.output.packets s.accepted ∧
      (FailsWithReason s.output ↔ WriteFits s.output) := by
  have hs := accounted_of_reachable hr
  refine ⟨?_, hs.stream, fun hfails => ?_, fun hfits env e he => ?_⟩
  · rw [← hs.stream, JsonOutput.stream, append_assoc]
    exact prefix_append _ _
  · -- with enough memory, and a socket that takes a byte
    by_contra hfull
    let env : JsonWriteEnv := ⟨fun _ => ⟨true, true, true, true⟩, .wrote 0⟩
    have hends := (write_run env hs.ok).2
    have hreason := hfails env
    generalize (json_stream_write env s.output).1 = r at hends hreason
    cases hends with
    | abort h => exact hfull h
    | done h => exact hfull h
    | no_memory h =>
      obtain ⟨i, hi⟩ := h
      cases hi
    | full =>
      rcases hreason _ rfl with ⟨i, hi⟩ | hsent
      · cases hi
      · cases hsent
    | error hsent => cases hsent
  · have hends := (write_run env hs.ok).2
    rw [he] at hends
    cases hends with
    | no_memory h => exact .inl h
    | full h => exact (h hfits).elim
    | error h => exact .inr h

end system

/-! ### Messages that do not fit together -/

section full

/-- A stream with room for eight bytes of output. -/
def full_start : JsonOutput Float where
  setup :=
    { delimiter := none, buffer_max := 8, read_chunk := 16, bounded_reads := false,
      prefer_read := false, input_sensitive := false, allow_fd_passing := false,
      buffer_max_pos := by decide, read_chunk_pos := read_chunk_16_pos,
      delimiter_nul := no_delimiter_nul }
  queue_max := 4
  connecting := false
  write_disconnected := false
  output_fd := 5
  output_buffer := []
  output_buffer_index := 0
  output_buffer_size := 0
  output_buffer_sensitive := false
  output_fds := []
  output_queue := []
  written := []

/-- There is memory for everything. -/
def plenty : FormatEnv := ⟨true, true, true, true⟩

/-- An empty object, three bytes with the delimiter. -/
def empty_object (fds : List Int) : QueueItem Float := ⟨.object [], false, fds⟩

/-- The state after another object was put on the queue. -/
def full_enqueue (fds : List Int) (s : JsonOutput Float) : JsonOutput Float :=
  (json_stream_enqueue_full plenty true (empty_object fds) s).2

/-- An object with a descriptor is put on the queue, and so are three more
    behind it. -/
def full_queued : JsonOutput Float :=
  full_enqueue [] (full_enqueue [] (full_enqueue [] (full_enqueue [3] full_start)))

/-- The socket takes all that is in the buffer. -/
def takes_all : JsonWriteEnv := ⟨fun _ => plenty, .wrote 100⟩

/-- The first object has been written. -/
def full_written : JsonOutput Float := (json_stream_write takes_all full_queued).2

/-- The objects that were accepted. -/
def full_accepted : List (QueueItem Float) :=
  [empty_object [3], empty_object [], empty_object [], empty_object []]

/-- Putting an object on the queue is a step. -/
theorem full_enqueue_step {o : JsonOutput Float} {acc : List (QueueItem Float)} (fds : List Int)
    (h : Reachable (output_system Float) ⟨o, acc⟩)
    (hok : (json_stream_enqueue_full plenty true (empty_object fds) o).1 = .ok ⟨⟩) :
    Reachable (output_system Float) ⟨full_enqueue fds o, acc ++ [empty_object fds]⟩ := by
  refine h.step (a := .enqueue plenty true (empty_object fds)) ?_
  refine ⟨fun habort => ?_, rfl, (if_pos (by rw [hok]; rfl)).symm⟩
  rw [hok] at habort
  cases habort

theorem full_reachable : Reachable (output_system Float) ⟨full_written, full_accepted⟩ := by
  have h0 : Reachable (output_system Float) ⟨full_start, []⟩ :=
    .init ⟨rfl, rfl, rfl, rfl, rfl, rfl⟩
  have h1 := full_enqueue_step [3] h0 (by decide +kernel)
  have h2 := full_enqueue_step [] h1 (by decide +kernel)
  have h3 := full_enqueue_step [] h2 (by decide +kernel)
  have h4 := full_enqueue_step [] h3 (by decide +kernel)
  refine h4.step (a := .write takes_all) ?_
  exact ⟨by decide +kernel, rfl, rfl⟩

/-- The three objects do not fit into the buffer together, so every further
    write fails, though the socket takes everything. -/
theorem full_fails : ¬ ∀ s : Sending Float, Reachable (output_system Float) s →
    FailsWithReason s.output := by
  intro h
  have herr : (json_stream_write takes_all full_written).1 = .err ENOBUFS := by
    decide +kernel
  rcases h _ full_reachable takes_all _ herr with ⟨i, hi⟩ | hsent
  · cases hi
  · cases hsent

/-- What was written then is the first object, its descriptor with its first
    byte. -/
theorem json_output_in_order_full :
    full_written.written = [(123, [3]), (125, []), (0, [])] ∧
      full_written.written <+: full_written.packets full_accepted :=
  ⟨by decide +kernel, (json_output_in_order full_reachable).1⟩

end full

end SdCompat.Json
