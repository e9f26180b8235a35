import Mathlib.Data.List.Forall2
import SdCompat.SdBus.SocketRead

/-! # Framing (bus-socket.c)

    A stream of messages is read in pieces of any size; the descriptors of a
    message come along with its first byte. The messages that get onto the
    receive queue do not depend on the pieces.
-/

open Bytes Transition

namespace SdCompat.Bus

open Call List Prod

/-! ## Section 1: Model -/

/-- A message as it goes over the socket. -/
structure Packet where
  bytes : List UInt8
  fds : List Int
  deriving DecidableEq, Repr

namespace Packet

/-- Its bytes, its descriptors attached to the first of them. -/
def stream (p : Packet) : List (UInt8 × List Int) :=
  match p.bytes with
  | [] => []
  | b :: bs => (b, p.fds) :: bs.map fun b => (b, [])

/-- The message that is made of it. -/
def Makes (p : Packet) (m : SdBusMessage) : Prop :=
  bus_message_from_malloc .plenty p.bytes p.fds false = .ok m

/-- A message that is accepted. -/
def WellFormed (p : Packet) : Prop := ∃ m, p.Makes m

@[simp] theorem length_stream (p : Packet) : p.stream.length = p.bytes.length := by
  unfold stream
  split
  · next h => rw [h]; rfl
  · next h => rw [h]; simp

@[simp] theorem stream_bytes (p : Packet) : p.stream.map fst = p.bytes := by
  unfold stream
  split
  · next h => rw [h]; rfl
  · next h => rw [h]; simp [Function.comp_def]

/-- Every byte but the first comes without descriptors. -/
theorem stream_fds {p : Packet} (h : p.bytes ≠ []) : p.stream.flatMap snd = p.fds := by
  unfold stream
  split
  · next hnil => exact absurd hnil h
  · simp

/-- A message has a fixed header at least. -/
theorem WellFormed.sizeof_header_le {p : Packet} (h : p.WellFormed) :
    sizeof_header ≤ p.bytes.length := by
  obtain ⟨m, hm⟩ := h
  obtain ⟨raw, hraw, -⟩ := Outcome.bind_eq_ok.mp hm
  unfold message_from_header at hraw
  split at hraw
  · next h =>
    by_cases hlt : p.bytes.length < sizeof_header
    · rw [if_pos hlt] at hraw
      cases hraw
    · omega
  · cases hraw

end Packet

/-- Messages one after the other. -/
def wire (packets : List Packet) : List (UInt8 × List Int) := packets.flatMap Packet.stream

theorem wire_bytes (packets : List Packet) :
    (wire packets).map fst = packets.flatMap Packet.bytes := by
  simp [wire, map_flatMap]

/-- A bus that reads, the messages taken from its queue so far, and whether
    every call since the buffer was empty, or since a call found nothing to
    read, has succeeded. -/
structure Receiving where
  bus : BusInput
  dispatched : List Received
  settled : Bool

inductive ReadStep where
  | read (env : SocketEnv)
  | dispatch

/-- What the kernel may hand over to a bus that has read so far: the next
    bytes, no more than there is room for, and the descriptors attached to
    them, which only a socket can pass. There is memory to keep them. -/
def Supplies (stream : List (UInt8 × List Int)) (bus : BusInput) (env : SocketEnv) : Prop :=
  (stream.flatMap snd ≠ [] → env.enotsock = false) ∧
  match env.recv with
  | .error _ => True
  | .data bytes cmsgs trunc ctrunc =>
    let chunk := (stream.drop bus.input.length).take bytes.length
    bytes = chunk.map fst ∧
    (∀ need, bus_socket_read_message_need bus.rbuffer = .ok need →
      bytes.length ≤ need - bus.rbuffer.length) ∧
    scm_rights cmsgs =
      (if chunk.flatMap snd = [] then [] else [chunk.flatMap snd]) ∧
    (scm_pidfds cmsgs).length ≤ 1 ∧
    (chunk.flatMap snd ≠ [] → env.fds_mem = true) ∧
    trunc = false ∧ ctrunc = false

/-- How the outcome of a call changes `settled`. -/
def settles (settled : Bool) : Outcome Nat → Bool
  | .ok 0 => true
  | .ok _ => settled
  | _ => false

/-- Receiving a stream of messages. What the authentication has left in the
    buffer came without descriptors. -/
def receiving (packets : List Packet) : System Receiving ReadStep where
  init s :=
    s.bus.input = s.bus.rbuffer ∧
    s.bus.rbuffer <+: packets.flatMap Packet.bytes ∧
    ((wire packets).take s.bus.rbuffer.length).flatMap snd = [] ∧
    s.bus.fds = [] ∧ s.bus.got_ctrunc = false ∧ s.bus.rqueue = [] ∧ s.dispatched = [] ∧
    s.settled = s.bus.rbuffer.isEmpty ∧
    ((wire packets).flatMap snd ≠ [] → s.bus.can_fds = true ∧ s.bus.prefer_readv = false)
  step s a s' :=
    match a with
    | .read env =>
      Supplies (wire packets) s.bus env ∧
      s' = { s with
        bus := (bus_socket_read_message env s.bus).2
        settled := settles s.settled (bus_socket_read_message env s.bus).1 }
    | .dispatch =>
      ∃ r rs, s.bus.rqueue = r :: rs ∧
        s' = { s with
          bus := { s.bus with rqueue := rs }
          dispatched := s.dispatched ++ [r] }

/-- The messages put on the queue so far. -/
def Receiving.appended (s : Receiving) : List Received := s.dispatched ++ s.bus.rqueue

/-! ## Section 2: The buffer -/

/-- What is in the buffer: of the messages still to be made, the bytes
    `taken`, with descriptors of the first message only; `unread` is to come. -/
structure Buffered (rest : List Packet) (taken unread : List (UInt8 × List Int))
    (bus : BusInput) : Prop where
  wire_eq : wire rest = taken ++ unread
  rbuffer : taken.map fst = bus.rbuffer
  fds : taken.flatMap snd = bus.fds
  got_ctrunc : bus.got_ctrunc = false
  own : ∀ p ps, rest = p :: ps → (taken.drop p.bytes.length).flatMap snd = []

section buffered
variable {p : Packet} {rest ps : List Packet} {taken unread : List (UInt8 × List Int)}
variable {bus : BusInput}

theorem Buffered.length (h : Buffered rest taken unread bus) :
    taken.length = bus.rbuffer.length := by
  rw [← h.rbuffer, length_map]

section
variable (h : Buffered (p :: ps) taken unread bus)
include h

/-- Behind the first message, where the buffer reaches that far. -/
theorem Buffered.split (hle : p.bytes.length ≤ taken.length) :
    taken = p.stream ++ taken.drop p.bytes.length ∧
      wire ps = taken.drop p.bytes.length ++ unread := by
  have hw : p.stream ++ wire ps = taken ++ unread := h.wire_eq
  have hpre : p.stream <+: taken :=
    prefix_of_prefix_length_le ⟨wire ps, hw⟩ ⟨unread, rfl⟩ (by simpa using hle)
  obtain ⟨tail, rfl⟩ := hpre
  have hdrop : (p.stream ++ tail).drop p.bytes.length = tail := by
    rw [← p.length_stream, drop_left]
  rw [hdrop]
  rw [append_assoc] at hw
  exact ⟨rfl, append_cancel_left hw⟩

/-- The bytes of a whole message in the buffer. -/
theorem Buffered.whole (hle : p.bytes.length ≤ taken.length) :
    bus.rbuffer = p.bytes ++ (taken.drop p.bytes.length).map fst := by
  have hs := (h.split hle).1
  calc bus.rbuffer = taken.map fst := h.rbuffer.symm
    _ = (p.stream ++ taken.drop p.bytes.length).map fst := by rw [← hs]
    _ = p.bytes ++ (taken.drop p.bytes.length).map fst := by
      rw [map_append, p.stream_bytes]

/-- The descriptors are those of the first message. -/
theorem Buffered.fds_of_whole (hp : p.WellFormed) (hle : p.bytes.length ≤ taken.length) :
    bus.fds = p.fds := by
  have hs := (h.split hle).1
  have hne : p.bytes ≠ [] := by
    intro hnil
    have h16 := hp.sizeof_header_le
    rw [hnil] at h16
    cases h16
  calc bus.fds = taken.flatMap snd := h.fds.symm
    _ = (p.stream ++ taken.drop p.bytes.length).flatMap snd := by rw [← hs]
    _ = p.fds := by
      rw [flatMap_append, Packet.stream_fds hne, h.own p ps rfl, append_nil]

end

/-- With a fixed header in the buffer, a message is still to be made, and the
    bytes it needs are known (or too many). -/
theorem Buffered.need (h : Buffered rest taken unread bus) (hwf : ∀ p ∈ rest, p.WellFormed) :
    (taken.length < sizeof_header ∧
      bus_socket_read_message_need bus.rbuffer = .ok (sizeof_header + 8)) ∨
    (sizeof_header ≤ taken.length ∧ ∃ p ps, rest = p :: ps ∧
      bus_socket_read_message_need bus.rbuffer = .ok p.bytes.length) ∨
    ∃ e, bus_socket_read_message_need bus.rbuffer = .err e := by
  by_cases hlt : taken.length < sizeof_header
  · left
    refine ⟨hlt, ?_⟩
    unfold bus_socket_read_message_need
    rw [if_pos (by rw [← h.length]; exact hlt)]
  · right
    have h16 : sizeof_header ≤ taken.length := by omega
    match rest, h, hwf with
    | [], h, _ =>
      have hnil : taken ++ unread = [] := h.wire_eq.symm
      rw [(append_eq_nil_iff.mp hnil).1] at h16
      cases h16
    | p :: ps, h, hwf =>
      have hp := hwf p mem_cons_self
      obtain ⟨m, hm⟩ := id hp
      -- the buffer and the message have the fixed header in common
      have hbytes : p.bytes ++ (wire ps).map fst = bus.rbuffer ++ unread.map fst := by
        rw [← h.rbuffer, ← p.stream_bytes, ← map_append, ← map_append, ← h.wire_eq]
        rfl
      have hb16 : sizeof_header ≤ bus.rbuffer.length := by
        rw [← h.length]
        exact h16
      have hneed := read_message_need_append (t := (wire ps).map fst) hp.sizeof_header_le
      rw [hbytes, read_message_need_append hb16, read_message_need_of_accepted hm] at hneed
      by_cases hmax : BUS_MESSAGE_SIZE_MAX ≤ p.bytes.length
      · rw [if_pos hmax] at hneed
        exact Or.inr ⟨_, hneed⟩
      · rw [if_neg hmax] at hneed
        exact Or.inl ⟨h16, p, ps, rfl, hneed⟩

/-- A whole message that is in the buffer is made and put on the queue, or
    all stays as it is. -/
theorem make_message_buffered (env : SocketEnv) (h : Buffered (p :: ps) taken unread bus)
    (hp : p.WellFormed) (hle : p.bytes.length ≤ taken.length) :
    (∃ e, bus_socket_make_message env p.bytes.length bus = (.err e, bus)) ∨
    ∃ m, p.Makes m ∧ bus_socket_make_message env p.bytes.length bus =
      (.ok 1, (bus.advance p.bytes.length).enqueue p.bytes m) := by
  obtain ⟨m, hm⟩ := id hp
  have htake : bus.rbuffer.take p.bytes.length = p.bytes := by
    rw [h.whole hle, take_left]
  rcases make_message_cases env p.bytes.length bus with
    ⟨habort, -⟩ | ⟨e, he⟩ | ⟨hbad, -⟩ | ⟨m', hm', hrun⟩
  · rw [htake, h.fds_of_whole hp hle, h.got_ctrunc] at habort
    rcases habort with hlt | habort
    · rw [← h.length] at hlt
      omega
    · rcases bus_message_from_malloc_memory hm env.parse with hok | hok
      · rw [hok] at habort
        cases habort
      · rw [hok] at habort
        cases habort
  · exact Or.inl ⟨e, he⟩
  · rw [htake, h.fds_of_whole hp hle, h.got_ctrunc] at hbad
    rcases bus_message_from_malloc_memory hm env.parse with hok | hok
    · rw [hok] at hbad
      cases hbad
    · rw [hok] at hbad
      cases hbad
  · right
    rw [htake, h.fds_of_whole hp hle, h.got_ctrunc] at hm'
    rw [htake] at hrun
    refine ⟨m, hm, ?_⟩
    rcases bus_message_from_malloc_memory hm env.parse with hok | hok
    · rw [hok] at hm'
      cases hm'
      exact hrun
    · rw [hok] at hm'
      cases hm'

/-- The buffer when the first message has been made of it. -/
theorem Buffered.advance (h : Buffered (p :: ps) taken unread bus) (hp : p.WellFormed)
    (hle : p.bytes.length ≤ taken.length) (m : SdBusMessage) :
    Buffered ps (taken.drop p.bytes.length) unread
      ((bus.advance p.bytes.length).enqueue p.bytes m) where
  wire_eq := (h.split hle).2
  rbuffer := by
    show _ = bus.rbuffer.drop p.bytes.length
    rw [← h.rbuffer, map_drop]
  fds := h.own p ps rfl
  got_ctrunc := rfl
  own := by
    intro q qs hq
    -- nothing of what is left has descriptors
    have hnil := flatMap_eq_nil_iff.mp (h.own p ps rfl)
    refine flatMap_eq_nil_iff.mpr fun x hx => hnil x (mem_of_mem_drop hx)

/-- The first of the messages to be made is not in the buffer as a whole. -/
def NoWhole (rest : List Packet) (taken : List (UInt8 × List Int)) : Prop :=
  ∀ p ps, rest = p :: ps → taken.length < p.bytes.length

/-- The buffer is the same when these fields are. -/
theorem Buffered.congr {bus' : BusInput} (h : Buffered rest taken unread bus)
    (hr : bus'.rbuffer = bus.rbuffer) (hf : bus'.fds = bus.fds)
    (hc : bus'.got_ctrunc = bus.got_ctrunc) : Buffered rest taken unread bus' where
  wire_eq := h.wire_eq
  rbuffer := by rw [hr, h.rbuffer]
  fds := by rw [hf, h.fds]
  got_ctrunc := by rw [hc, h.got_ctrunc]
  own := h.own

/-- The end of `bus_socket_read_message`, where the buffer has little more
    than one message. -/
theorem read_done_buffered (env : SocketEnv) (h : Buffered rest taken unread bus)
    (hwf : ∀ p ∈ rest, p.WellFormed)
    (hbound : ∀ p ps, rest = p :: ps → taken.length < p.bytes.length + sizeof_header) :
    (bus_socket_read_done env bus = (.ok 1, bus) ∧ NoWhole rest taken) ∨
    (∃ e, bus_socket_read_done env bus = (.err e, bus)) ∨
    ∃ p ps m, rest = p :: ps ∧ p.bytes.length ≤ taken.length ∧ p.Makes m ∧
      NoWhole ps (taken.drop p.bytes.length) ∧ bus_socket_read_done env bus =
        (.ok 1, (bus.advance p.bytes.length).enqueue p.bytes m) := by
  unfold bus_socket_read_done
  rw [get_bind_run]
  rcases h.need hwf with ⟨hlt, hneed⟩ | ⟨h16, p, ps, rfl, hneed⟩ | ⟨e, hneed⟩
  · left
    constructor
    · rw [lift_bind_run_ok hneed, if_neg]
      · rfl
      · rw [← h.length]
        omega
    · intro p ps hrest
      have hp := (hwf p (by rw [hrest]; exact mem_cons_self)).sizeof_header_le
      omega
  · rw [lift_bind_run_ok hneed]
    have hp := hwf p mem_cons_self
    by_cases hle : p.bytes.length ≤ taken.length
    · rw [if_pos (by rw [← h.length]; exact hle)]
      right
      rcases make_message_buffered env h hp hle with he | ⟨m, hm, hrun⟩
      · exact Or.inl he
      · right
        refine ⟨p, ps, m, rfl, hle, hm, ?_, hrun⟩
        intro q qs hq
        have hq16 := (hwf q (by rw [hq]; simp)).sizeof_header_le
        have := hbound p ps rfl
        rw [length_drop]
        omega
    · left
      rw [if_neg (by rw [← h.length]; exact hle)]
      refine ⟨rfl, ?_⟩
      intro q qs hq
      cases hq
      omega
  · right
    left
    refine ⟨e, ?_⟩
    rw [bind_run, lift_run, hneed]

/-- Ancillary data with the descriptors `fds`, which there is memory for: they
    are with the bus afterwards. -/
theorem process_cmsg_supplied (bus : BusInput) {mem allow_fds : Bool} {cmsgs : List Cmsg} {fds : List Int}
    (hrights : scm_rights cmsgs = if fds = [] then [] else [fds])
    (hpidfds : (scm_pidfds cmsgs).length ≤ 1)
    (hmem : fds ≠ [] → mem = true ∧ allow_fds = true) (hct : bus.got_ctrunc = false) :
    bus_process_cmsg mem cmsgs false allow_fds bus =
        (.ok ⟨⟩, { bus with fds := bus.fds ++ fds, closed := bus.closed ++ scm_pidfds cmsgs }) ∨
      ∃ e, bus_process_cmsg mem cmsgs false allow_fds bus =
        (.err e, { bus with fds := bus.fds ++ fds, closed := bus.closed ++ scm_pidfds cmsgs }) := by
  unfold bus_process_cmsg
  have hone : ¬ (decide (1 < (scm_rights cmsgs).length) ||
      decide (1 < (scm_pidfds cmsgs).length)) = true := by
    rw [hrights]
    split <;> simp <;> omega
  rw [if_neg hone]
  by_cases hf : fds = []
  · subst hf
    rw [hrights]
    cases allow_fds with
    | false =>
      left
      rw [append_nil]
      rfl
    | true =>
      cases mem with
      | true =>
        simp [BusInput.close, hct]
      | false =>
        right
        simp [BusInput.close, hct]
  · obtain ⟨rfl, rfl⟩ := hmem hf
    rw [if_neg hf] at hrights
    rw [hrights]
    simp [BusInput.close, hct]

end buffered

/-! ## Section 3: A call -/

/-- The state of reading: the messages `done` have been put on the queue, and
    `rest` is to come. Where `settled`, no whole message waits. -/
structure Framed (packets : List Packet) (dispatched : List Received) (bus : BusInput)
    (settled : Prop) (done rest : List Packet) (taken unread : List (UInt8 × List Int)) :
    Prop where
  split : packets = done ++ rest
  made : Forall₂ (fun p r => r.buffer = p.bytes ∧ p.Makes r.message) done
    (dispatched ++ bus.rqueue)
  input : bus.input = done.flatMap Packet.bytes ++ bus.rbuffer
  buffered : Buffered rest taken unread bus
  nowhole : settled → NoWhole rest taken
  socket : (wire packets).flatMap snd ≠ [] → bus.can_fds = true ∧ bus.prefer_readv = false

section framed
variable {packets done rest : List Packet} {dispatched : List Received} {bus bus' : BusInput}
variable {settled settled' : Prop} {taken unread : List (UInt8 × List Int)}

/-- Some messages are made and the others are not. -/
def FramedSome (packets : List Packet) (dispatched : List Received) (bus : BusInput)
    (settled : Prop) : Prop :=
  ∃ done rest taken unread, Framed packets dispatched bus settled done rest taken unread

section
variable (h : Framed packets dispatched bus settled done rest taken unread)
include h

/-- A call that returns an error promises nothing about the buffer. -/
theorem Framed.of_err {x : Outcome Nat × BusInput} {e : Errno} (hx : x = (.err e, bus)) :
    FramedSome packets dispatched x.2 (x.1.isOk = true) := by
  subst hx
  refine ⟨done, rest, taken, unread, { h with nowhole := ?_ }⟩
  intro hok
  cases hok

/-- What the kernel hands over next. -/
theorem Framed.unread_eq : (wire packets).drop bus.input.length = unread := by
  have hw : wire packets = (wire done ++ taken) ++ unread := by
    rw [h.split]
    unfold wire
    rw [flatMap_append, append_assoc]
    exact congrArg _ h.buffered.wire_eq
  have hlen : bus.input.length = (wire done ++ taken).length := by
    rw [h.input, length_append, length_append, ← h.buffered.length, ← wire_bytes,
      length_map]
  rw [hw, hlen, drop_left]

theorem Framed.rest_wellFormed (hwf : ∀ p ∈ packets, p.WellFormed) : ∀ p ∈ rest, p.WellFormed := by
  intro p hp
  apply hwf
  rw [h.split]
  exact mem_append_right _ hp

/-- Fields that framing does not look at may change. -/
theorem Framed.congr (hbuf : Buffered rest taken unread bus') (hq : bus'.rqueue = bus.rqueue)
    (hi : bus'.input = done.flatMap Packet.bytes ++ bus'.rbuffer)
    (hsock : (wire packets).flatMap snd ≠ [] → bus'.can_fds = bus.can_fds ∧ bus'.prefer_readv = bus.prefer_readv)
    (hs : settled' → NoWhole rest taken) :
    Framed packets dispatched bus' settled' done rest taken unread where
  split := h.split
  made := by
    rw [hq]
    exact h.made
  input := hi
  buffered := hbuf
  nowhole := hs
  socket := by
    intro hne
    obtain ⟨h1, h2⟩ := hsock hne
    rw [h1, h2]
    exact h.socket hne

end

/-- The first of the messages to be made is put on the queue. -/
theorem Framed.advance {p : Packet} {ps : List Packet} {m : SdBusMessage}
    (h : Framed packets dispatched bus settled done (p :: ps) taken unread)
    (hp : p.WellFormed) (hle : p.bytes.length ≤ taken.length) (hm : p.Makes m)
    (hs : settled' → NoWhole ps (taken.drop p.bytes.length)) :
    Framed packets dispatched ((bus.advance p.bytes.length).enqueue p.bytes m) settled'
      (done ++ [p]) ps (taken.drop p.bytes.length) unread where
  split := by rw [h.split, append_assoc, singleton_append]
  made := by
    show Forall₂ _ _ (dispatched ++ (bus.rqueue ++ [_]))
    rw [← append_assoc]
    exact rel_append h.made (.cons ⟨rfl, hm⟩ .nil)
  input := by
    show bus.input = _ ++ bus.rbuffer.drop p.bytes.length
    have hw := h.buffered.whole hle
    rw [h.input, hw, flatMap_append, append_assoc]
    simp
  buffered := h.buffered.advance hp hle m
  nowhole := hs
  socket := h.socket

theorem Framed.read_done (env : SocketEnv)
    (h : Framed packets dispatched bus settled done rest taken unread)
    (hwf : ∀ p ∈ packets, p.WellFormed)
    (hbound : ∀ p ps, rest = p :: ps → taken.length < p.bytes.length + sizeof_header) :
    FramedSome packets dispatched (bus_socket_read_done env bus).2
      ((bus_socket_read_done env bus).1.isOk = true) := by
  have hrest := h.rest_wellFormed hwf
  rcases read_done_buffered env h.buffered hrest hbound with
    ⟨hrun, hno⟩ | ⟨e, hrun⟩ | ⟨p, ps, m, rfl, hle, hm, hno, hrun⟩
  · rw [hrun]
    exact ⟨done, rest, taken, unread, { h with nowhole := fun _ => hno }⟩
  · rw [hrun]
    refine ⟨done, rest, taken, unread, { h with nowhole := ?_ }⟩
    intro hok
    cases hok
  · rw [hrun]
    exact ⟨_, _, _, _, h.advance (hrest p mem_cons_self) hle hm fun _ => hno⟩

/-- Bytes that are read go behind those in the buffer, with their
    descriptors. Where a message with descriptors may follow, no more is read
    than belongs to the first message. -/
theorem Buffered.append {size : Nat} (h : Buffered rest taken unread bus)
    (hfds : (taken ++ unread).flatMap snd = [] ∨
      ∀ p ps, rest = p :: ps → taken.length + size ≤ p.bytes.length)
    (hr : bus'.rbuffer = bus.rbuffer ++ (unread.take size).map fst)
    (hf : bus'.fds = bus.fds ++ (unread.take size).flatMap snd)
    (hc : bus'.got_ctrunc = bus.got_ctrunc) :
    Buffered rest (taken ++ unread.take size) (unread.drop size) bus' where
  wire_eq := by rw [append_assoc, take_append_drop, h.wire_eq]
  rbuffer := by rw [hr, map_append, h.rbuffer]
  fds := by rw [hf, flatMap_append, h.fds]
  got_ctrunc := by rw [hc, h.got_ctrunc]
  own := by
    intro p ps hrest
    rcases hfds with hnone | hfit
    · rw [flatMap_eq_nil_iff] at hnone ⊢
      intro x hx
      apply hnone
      rcases mem_append.mp (mem_of_mem_drop hx) with hx | hx
      · exact mem_append_left _ hx
      · exact mem_append_right _ (mem_of_mem_take hx)
    · have hlen := hfit p ps hrest
      have htake : (unread.take size).length ≤ size := length_take_le ..
      rw [drop_eq_nil_of_le]
      · rfl
      · rw [length_append]
        omega

section
variable (h : Framed packets dispatched bus settled done rest taken unread)
include h

/-- What there is to come has no descriptors where the stream has none. -/
theorem Framed.no_fds (hnone : (wire packets).flatMap snd = []) :
    (taken ++ unread).flatMap snd = [] := by
  rw [h.split] at hnone
  unfold wire at hnone
  rw [flatMap_append, flatMap_append] at hnone
  rw [← h.buffered.wire_eq]
  exact (append_eq_nil_iff.mp hnone).2

variable {env : SocketEnv}

/-- With what was read in the buffer, and its descriptors still to be taken. -/
theorem Framed.received {bus₁ : BusInput} {bytes : List UInt8} {cmsgs : List Cmsg}
    {handle_cmsg : Bool} (hwf : ∀ p ∈ packets, p.WellFormed)
    (hfds : (taken ++ unread).flatMap snd = [] ∨ ∀ p ps, rest = p :: ps → taken.length + bytes.length ≤ p.bytes.length)
    (hbound : ∀ p ps, rest = p :: ps → taken.length + bytes.length < p.bytes.length + sizeof_header)
    (hbytes : bytes = (unread.take bytes.length).map fst)
    (hrights : scm_rights cmsgs = if (unread.take bytes.length).flatMap snd = [] then [] else [(unread.take bytes.length).flatMap snd])
    (hpidfds : (scm_pidfds cmsgs).length ≤ 1)
    (hmem : (unread.take bytes.length).flatMap snd ≠ [] → env.fds_mem = true ∧ bus.can_fds = true ∧ handle_cmsg = true)
    (hr : bus₁.rbuffer = bus.rbuffer ++ bytes) (hf : bus₁.fds = bus.fds)
    (hc : bus₁.got_ctrunc = bus.got_ctrunc) (hq : bus₁.rqueue = bus.rqueue)
    (hi : bus₁.input = bus.input ++ bytes)
    (hsock : (wire packets).flatMap snd ≠ [] → bus₁.can_fds = bus.can_fds ∧ bus₁.prefer_readv = bus.prefer_readv) :
    FramedSome packets dispatched
      ((if handle_cmsg = true then do
          bus_process_cmsg env.fds_mem cmsgs false bus.can_fds
          bus_socket_read_done env
        else bus_socket_read_done env) bus₁).2
      (((if handle_cmsg = true then do
          bus_process_cmsg env.fds_mem cmsgs false bus.can_fds
          bus_socket_read_done env
        else bus_socket_read_done env) bus₁).1.isOk = true) := by
  have hinput : bus₁.input = done.flatMap Packet.bytes ++ bus₁.rbuffer := by
    rw [hi, hr, h.input, append_assoc]
  have hlen : (taken ++ unread.take bytes.length).length = taken.length + bytes.length := by
    have := congrArg length hbytes
    rw [length_map] at this
    rw [length_append, ← this]
  -- whatever becomes of the control messages, the descriptors are there
  have hframed : ∀ bus2 : BusInput, bus2.rbuffer = bus₁.rbuffer →
      bus2.fds = bus.fds ++ (unread.take bytes.length).flatMap snd →
      bus2.got_ctrunc = bus₁.got_ctrunc → bus2.rqueue = bus₁.rqueue →
      bus2.input = bus₁.input → bus2.can_fds = bus₁.can_fds →
      bus2.prefer_readv = bus₁.prefer_readv →
      Framed packets dispatched bus2 False done rest (taken ++ unread.take bytes.length)
        (unread.drop bytes.length) := by
    intro bus2 hr2 hf2 hc2 hq2 hi2 hcan2 hp2
    exact
      { split := h.split
        made := by
          rw [hq2, hq]
          exact h.made
        input := by rw [hi2, hr2, hinput]
        buffered := h.buffered.append hfds (by rw [hr2, hr, ← hbytes]) hf2 (hc2.trans hc)
        nowhole := False.elim
        socket := by
          intro hne
          rw [hcan2, hp2, (hsock hne).1, (hsock hne).2]
          exact h.socket hne }
  have hbound' : ∀ p ps, rest = p :: ps →
      (taken ++ unread.take bytes.length).length < p.bytes.length + sizeof_header := by
    rw [hlen]
    exact hbound
  cases handle_cmsg with
  | false =>
    have hnone : (unread.take bytes.length).flatMap snd = [] := by
      by_contra hne
      cases (hmem hne).2.2
    refine (hframed bus₁ rfl ?_ rfl rfl rfl rfl rfl).read_done env hwf hbound'
    rw [hnone, append_nil, hf]
  | true =>
    rw [if_pos rfl]
    rcases process_cmsg_supplied bus₁ hrights hpidfds
      (fun hne => ⟨(hmem hne).1, (hmem hne).2.1⟩) (hc.trans h.buffered.got_ctrunc) with
      hrun | ⟨e, hrun⟩
    · rw [bind_run_ok hrun]
      refine Framed.read_done env (hframed _ ?_ ?_ ?_ ?_ ?_ ?_ ?_) hwf hbound'
      · rfl
      · rw [hf]
      all_goals rfl
    · rw [bind_run, hrun]
      refine Framed.of_err (hframed _ ?_ ?_ ?_ ?_ ?_ ?_ ?_) rfl
      · rfl
      · rw [hf]
      all_goals rfl

/-- `bus_socket_read_message` from the system call on, where the first of the
    messages to be made is incomplete. -/
theorem Framed.read_some {need : Nat} (hwf : ∀ p ∈ packets, p.WellFormed)
    (hfds : (wire packets).flatMap snd = [] ∨ ∀ p ∈ packets, sizeof_header + 8 ≤ p.bytes.length)
    (hneed : bus_socket_read_message_need bus.rbuffer = .ok need) (hlt : bus.rbuffer.length < need)
    (hsup : Supplies (wire packets) bus env) : FramedSome packets dispatched
      (bus_socket_read_some env (need - bus.rbuffer.length) bus).2
      ((bus_socket_read_some env (need - bus.rbuffer.length) bus).1.isOk = true) := by
  have hrest := h.rest_wellFormed hwf
  -- no whole message is there, and what is needed is not more than one
  have hno : NoWhole rest taken ∧ ∀ p ps, rest = p :: ps →
      need < p.bytes.length + sizeof_header ∧
      (sizeof_header + 8 ≤ p.bytes.length → need ≤ p.bytes.length) := by
    rw [← h.buffered.length] at hlt
    rcases h.buffered.need hrest with ⟨h16, hn⟩ | ⟨-, p, ps, rfl, hn⟩ | ⟨e, hn⟩
    · rw [hneed] at hn
      cases hn
      constructor
      · intro p ps hps
        have := (hrest p (by rw [hps]; exact mem_cons_self)).sizeof_header_le
        omega
      · intro p ps hps
        have := (hrest p (by rw [hps]; exact mem_cons_self)).sizeof_header_le
        unfold sizeof_header at *
        omega
    · rw [hneed] at hn
      cases hn
      constructor
      · intro q qs hq
        cases hq
        exact hlt
      · intro q qs hq
        cases hq
        unfold sizeof_header
        omega
    · rw [hneed] at hn
      cases hn
  obtain ⟨hsocket, hsup⟩ := hsup
  have hprefer : (wire packets).flatMap snd ≠ [] →
      (bus.prefer_readv || env.enotsock) = bus.prefer_readv := by
    intro hne
    rw [hsocket hne, Bool.or_false]
  unfold bus_socket_read_some
  rw [get_bind_run, modify_bind_run]
  match hrecv : env.recv with
  | .error e =>
    dsimp only
    by_cases htr : ERRNO_IS_TRANSIENT e = true
    · rw [if_pos htr]
      exact ⟨_, _, _, _, h.congr (h.buffered.congr rfl rfl rfl) rfl h.input
        (fun hne => ⟨rfl, hprefer hne⟩) fun _ => hno.1⟩
    · rw [if_neg htr]
      refine ⟨_, _, _, _, h.congr (h.buffered.congr rfl rfl rfl) rfl h.input
        (fun hne => ⟨rfl, hprefer hne⟩) ?_⟩
      intro hok
      cases hok
  | .data bytes cmsgs trunc ctrunc =>
    rw [hrecv] at hsup
    obtain ⟨hbytes, hroom, hrights, hpidfds, hmem, rfl, rfl⟩ := hsup
    rw [h.unread_eq] at hbytes hrights hmem
    have hroom := hroom need hneed
    dsimp only
    rw [modify_bind_run]
    by_cases hempty : bytes.isEmpty = true
    · -- the end of the stream
      obtain rfl : bytes = [] := isEmpty_iff.mp hempty
      have hin : ∀ bus1 : BusInput, bus1.rbuffer = bus.rbuffer → bus1.fds = bus.fds →
          bus1.got_ctrunc = bus.got_ctrunc → bus1.rqueue = bus.rqueue →
          bus1.input = bus.input → bus1.can_fds = bus.can_fds →
          bus1.prefer_readv = (bus.prefer_readv || env.enotsock) →
          Framed packets dispatched bus1 False done rest taken unread := by
        intro bus1 hr hf hc hq hi hcan hp
        refine h.congr (h.buffered.congr hr hf hc) hq ?_ ?_ False.elim
        · rw [hi, hr, h.input]
        · intro hne
          exact ⟨hcan, hp.trans (hprefer hne)⟩
      cases (!bus.prefer_readv && !env.enotsock) with
      | true =>
        refine Framed.of_err (hin _ ?_ ?_ ?_ ?_ ?_ ?_ ?_) rfl
        case refine_5 => exact append_nil _
        all_goals rfl
      | false =>
        refine Framed.of_err (hin _ ?_ ?_ ?_ ?_ ?_ ?_ ?_) rfl
        case refine_5 => exact append_nil _
        all_goals rfl
    rw [if_neg hempty, Bool.and_false, if_neg Bool.false_ne_true, if_neg (by omega),
      modify_bind_run]
    have htaken := h.buffered.length
    refine h.received hwf ?_ ?_ hbytes hrights hpidfds ?_ rfl rfl rfl rfl rfl ?_
    · rcases hfds with hnone | h24
      · exact Or.inl (h.no_fds hnone)
      · right
        intro p ps hps
        have hp : p ∈ packets := by
          rw [h.split, hps]
          simp
        have := (hno.2 p ps hps).2 (h24 p hp)
        omega
    · intro p ps hps
      have := (hno.2 p ps hps).1
      omega
    · intro hne
      have hwire : (wire packets).flatMap snd ≠ [] := by
        intro hnone
        apply hne
        have hall := flatMap_eq_nil_iff.mp (h.no_fds hnone)
        exact flatMap_eq_nil_iff.mpr fun x hx =>
          hall x (mem_append_right _ (mem_of_mem_take hx))
      refine ⟨hmem hne, (h.socket hwire).1, ?_⟩
      rw [(h.socket hwire).2, hsocket hwire]
      rfl
    · intro hne
      exact ⟨rfl, hprefer hne⟩

end

/-- One call of `bus_socket_read_message`. -/
theorem Framed.read {b : Bool} (h : Framed packets dispatched bus (b = true) done rest taken unread)
    (hwf : ∀ p ∈ packets, p.WellFormed)
    (hfds : (wire packets).flatMap snd = [] ∨ ∀ p ∈ packets, sizeof_header + 8 ≤ p.bytes.length)
    (hsup : Supplies (wire packets) bus env) :
    FramedSome packets dispatched (bus_socket_read_message env bus).2
      (settles b (bus_socket_read_message env bus).1 = true) := by
  have hrest := h.rest_wellFormed hwf
  unfold bus_socket_read_message
  rw [get_bind_run]
  -- a message that is too large is refused, again and again
  by_cases hbig : ∃ e, bus_socket_read_message_need bus.rbuffer = .err e
  · obtain ⟨e, he⟩ := hbig
    rw [bind_run, he]
    refine ⟨done, rest, taken, unread, { h with nowhole := ?_ }⟩
    intro hs
    cases hs
  obtain ⟨need, hneed⟩ : ∃ need, bus_socket_read_message_need bus.rbuffer = .ok need := by
    rcases h.buffered.need hrest with ⟨-, hn⟩ | ⟨-, p, ps, -, hn⟩ | hn
    · exact ⟨_, hn⟩
    · exact ⟨_, hn⟩
    · exact absurd hn hbig
  rw [lift_bind_run_ok hneed]
  by_cases hle : need ≤ bus.rbuffer.length
  · -- a whole message waits
    rw [if_pos hle]
    rcases h.buffered.need hrest with ⟨h16, hn⟩ | ⟨-, p, ps, rfl, hn⟩ | hn
    · rw [hneed] at hn
      cases hn
      rw [h.buffered.length] at h16
      omega
    · rw [hneed] at hn
      cases hn
      rw [← h.buffered.length] at hle
      have hp := hrest p mem_cons_self
      have hnot : ¬ b = true := by
        intro hb
        have := h.nowhole hb p ps rfl
        omega
      rcases make_message_buffered env h.buffered hp hle with ⟨e, hrun⟩ | ⟨m, hm, hrun⟩
      · rw [hrun]
        refine ⟨done, _, taken, unread, { h with nowhole := ?_ }⟩
        intro hs
        cases hs
      · rw [hrun]
        refine ⟨_, _, _, _, h.advance hp hle hm ?_⟩
        intro hs
        exact absurd hs hnot
    · exact absurd hn hbig
  · rw [if_neg hle]
    cases hmem : env.realloc with
    | false =>
      refine ⟨done, rest, taken, unread, { h with nowhole := ?_ }⟩
      intro hs
      cases hs
    | true =>
      rw [check_bind_run_true rfl]
      obtain ⟨d, r, t, u, hf⟩ := h.read_some hwf hfds hneed (by omega) hsup
      refine ⟨d, r, t, u, { hf with nowhole := ?_ }⟩
      intro hs
      apply hf.nowhole
      -- only a call that succeeds settles
      match ho : (bus_socket_read_some env (need - bus.rbuffer.length) bus).1 with
      | .ok n => rfl
      | .err e =>
        rw [ho] at hs
        cases hs
      | .abort =>
        rw [ho] at hs
        cases hs

/-- The start of reading. -/
theorem Framed.init {s : Receiving} (h : (receiving packets).init s)
    (hwf : ∀ p ∈ packets, p.WellFormed) :
    FramedSome packets s.dispatched s.bus (s.settled = true) := by
  obtain ⟨hin, hpre, hnone, hfds, hct, hq, hd, hs, hsock⟩ := h
  have htaken : ((wire packets).take s.bus.rbuffer.length).map fst = s.bus.rbuffer := by
    rw [map_take, wire_bytes]
    exact (prefix_iff_eq_take.mp hpre).symm
  refine ⟨[], packets, (wire packets).take s.bus.rbuffer.length,
    (wire packets).drop s.bus.rbuffer.length, ?_⟩
  exact
    { split := rfl
      made := by
        rw [hd, hq]
        exact .nil
      input := by
        rw [hin]
        rfl
      buffered :=
        { wire_eq := (take_append_drop ..).symm
          rbuffer := htaken
          fds := by rw [hnone, hfds]
          got_ctrunc := hct
          own := by
            intro p ps _
            have hall := flatMap_eq_nil_iff.mp hnone
            exact List.flatMap_eq_nil_iff.mpr fun x hx => hall x (List.mem_of_mem_drop hx) }
      nowhole := by
        intro hset p ps hps
        rw [hs, List.isEmpty_iff] at hset
        rw [hset]
        have h16 := (hwf p (by rw [hps]; exact mem_cons_self)).sizeof_header_le
        unfold sizeof_header at h16
        simp
        omega
      socket := hsock }

/-! ## Section 4: Whole runs -/

/-- **Framing does not depend on fragmentation**: in every state that is
    reached by reading a stream of well-formed messages in pieces of any size,
    the messages put on the queue are the first of the stream, in order, and
    made of their exact bytes; the buffer has the bytes read behind them. Once
    all bytes are read, and no call has failed since, all messages have been
    put on the queue and the buffer is empty. -/
theorem framing_exact (hwf : ∀ p ∈ packets, p.WellFormed)
    (hfds : (wire packets).flatMap snd = [] ∨
      ∀ p ∈ packets, sizeof_header + 8 ≤ p.bytes.length)
    {s : Receiving} (h : Reachable (receiving packets) s) :
    ∃ done rest, packets = done ++ rest ∧
      Forall₂ (fun p r => r.buffer = p.bytes ∧ p.Makes r.message) done s.appended ∧
      s.bus.input <+: packets.flatMap Packet.bytes ∧
      s.bus.input = done.flatMap Packet.bytes ++ s.bus.rbuffer ∧
      (s.bus.input = packets.flatMap Packet.bytes → s.settled = true →
        rest = [] ∧ s.bus.rbuffer = []) := by
  have hinv : FramedSome packets s.dispatched s.bus (s.settled = true) := by
    induction h with
    | init hi => exact Framed.init hi hwf
    | @step s s' a _ hst ih =>
      obtain ⟨done, rest, taken, unread, hf⟩ := ih
      cases a with
      | read env =>
        obtain ⟨hsup, rfl⟩ := hst
        exact hf.read hwf hfds hsup
      | dispatch =>
        obtain ⟨r, rs, hq, rfl⟩ := hst
        refine ⟨done, rest, taken, unread, { hf with made := ?_, buffered := ?_ }⟩
        · have hmade := hf.made
          rw [hq] at hmade
          rw [append_assoc]
          exact hmade
        · exact hf.buffered.congr rfl rfl rfl
  obtain ⟨done, rest, taken, unread, hf⟩ := hinv
  have hbytes : packets.flatMap Packet.bytes = s.bus.input ++ unread.map fst := by
    rw [hf.split, flatMap_append, hf.input, append_assoc, ← hf.buffered.rbuffer,
      ← map_append, ← hf.buffered.wire_eq, wire_bytes]
  refine ⟨done, rest, hf.split, hf.made, ⟨_, hbytes.symm⟩, hf.input, ?_⟩
  intro hall hset
  rw [hall] at hbytes
  have hunread : unread = [] := by
    have := self_eq_append_right.mp hbytes
    exact map_eq_nil_iff.mp this
  have hw := hf.buffered.wire_eq
  rw [hunread, append_nil] at hw
  match rest, hf, hw with
  | [], hf, hw =>
    refine ⟨rfl, ?_⟩
    rw [← hf.buffered.rbuffer, ← hw]
    rfl
  | p :: ps, hf, hw =>
    -- its bytes are all there, so that it would wait as a whole
    have hno := hf.nowhole hset p ps rfl
    rw [← hw] at hno
    unfold wire at hno
    rw [flatMap_cons, length_append, p.length_stream] at hno
    omega

end framed

/-- A bus that has read nothing yet. -/
def BusInput.fresh (can_fds : Bool) : BusInput where
  rbuffer := []
  fds := []
  got_ctrunc := false
  can_fds := can_fds
  prefer_readv := false
  rqueue := []
  read_counter := 0
  input := []
  received := []
  closed := []

def Receiving.fresh : Receiving := ⟨.fresh true, [], true⟩

/-- A call that is handed these bytes and descriptors, with all memory but,
    perhaps, that for the queue. -/
def SocketEnv.hands (bytes : List UInt8) (fds : List Int) (rqueue_mem : Bool) : SocketEnv where
  realloc := true
  fds_mem := true
  rqueue_mem := rqueue_mem
  memdup := true
  parse := .plenty
  enotsock := false
  recv := .data bytes (if fds = [] then [] else [.rights fds]) false false

theorem Receiving.fresh_init (packets : List Packet) : (receiving packets).init .fresh :=
  ⟨rfl, nil_prefix, rfl, rfl, rfl, rfl, rfl, rfl, fun _ => ⟨rfl, rfl⟩⟩

/-- A method return, with nothing but the cookie of the call. -/
def replyPacket : Packet :=
  ⟨[0x6c, 2, 0, 1, 0, 0, 0, 0, 1, 0, 0, 0, 8, 0, 0, 0, 5, 1, 0x75, 0, 1, 0, 0, 0], []⟩

/-- What a call makes of a state. -/
def Receiving.call (s : Receiving) (env : SocketEnv) : Receiving :=
  { s with
    bus := (bus_socket_read_message env s.bus).2
    settled := settles s.settled (bus_socket_read_message env s.bus).1 }

theorem Packet.wellFormed_of_isOk {p : Packet}
    (h : (bus_message_from_malloc .plenty p.bytes p.fds false).isOk = true) : p.WellFormed := by
  match hm : bus_message_from_malloc .plenty p.bytes p.fds false with
  | .ok m => exact ⟨m, hm⟩
  | .err e =>
    rw [hm] at h
    cases h
  | .abort =>
    rw [hm] at h
    cases h

theorem replyPacket_wellFormed : ∀ p ∈ [replyPacket], p.WellFormed := by
  intro p hp
  rw [mem_singleton.mp hp]
  exact Packet.wellFormed_of_isOk (by decide +kernel)

theorem Receiving.reachable_hands {packets : List Packet} {s : Receiving} {bytes : List UInt8}
    {fds : List Int} {rqueue_mem : Bool} (need : Nat) (h : Reachable (receiving packets) s)
    (hneed : bus_socket_read_message_need s.bus.rbuffer = .ok need)
    (hroom : bytes.length ≤ need - s.bus.rbuffer.length) (hbytes : bytes =
      (((wire packets).drop s.bus.input.length).take bytes.length).map fst) (hfds : fds =
      (((wire packets).drop s.bus.input.length).take bytes.length).flatMap snd) :
    Reachable (receiving packets) (s.call (.hands bytes fds rqueue_mem)) := by
  refine Reachable.step (a := .read (.hands bytes fds rqueue_mem)) h ⟨⟨fun _ => rfl, ?_⟩, rfl⟩
  refine ⟨hbytes, ?_, ?_, ?_, fun _ => rfl, rfl, rfl⟩
  · intro n hn
    rw [hneed] at hn
    cases hn
    exact hroom
  · rw [← hfds]
    split
    · rfl
    · rfl
  · split
    · exact Nat.zero_le 1
    · exact Nat.zero_le 1

/-- In two pieces. -/
def replyRead : Receiving :=
  (Receiving.fresh.call (.hands (replyPacket.bytes.take 10) [] true)).call
    (.hands (replyPacket.bytes.drop 10) [] true)

theorem replyRead_reachable : Reachable (receiving [replyPacket]) replyRead := by
  apply Receiving.reachable_hands 24
  · apply Receiving.reachable_hands 24 (.init (Receiving.fresh_init _))
    · decide +kernel
    · decide +kernel
    · decide +kernel
    · decide +kernel
  · decide +kernel
  · decide +kernel
  · decide +kernel
  · decide +kernel

theorem framing_exact_reply :
    ∃ done rest, [replyPacket] = done ++ rest ∧
      Forall₂ (fun p r => r.buffer = p.bytes ∧ p.Makes r.message) done replyRead.appended ∧
      replyRead.bus.input <+: [replyPacket].flatMap Packet.bytes ∧
      replyRead.bus.input = done.flatMap Packet.bytes ++ replyRead.bus.rbuffer ∧
      (replyRead.bus.input = [replyPacket].flatMap Packet.bytes → replyRead.settled = true →
        rest = [] ∧ replyRead.bus.rbuffer = []) :=
  framing_exact replyPacket_wellFormed (Or.inl rfl) replyRead_reachable

/-- A message of a type that is not known, without header fields. -/
def bareUnknown : Packet := ⟨[0x6c, 5, 0, 1, 0, 0, 0, 0, 1, 0, 0, 0, 0, 0, 0, 0], []⟩

/-- A method return with one descriptor. -/
def fdReply : Packet :=
  ⟨[0x6c, 2, 0, 1, 0, 0, 0, 0, 1, 0, 0, 0, 16, 0, 0, 0,
    5, 1, 0x75, 0, 1, 0, 0, 0, 9, 1, 0x75, 0, 1, 0, 0, 0], [7]⟩

/-- The 24 bytes that are asked for first, and the rest. -/
def crossed : Receiving :=
  ((Receiving.fresh.call (.hands (bareUnknown.bytes ++ fdReply.bytes.take 8) [7] true)).call
    (.hands ((fdReply.bytes.drop 8).take 16) [] true)).call
      (.hands (fdReply.bytes.drop 24) [] true)

theorem crossed_reachable : Reachable (receiving [bareUnknown, fdReply]) crossed := by
  apply Receiving.reachable_hands 32
  · apply Receiving.reachable_hands 24
    · apply Receiving.reachable_hands 24 (.init (Receiving.fresh_init _))
      · decide +kernel
      · decide +kernel
      · decide +kernel
      · decide +kernel
    · decide +kernel
    · decide +kernel
    · decide +kernel
    · decide +kernel
  · decide +kernel
  · decide +kernel
  · decide +kernel
  · decide +kernel

/-- In two pieces, without memory for the queue when the second comes. -/
def refused : Receiving :=
  (Receiving.fresh.call (.hands (replyPacket.bytes.take 10) [] true)).call
    (.hands (replyPacket.bytes.drop 10) [] false)

theorem refused_reachable : Reachable (receiving [replyPacket]) refused := by
  apply Receiving.reachable_hands 24
  · apply Receiving.reachable_hands 24 (.init (Receiving.fresh_init _))
    · decide +kernel
    · decide +kernel
    · decide +kernel
    · decide +kernel
  · decide +kernel
  · decide +kernel
  · decide +kernel
  · decide +kernel

/-- Messages that have all been read and are not on the queue: one behind a
    message shorter than what is asked for first, so that its descriptor comes
    too early and both are dropped; and one there is no room for. -/
theorem framing_fails :
    (∃ s, Reachable (receiving [bareUnknown, fdReply]) s ∧
      (∀ p ∈ [bareUnknown, fdReply], p.WellFormed) ∧
      s.bus.input = [bareUnknown, fdReply].flatMap Packet.bytes ∧ s.appended = []) ∧
    ∃ s, Reachable (receiving [replyPacket]) s ∧ (∀ p ∈ [replyPacket], p.WellFormed) ∧
      s.bus.input = [replyPacket].flatMap Packet.bytes ∧ s.appended = [] := by
  have hwf : ∀ p ∈ [bareUnknown, fdReply], p.WellFormed := by
    intro p hp
    rcases mem_pair.mp hp with rfl | rfl
    · exact Packet.wellFormed_of_isOk (by decide +kernel)
    · exact Packet.wellFormed_of_isOk (by decide +kernel)
  constructor
  · refine ⟨crossed, crossed_reachable, hwf, by decide +kernel, ?_⟩
    exact eq_nil_of_length_eq_zero (by decide +kernel)
  · refine ⟨refused, refused_reachable, replyPacket_wellFormed, by decide +kernel, ?_⟩
    exact eq_nil_of_length_eq_zero (by decide +kernel)

end SdCompat.Bus
