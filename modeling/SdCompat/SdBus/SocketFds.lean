import Mathlib.Data.List.Nodup
import SdCompat.SdBus.SocketRead

/-! # Descriptors that are received (bus-socket.c)

    A descriptor that comes as ancillary data is with the bus until the
    message it belongs to is complete, then with that message, and closed when
    the message is freed.
-/

open Bytes Transition

namespace SdCompat.Bus

open Call List BusInput

/-! ## Section 1: Model -/

/-- A bus that reads, and the messages that were taken from its queue and are
    not freed yet. -/
structure Owning where
  bus : BusInput
  held : List SdBusMessage

inductive OwnStep where
  | read (env : SocketEnv)
  | dispatch
  | unref (i : Nat)
  | reset_queues
  | free

/-- The messages on the queue. -/
def BusInput.queued (bus : BusInput) : List SdBusMessage := bus.rqueue.map Received.message

/-- `message_free` closes the descriptors of a message, which is the last to
    have them. -/
def message_free (m : SdBusMessage) (bus : BusInput) : BusInput := bus.close m.fds

/-- `bus_reset_queues`, for what was received. -/
def bus_reset_queues (bus : BusInput) : BusInput :=
  { bus.close (bus.queued.flatMap SdBusMessage.fds) with rqueue := [] }

/-- `bus_free`, for what was received. -/
def bus_free (bus : BusInput) : BusInput :=
  bus_reset_queues { bus.close bus.fds with fds := [] }

/-- What the kernel may hand over: no more than there is room for, descriptors
    that are new, and one control message of each kind at most. -/
def Delivers (bus : BusInput) (env : SocketEnv) : Prop :=
  match env.recv with
  | .error _ => True
  | .data bytes cmsgs _ _ =>
    (∀ need, bus_socket_read_message_need bus.rbuffer = .ok need →
      bytes.length ≤ need - bus.rbuffer.length) ∧
    (cmsgs.flatMap Cmsg.fds).Nodup ∧
    (∀ fd ∈ cmsgs.flatMap Cmsg.fds, fd ∉ bus.received) ∧
    (scm_rights cmsgs).length ≤ 1 ∧ (scm_pidfds cmsgs).length ≤ 1

/-- Reading from any peer, and freeing the messages in any order. -/
def owning : System Owning OwnStep where
  init s :=
    s.bus.fds = [] ∧ s.bus.rqueue = [] ∧ s.bus.received = [] ∧ s.bus.closed = [] ∧ s.held = []
  step s a s' :=
    match a with
    | .read env =>
      Delivers s.bus env ∧ s' = { s with bus := (bus_socket_read_message env s.bus).2 }
    | .dispatch =>
      ∃ r rs, s.bus.rqueue = r :: rs ∧
        s' = { s with bus := { s.bus with rqueue := rs }, held := s.held ++ [r.message] }
    | .unref i =>
      ∃ m, s.held[i]? = some m ∧
        s' = { s with bus := message_free m s.bus, held := s.held.eraseIdx i }
    | .reset_queues => s' = { s with bus := bus_reset_queues s.bus }
    | .free => s' = { s with bus := bus_free s.bus }

/-- The places a descriptor can be in: with the bus, with one of the messages,
    closed. -/
def Owning.places (s : Owning) : List (List Int) :=
  s.bus.fds :: s.bus.closed :: (s.bus.queued ++ s.held).map SdBusMessage.fds

/-- The buffer and the descriptors when what the call reads is in; `none`
    where the call ends before. -/
def BusInput.filled (env : SocketEnv) (bus : BusInput) : Option BusInput :=
  match env.recv with
  | .error _ => none
  | .data bytes cmsgs trunc ctrunc =>
    let handle_cmsg := !bus.prefer_readv && !env.enotsock
    let bus := { bus with rbuffer := bus.rbuffer ++ bytes }
    if !env.realloc || bytes.isEmpty || (handle_cmsg && trunc) then none
    else if !handle_cmsg then some bus
    else if !bus.can_fds then if (scm_rights cmsgs).isEmpty then some bus else none
    else if bus.got_ctrunc then some bus
    else if !env.fds_mem then none
    else some { bus with fds := bus.fds ++ (scm_rights cmsgs).flatten, got_ctrunc := ctrunc }

/-- With the first `need` bytes of the buffer an invalid message is dropped,
    while the bus has descriptors. -/
def DropsFds (env : SocketEnv) (bus : BusInput) : Prop :=
  ∃ need, bus_socket_read_message_need bus.rbuffer = .ok need ∧ need ≤ bus.rbuffer.length ∧
    bus.rqueue.length < BUS_RQUEUE_MAX ∧ env.rqueue_mem = true ∧
    (bus.rbuffer.length ≤ need ∨ env.memdup = true) ∧
    bus_message_from_malloc env.parse (bus.rbuffer.take need) bus.fds bus.got_ctrunc
      = .err .EBADMSG ∧
    bus.fds ≠ []

/-- No invalid message is dropped while the bus has descriptors. -/
def KeepsFds (s : Owning) : OwnStep → Prop
  | .read env =>
    ¬ DropsFds env s.bus ∧
    ∀ need, bus_socket_read_message_need s.bus.rbuffer = .ok need →
      s.bus.rbuffer.length < need → ∀ bus ∈ s.bus.filled env, ¬ DropsFds env bus
  | _ => True

/-! ## Section 2: What one call does with the descriptors -/

/-- The descriptors of the bus and its queue, and those it has closed. -/
def BusInput.own (bus : BusInput) : List Int :=
  bus.fds ++ bus.closed ++ bus.queued.flatMap SdBusMessage.fds

variable {m : SdBusMessage}

/-- A message has the descriptors it was made with. -/
theorem from_malloc_fds {env : ParseEnv} {bytes : List UInt8} {fds : List Int} {ct : Bool}
    (h : bus_message_from_malloc env bytes fds ct = .ok m) : m.fds = fds := by
  obtain ⟨raw, -, h⟩ := Outcome.bind_eq_ok.mp h
  obtain ⟨p, -, h⟩ := Outcome.bind_eq_ok.mp h
  have hfds : ∀ i n, (set_index i { raw.message p fds with rindex := n }).fds = fds := by
    intro i n
    unfold set_index
    split
    · rfl
    · rfl
  have hstate := sd_bus_message_read_basic_state (raw.message p fds) SD_BUS_TYPE_STRING
  dsimp only at h
  split at h
  · match hr : sd_bus_message_read_basic SD_BUS_TYPE_STRING (raw.message p fds), h with
    | (.ok v, m'), h =>
      rw [hr] at hstate
      cases h
      rcases hstate with rfl | ⟨q, w, hmoved⟩
      · rfl
      · cases hmoved
        exact hfds _ _
    | (.err e, m'), h =>
      rw [hr] at hstate
      cases h
      rcases hstate with rfl | ⟨q, w, hmoved⟩
      · rfl
      · cases hmoved
    | (.abort, m'), h => cases h
  · cases h
    rfl

/-- The bus has got these descriptors, besides those it had. -/
def Takes (new : List Int) (bus bus' : BusInput) : Prop :=
  bus'.received = bus.received ∧ ∀ fd, bus'.own.count fd = bus.own.count fd + new.count fd

theorem Takes.refl (bus : BusInput) : Takes [] bus bus := by
  refine ⟨rfl, ?_⟩
  simp

theorem takes_close (fds : List Int) (bus : BusInput) : Takes fds bus (bus.close fds) := by
  refine ⟨rfl, ?_⟩
  simp only [own, close, queued, count_append]
  omega

variable {bus bus' : BusInput} {new : List Int}

variable {bus'' : BusInput}

theorem Takes.trans {new' : List Int} (h : Takes new bus bus') (h' : Takes new' bus' bus'') :
    Takes (new ++ new') bus bus'' := by
  refine ⟨h'.1.trans h.1, ?_⟩
  intro fd
  rw [h'.2, h.2, count_append]
  omega

/-- Afterwards they may be handed on. -/
theorem Takes.handOn (h : Takes new bus bus') (h' : Takes [] bus' bus'') : Takes new bus bus'' := by
  have := h.trans h'
  rwa [append_nil] at this

/-- The descriptors of the control messages are those of the two kinds. -/
theorem count_cmsg_fds (cmsgs : List Cmsg) (fd : Int) : (cmsgs.flatMap Cmsg.fds).count fd =
      (scm_pidfds cmsgs).count fd + (scm_rights cmsgs).flatten.count fd := by
  induction cmsgs with
  | nil => rfl
  | cons c cs ih =>
    rw [flatMap_cons, count_append, ih]
    cases c with
    | rights fds =>
      show fds.count fd + _ = (scm_pidfds cs).count fd + (fds :: scm_rights cs).flatten.count fd
      rw [flatten_cons, count_append]
      omega
    | pidfd p =>
      show [p].count fd + _ = ([p] ++ scm_pidfds cs).count fd + (scm_rights cs).flatten.count fd
      rw [count_append]
      omega
    | other =>
      show [].count fd + _ = (scm_pidfds cs).count fd + (scm_rights cs).flatten.count fd
      rw [count_nil, Nat.zero_add]

/-- The two states have the same messages in the making. -/
def SameBuffer (bus bus' : BusInput) : Prop :=
  bus'.rbuffer = bus.rbuffer ∧ bus'.fds = bus.fds ∧ bus'.got_ctrunc = bus.got_ctrunc ∧
    bus'.rqueue = bus.rqueue

variable {cmsgs : List Cmsg}

/-- What `bus_process_cmsg` does: the descriptors are closed, and it fails or
    had none of its own or control data was cut off before; or they are with
    the bus. -/
theorem process_cmsg_cases (mem allow_fds ctrunc : Bool) (bus : BusInput)
    (hrights : (scm_rights cmsgs).length ≤ 1) (hpidfds : (scm_pidfds cmsgs).length ≤ 1) :
    (∃ e, bus_process_cmsg mem cmsgs ctrunc allow_fds bus =
      (.err e, (bus.close (scm_pidfds cmsgs)).close (scm_rights cmsgs).flatten)) ∨
    (allow_fds = false ∧ scm_rights cmsgs = [] ∧
      bus_process_cmsg mem cmsgs ctrunc allow_fds bus =
        (.ok ⟨⟩, bus.close (scm_pidfds cmsgs))) ∨
    (allow_fds = true ∧ bus.got_ctrunc = true ∧
      bus_process_cmsg mem cmsgs ctrunc allow_fds bus =
        (.ok ⟨⟩, (bus.close (scm_pidfds cmsgs)).close (scm_rights cmsgs).flatten)) ∨
    (allow_fds = true ∧ bus.got_ctrunc = false ∧ mem = true ∧
      bus_process_cmsg mem cmsgs ctrunc allow_fds bus =
        (.ok ⟨⟩, { bus.close (scm_pidfds cmsgs) with
          fds := bus.fds ++ (scm_rights cmsgs).flatten
          got_ctrunc := ctrunc })) := by
  have hone : ¬ (decide (1 < (scm_rights cmsgs).length) ||
      decide (1 < (scm_pidfds cmsgs).length)) = true := by
    simp
    omega
  unfold bus_process_cmsg
  rw [if_neg hone]
  cases allow_fds with
  | false =>
    match hr : scm_rights cmsgs with
    | [] => exact Or.inr (Or.inl ⟨rfl, rfl, rfl⟩)
    | fds :: rest => exact Or.inl ⟨ Errno.EIO, rfl⟩
  | true =>
    by_cases hct : bus.got_ctrunc = true
    · right; right; left
      simp [close, hct]
    · cases mem with
      | false =>
        left
        simp [close, hct]
      | true =>
        right; right; right
        simp [close, hct]

/-- All descriptors of the control messages are with the bus, or closed. -/
theorem process_cmsg_takes (mem allow_fds ctrunc : Bool) (bus : BusInput)
    (hrights : (scm_rights cmsgs).length ≤ 1) (hpidfds : (scm_pidfds cmsgs).length ≤ 1) :
    Takes (cmsgs.flatMap Cmsg.fds) bus (bus_process_cmsg mem cmsgs ctrunc allow_fds bus).2 := by
  have hclosed : Takes (cmsgs.flatMap Cmsg.fds) bus
      ((bus.close (scm_pidfds cmsgs)).close (scm_rights cmsgs).flatten) := by
    refine ⟨rfl, ?_⟩
    intro fd
    rw [((takes_close _ bus).trans (takes_close _ _)).2, count_append, count_cmsg_fds]
  rcases process_cmsg_cases mem allow_fds ctrunc bus hrights hpidfds with
    ⟨e, hrun⟩ | ⟨-, hnil, hrun⟩ | ⟨-, -, hrun⟩ | ⟨-, -, -, hrun⟩
  · rw [hrun]
    exact hclosed
  · rw [hrun]
    refine ⟨rfl, ?_⟩
    intro fd
    rw [(takes_close _ bus).2, count_cmsg_fds, hnil]
    rfl
  · rw [hrun]
    exact hclosed
  · rw [hrun]
    refine ⟨rfl, ?_⟩
    intro fd
    rw [count_cmsg_fds]
    simp only [own, close, queued, count_append]
    omega

variable {env : SocketEnv}

variable {size : Nat}

/-- Where a message is made, or dropped, there is room on the queue and memory
    for the remainder. -/
theorem make_message_room {n : Nat} (h : bus_socket_make_message env size bus = (.ok n, bus')) :
    bus.rqueue.length < BUS_RQUEUE_MAX ∧ env.rqueue_mem = true ∧
      (bus.rbuffer.length ≤ size ∨ env.memdup = true) := by
  unfold bus_socket_make_message at h
  rw [get_bind_run] at h
  by_cases hlen : bus.rbuffer.length < size
  · rw [if_pos hlen] at h
    cases h
  rw [if_neg hlen] at h
  obtain ⟨_, bus1, hroom, h⟩ := of_bind_ok h
  unfold bus_rqueue_make_room at hroom
  obtain ⟨hmax, hroom⟩ := of_check_bind_ok hroom
  have hmem : env.rqueue_mem = true ∧ bus1 = bus := by
    cases hm : env.rqueue_mem with
    | true =>
      rw [hm] at hroom
      cases hroom
      exact ⟨rfl, rfl⟩
    | false =>
      rw [hm] at hroom
      cases hroom
  obtain ⟨hmem, rfl⟩ := hmem
  obtain ⟨hdup, -⟩ := of_check_bind_ok h
  exact ⟨of_decide_eq_true hmax, hmem, by simpa using hdup⟩

/-- Making a message hands over the descriptors of the bus. -/
theorem make_message_takes (hneed : bus_socket_read_message_need bus.rbuffer = .ok size)
    (hle : size ≤ bus.rbuffer.length) (hdrop : ¬ DropsFds env bus) :
    Takes [] bus (bus_socket_make_message env size bus).2 := by
  rcases make_message_cases env size bus with
    ⟨-, hrun⟩ | ⟨e, hrun⟩ | ⟨hbad, hrun⟩ | ⟨m, hm, hrun⟩
  · rw [hrun]
    exact .refl bus
  · rw [hrun]
    exact .refl bus
  · rw [hrun]
    obtain ⟨hmax, hmem, hdup⟩ := make_message_room hrun
    -- there was nothing to forget
    have hnil : bus.fds = [] := by
      by_contra hne
      exact hdrop ⟨size, hneed, hle, hmax, hmem, hdup, hbad, hne⟩
    refine ⟨rfl, ?_⟩
    simp [own, advance, queued, hnil]
  · rw [hrun]
    refine ⟨rfl, ?_⟩
    simp only [own, advance, enqueue, queued,
      map_append, flatMap_append, count_append, map_cons, map_nil,
      flatMap_cons, flatMap_nil, count_nil, from_malloc_fds hm]
    omega

/-- The end of a call. -/
theorem read_done_takes (hdrop : ¬ DropsFds env bus) :
    Takes [] bus (bus_socket_read_done env bus).2 := by
  unfold bus_socket_read_done
  rw [get_bind_run]
  match hneed : bus_socket_read_message_need bus.rbuffer with
  | .err e => exact .refl bus
  | .abort => exact .refl bus
  | .ok need =>
    rw [lift_bind_run_ok rfl]
    by_cases hle : need ≤ bus.rbuffer.length
    · rw [if_pos hle]
      exact make_message_takes hneed hle hdrop
    · rw [if_neg hle]
      exact .refl bus

/-- Only what is in the making, and the queue, decides on what is dropped. -/
theorem DropsFds.congr (h : DropsFds env bus) (hs : SameBuffer bus bus') : DropsFds env bus' := by
  obtain ⟨hr, hf, hc, hq⟩ := hs
  unfold DropsFds
  rw [hr, hf, hc, hq]
  exact h

/-- The bus was handed these descriptors, and has them besides those it had. -/
def Gains (new : List Int) (bus bus' : BusInput) : Prop :=
  bus'.received = bus.received ++ new ∧ ∀ fd, bus'.own.count fd = bus.own.count fd + new.count fd

theorem Gains.of_takes {bus₁ : BusInput} (h : Takes new bus₁ bus') (hown : bus₁.own = bus.own)
    (hrec : bus₁.received = bus.received ++ new) : Gains new bus bus' := by
  refine ⟨h.1.trans hrec, ?_⟩
  intro fd
  rw [h.2, hown]

/-- The descriptors that one call is handed. -/
def SocketEnv.delivered (env : SocketEnv) (bus : BusInput) : List Int :=
  match env.recv with
  | .error _ => []
  | .data _ cmsgs _ _ =>
    if (!bus.prefer_readv && !env.enotsock) = true then cmsgs.flatMap Cmsg.fds else []

/-- `bus_socket_read_message` from the system call on. -/
theorem read_some_gains
    (hsize : ∀ bytes cmsgs trunc ctrunc, env.recv = .data bytes cmsgs trunc ctrunc → bytes.length ≤ size ∧ (scm_rights cmsgs).length ≤ 1 ∧ (scm_pidfds cmsgs).length ≤ 1)
    (hrealloc : env.realloc = true) (hdrop : ∀ bus' ∈ bus.filled env, ¬ DropsFds env bus') :
    Gains (env.delivered bus) bus (bus_socket_read_some env size bus).2 := by
  unfold bus_socket_read_some SocketEnv.delivered
  rw [get_bind_run, modify_bind_run]
  match hrecv : env.recv with
  | .error e =>
    dsimp only
    by_cases htr : ERRNO_IS_TRANSIENT e = true
    · rw [if_pos htr]
      exact .of_takes (.refl _) rfl (append_nil _).symm
    · rw [if_neg htr]
      exact .of_takes (.refl _) rfl (append_nil _).symm
  | .data bytes cmsgs trunc ctrunc =>
    obtain ⟨hroom, hrights, hpidfds⟩ := hsize _ _ _ _ hrecv
    dsimp only
    rw [modify_bind_run]
    cases hh : !bus.prefer_readv && !env.enotsock with
    | false =>
      -- readv(): nothing but bytes
      rw [Bool.false_and, if_neg Bool.false_ne_true, if_neg Bool.false_ne_true,
        if_neg Bool.false_ne_true, if_neg Bool.false_ne_true]
      by_cases hempty : bytes.isEmpty = true
      · rw [if_pos hempty]
        exact .of_takes (.refl _) rfl rfl
      rw [if_neg hempty, if_neg (by omega)]
      refine .of_takes (read_done_takes ?_) rfl rfl
      intro hd
      refine hdrop { bus with rbuffer := bus.rbuffer ++ bytes } ?_ (hd.congr ⟨rfl, rfl, rfl, rfl⟩)
      simp [filled, hrecv, hrealloc, hempty, hh]
    | true =>
      rw [Bool.true_and, if_pos rfl, if_pos rfl, if_pos rfl]
      by_cases hempty : bytes.isEmpty = true
      · rw [if_pos hempty]
        exact .of_takes (takes_close _ _) rfl rfl
      rw [if_neg hempty]
      by_cases htrunc : trunc = true
      · rw [if_pos htrunc]
        exact .of_takes (takes_close _ _) rfl rfl
      rw [if_neg htrunc, if_neg (by omega), modify_bind_run]
      have htakes := process_cmsg_takes env.fds_mem bus.can_fds ctrunc
        { bus with
          rbuffer := bus.rbuffer ++ bytes
          prefer_readv := bus.prefer_readv || env.enotsock
          input := bus.input ++ bytes
          received := bus.received ++ cmsgs.flatMap Cmsg.fds } hrights hpidfds
      have hcases := process_cmsg_cases env.fds_mem bus.can_fds ctrunc
        { bus with
          rbuffer := bus.rbuffer ++ bytes
          prefer_readv := bus.prefer_readv || env.enotsock
          input := bus.input ++ bytes
          received := bus.received ++ cmsgs.flatMap Cmsg.fds } hrights hpidfds
      rw [bind_run]
      rcases hcases with
        ⟨e, hrun⟩ | ⟨hcan, hnil, hrun⟩ | ⟨hcan, hct, hrun⟩ | ⟨hcan, hct, hmem, hrun⟩
      · rw [hrun] at htakes ⊢
        exact .of_takes htakes rfl rfl
      · rw [hrun] at htakes ⊢
        refine .of_takes (htakes.handOn (read_done_takes ?_)) rfl rfl
        intro hd
        refine hdrop { bus with rbuffer := bus.rbuffer ++ bytes } ?_
          (hd.congr ⟨rfl, rfl, rfl, rfl⟩)
        simp [filled, hrecv, hrealloc, hempty, htrunc, hcan, hnil]
      · rw [hrun] at htakes ⊢
        refine .of_takes (htakes.handOn (read_done_takes ?_)) rfl rfl
        intro hd
        refine hdrop { bus with rbuffer := bus.rbuffer ++ bytes } ?_
          (hd.congr ⟨rfl, rfl, rfl, rfl⟩)
        have hct : bus.got_ctrunc = true := hct
        simp [filled, hrecv, hrealloc, hempty, htrunc, hcan, hct]
      · rw [hrun] at htakes ⊢
        refine .of_takes (htakes.handOn (read_done_takes ?_)) rfl rfl
        intro hd
        refine hdrop { bus with
          rbuffer := bus.rbuffer ++ bytes
          fds := bus.fds ++ (scm_rights cmsgs).flatten
          got_ctrunc := ctrunc } ?_ (hd.congr ⟨rfl, rfl, rfl, rfl⟩)
        have hct : bus.got_ctrunc = false := hct
        simp [filled, hrecv, hrealloc, hempty, hh, htrunc, hcan, hct, hmem]

/-- One call, in which no invalid message is dropped while the bus has
    descriptors. -/
theorem read_message_gains {s : Owning} (hdel : Delivers s.bus env) (hkeep : KeepsFds s (.read env)) :
    Gains [] s.bus (bus_socket_read_message env s.bus).2 ∨
      Gains (env.delivered s.bus) s.bus (bus_socket_read_message env s.bus).2 := by
  obtain ⟨hdrop, hfilled⟩ := hkeep
  have hrefl : Gains [] s.bus s.bus := .of_takes (.refl _) rfl (append_nil _).symm
  unfold bus_socket_read_message
  rw [get_bind_run]
  match hneed : bus_socket_read_message_need s.bus.rbuffer with
  | .err e => exact Or.inl hrefl
  | .abort => exact Or.inl hrefl
  | .ok need =>
    rw [lift_bind_run_ok rfl]
    by_cases hle : need ≤ s.bus.rbuffer.length
    · left
      rw [if_pos hle]
      exact .of_takes (make_message_takes hneed hle hdrop) rfl (append_nil _).symm
    · rw [if_neg hle]
      cases hmem : env.realloc with
      | false => exact Or.inl hrefl
      | true =>
        right
        refine read_some_gains ?_ hmem (hfilled need hneed (by omega))
        intro bytes cmsgs trunc ctrunc hrecv
        unfold Delivers at hdel
        rw [hrecv] at hdel
        exact ⟨hdel.1 need hneed, hdel.2.2.2⟩

/-- What one call is handed is new. -/
theorem delivered_new (h : Delivers bus env) :
    (env.delivered bus).Nodup ∧ ∀ fd ∈ env.delivered bus, fd ∉ bus.received := by
  unfold Delivers at h
  unfold SocketEnv.delivered
  match hrecv : env.recv with
  | .error e => exact ⟨nodup_nil, fun fd hfd => (not_mem_nil hfd).elim⟩
  | .data bytes cmsgs trunc ctrunc =>
    rw [hrecv] at h
    dsimp only
    split
    · exact ⟨h.2.1, h.2.2.1⟩
    · exact ⟨nodup_nil, fun fd hfd => (not_mem_nil hfd).elim⟩

/-! ## Section 3: Whole runs -/

/-- Every descriptor received is in one place, and nothing else is. -/
structure Owned (s : Owning) : Prop where
  nodup : s.bus.received.Nodup
  count : ∀ fd, s.places.flatten.count fd = s.bus.received.count fd

theorem Owning.count_places (s : Owning) (fd : Int) : s.places.flatten.count fd =
      s.bus.own.count fd + (s.held.flatMap SdBusMessage.fds).count fd := by
  simp only [places, own, flatten_cons, count_append, map_append,
    flatten_append, ← flatMap_def]
  omega

/-- One message less is held. -/
theorem count_held_eraseIdx {held : List SdBusMessage} {i : Nat} (h : held[i]? = some m) (fd : Int) :
    (held.flatMap SdBusMessage.fds).count fd =
      m.fds.count fd + ((held.eraseIdx i).flatMap SdBusMessage.fds).count fd := by
  induction held generalizing i with
  | nil => cases h
  | cons x xs ih =>
    cases i with
    | zero =>
      cases h
      rw [flatMap_cons, count_append]
      rfl
    | succ i =>
      have := ih h
      rw [eraseIdx_cons_succ, flatMap_cons, flatMap_cons, count_append,
        count_append, this]
      omega

/-- **Step lemma**: no step that keeps to the condition loses a descriptor or
    has it in two places. -/
theorem Owned.step {s s' : Owning} {a : OwnStep} (h : Owned s)
    (hst : (owning.restrict KeepsFds).step s a s') : Owned s' := by
  obtain ⟨hkeep, hst⟩ := hst
  have hcount : ∀ fd, s.bus.own.count fd + (s.held.flatMap SdBusMessage.fds).count fd =
      s.bus.received.count fd := by
    intro fd
    rw [← s.count_places]
    exact h.count fd
  cases a with
  | read env =>
    obtain ⟨hdel, rfl⟩ := hst
    obtain ⟨hnodup, hnew⟩ := delivered_new hdel
    -- whatever is new is there once more
    have hgain : ∀ new, Gains new s.bus (bus_socket_read_message env s.bus).2 → new.Nodup →
        (∀ fd ∈ new, fd ∉ s.bus.received) →
        Owned { s with bus := (bus_socket_read_message env s.bus).2 } := by
      intro new hg hnd hn
      constructor
      · show (bus_socket_read_message env s.bus).2.received.Nodup
        rw [hg.1]
        refine nodup_append.mpr ⟨h.nodup, hnd, ?_⟩
        intro a ha b hb hab
        exact hn b hb (hab ▸ ha)
      · intro fd
        rw [Owning.count_places]
        show (bus_socket_read_message env s.bus).2.own.count fd +
            (s.held.flatMap SdBusMessage.fds).count fd =
          (bus_socket_read_message env s.bus).2.received.count fd
        have := hcount fd
        rw [hg.1, hg.2, count_append]
        omega
    rcases read_message_gains hdel hkeep with hg | hg
    · exact hgain [] hg nodup_nil fun fd hfd => (not_mem_nil hfd).elim
    · exact hgain _ hg hnodup hnew
  | dispatch =>
    obtain ⟨r, rs, hq, rfl⟩ := hst
    refine ⟨h.nodup, ?_⟩
    intro fd
    have := hcount fd
    rw [Owning.count_places]
    simp only [own, queued, hq, map_cons, flatMap_cons,
      flatMap_append, count_append, flatMap_nil, count_nil] at this ⊢
    omega
  | unref i =>
    obtain ⟨m, hm, rfl⟩ := hst
    refine ⟨h.nodup, ?_⟩
    intro fd
    have := hcount fd
    rw [count_held_eraseIdx hm] at this
    rw [Owning.count_places]
    simp only [message_free, own, close, queued,
      count_append] at this ⊢
    omega
  | reset_queues =>
    obtain rfl := hst
    refine ⟨h.nodup, ?_⟩
    intro fd
    have := hcount fd
    rw [Owning.count_places]
    simp only [bus_reset_queues, own, close, queued,
      count_append, map_nil, flatMap_nil, count_nil] at this ⊢
    omega
  | free =>
    obtain rfl := hst
    refine ⟨h.nodup, ?_⟩
    intro fd
    have := hcount fd
    rw [Owning.count_places]
    simp only [bus_free, bus_reset_queues, own, close, queued,
      count_append, map_nil, flatMap_nil, count_nil] at this ⊢
    omega

/-- **Ownership of descriptors**: along every run in which no invalid message
    is dropped while the bus has descriptors, every descriptor received is in
    one place: with the bus, with one message, or closed, and it was closed
    once at most. -/
theorem fds_in_one_place {s : Owning} (h : Reachable (owning.restrict KeepsFds) s) :
    ∀ fd, s.places.flatten.count fd = if fd ∈ s.bus.received then 1 else 0 := by
  have hinv : Owned s := by
    refine Reachable.invariant ?_ (fun s a s' hs hst => hs.step hst) h
    intro s hi
    obtain ⟨hf, hq, hr, hc, hh⟩ := hi
    constructor
    · rw [hr]
      exact nodup_nil
    · intro fd
      simp [Owning.count_places, own, queued, hf, hq, hr, hc, hh]
  intro fd
  rw [hinv.count fd]
  split
  · next hmem => exact count_eq_one_of_mem hinv.nodup hmem
  · next hmem => exact count_eq_zero.mpr hmem

/-- A bus that can receive descriptors, and has read nothing yet. -/
def Owning.fresh : Owning where
  bus :=
    { rbuffer := [], fds := [], got_ctrunc := false, can_fds := true, prefer_readv := false
      rqueue := [], read_counter := 0, input := [], received := [], closed := [] }
  held := []

/-- A call that has all memory and is handed these bytes and descriptors. -/
def SocketEnv.gives (bytes : List UInt8) (fds : List Int) : SocketEnv where
  realloc := true
  fds_mem := true
  rqueue_mem := true
  memdup := true
  parse := ⟨true, true⟩
  enotsock := false
  recv := .data bytes [.rights fds] false false

/-- What such a call makes of a state. -/
def Owning.read (s : Owning) (bytes : List UInt8) (fds : List Int) : Owning :=
  { s with bus := (bus_socket_read_message (.gives bytes fds) s.bus).2 }

section
variable (need : Nat) (hneed : bus_socket_read_message_need bus.rbuffer = .ok need)
include need hneed

theorem delivers_gives {bytes : List UInt8} {fds : List Int}
    (hroom : bytes.length ≤ need - bus.rbuffer.length) (hnodup : fds.Nodup)
    (hnew : ∀ fd ∈ fds, fd ∉ bus.received) : Delivers bus (.gives bytes fds) := by
  refine ⟨?_, ?_, ?_, le_refl 1, Nat.zero_le 1⟩
  · intro n hn
    rw [hneed] at hn
    cases hn
    exact hroom
  · simpa [Cmsg.fds] using hnodup
  · simpa [Cmsg.fds] using hnew

/-- Nothing is dropped where the message is accepted, or incomplete. -/
theorem not_dropsFds
    (hok : bus.rbuffer.length < need ∨ (bus_message_from_malloc env.parse (bus.rbuffer.take need) bus.fds bus.got_ctrunc).isOk = true) :
    ¬ DropsFds env bus := by
  rintro ⟨n, hn, hle, -, -, -, hbad, -⟩
  rw [hneed] at hn
  cases hn
  rcases hok with hlt | hok
  · omega
  · rw [hbad] at hok
    cases hok

end

/-- A method return with one descriptor. -/
def returnWithFd : List UInt8 :=
  [0x6c, 2, 0, 1, 0, 0, 0, 0, 1, 0, 0, 0, 16, 0, 0, 0,
   5, 1, 0x75, 0, 1, 0, 0, 0, 9, 1, 0x75, 0, 1, 0, 0, 0]

/-- It is read in two pieces, the descriptor with the first. -/
def returnHalf : Owning := Owning.fresh.read (returnWithFd.take 24) [7]

def returnQueued : Owning := returnHalf.read (returnWithFd.drop 24) []

theorem returnQueued_reachable : Reachable (owning.restrict KeepsFds) returnQueued := by
  refine .step (a := .read (.gives (returnWithFd.drop 24) [])) (s := returnHalf) ?_ ⟨?_, ?_, rfl⟩
  · refine .step (a := .read (.gives (returnWithFd.take 24) [7])) (s := .fresh) ?_ ⟨?_, ?_, rfl⟩
    · exact .init ⟨rfl, rfl, rfl, rfl, rfl⟩
    · refine ⟨not_dropsFds 24 (by decide +kernel) (Or.inl (by decide +kernel)), ?_⟩
      intro need _ _ bus hbus
      obtain rfl := Option.mem_some_iff.mp hbus
      exact not_dropsFds 32 (by decide +kernel) (Or.inl (by decide +kernel))
    · exact delivers_gives 24 (by decide +kernel) (by decide +kernel) (by decide +kernel)
        (by decide +kernel)
  · refine ⟨not_dropsFds 32 (by decide +kernel) (Or.inl (by decide +kernel)), ?_⟩
    intro need _ _ bus hbus
    obtain rfl := Option.mem_some_iff.mp hbus
    exact not_dropsFds 32 (by decide +kernel) (Or.inr (by decide +kernel))
  · exact delivers_gives 32 (by decide +kernel) (by decide +kernel) (by decide +kernel)
      (by decide +kernel)

theorem fds_in_one_place_return :
    returnQueued.bus.received = [7] ∧ returnQueued.bus.queued.map SdBusMessage.fds = [[7]] ∧
      ∀ fd, returnQueued.places.flatten.count fd =
        if fd ∈ returnQueued.bus.received then 1 else 0 :=
  ⟨by decide +kernel, by decide +kernel, fds_in_one_place returnQueued_reachable⟩

/-- A method call of a protocol version that does not exist. -/
def badVersion : List UInt8 := [0x6c, 1, 0, 0, 0, 0, 0, 0, 1, 0, 0, 0, 0, 0, 0, 0]

/-- It comes with a descriptor, is dropped, and the descriptor is nowhere. -/
theorem fds_lost : ∃ s, Reachable owning s ∧ (7 : Int) ∈ s.bus.received ∧
    s.places.flatten.count 7 = 0 := by
  refine ⟨Owning.fresh.read badVersion [7], ?_, by decide +kernel, by decide +kernel⟩
  refine .step (a := .read (.gives badVersion [7])) (s := .fresh) ?_ ⟨?_, rfl⟩
  · exact .init ⟨rfl, rfl, rfl, rfl, rfl⟩
  · exact delivers_gives 24 (by decide +kernel) (by decide +kernel) (by decide +kernel)
      (by decide +kernel)

end SdCompat.Bus
