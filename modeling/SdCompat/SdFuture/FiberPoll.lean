import SdCompat.Basic.Common

/-! # Polling on a fiber (fiber-io.c, io-util.c)

    `sd_fiber_ppoll` looks at the descriptors, suspends with futures for what
    is awaited, and looks again. The events that `poll` and `epoll` know are
    one type here.
-/

namespace SdCompat.FiberPoll

open List Option Outcome

/-! ## Section 1: Model -/

/-- `POLLIN` and so on; `other` is a bit that is not translated. -/
inductive PollEvent where
  | IN | OUT | PRI | ERR | HUP | RDHUP
  | other (bit : Nat)
  deriving DecidableEq, Repr

/-- `struct pollfd`, with the bits that are set in the mask. -/
structure PollFd where
  fd : Int
  events : List PollEvent
  deriving DecidableEq, Repr

/-- `struct timespec` -/
structure Timespec where
  tv_sec : Int
  tv_nsec : Int
  deriving DecidableEq, Repr

def PollEvent.mapped : PollEvent → Bool
  | .other _ => false
  | _ => true

def poll_events_to_epoll (events : List PollEvent) : List PollEvent := events.filter PollEvent.mapped

/-- `timespec_load`; there is no result for `USEC_INFINITY`. -/
def timespec_load (ts : Timespec) : Option Nat :=
  if ts.tv_sec < 0 || ts.tv_nsec < 0 then none
  else if (2 ^ 64 - 1 - ts.tv_nsec / 1000) / 1000000 < ts.tv_sec then none
  else some (ts.tv_sec * 1000000 + ts.tv_nsec / 1000).toNat

/-- What poll reports of an entry: what is asked for, and errors and hang-ups in
    any case. -/
def PollFd.reports (p : PollFd) (e : PollEvent) : Bool :=
  0 ≤ p.fd && (p.events.contains e || e = .ERR || e = .HUP)

/-- `ppoll` with a zero timeout, for the events that there are on each
    descriptor: the number of the entries of which some is reported. -/
def ppoll (ready : Int → List PollEvent) (fds : List PollFd) : Nat :=
  fds.countP fun p => (ready p.fd).any p.reports

/-- What the calls return that the function makes before it suspends. -/
structure Calls where
  ready : Int → List PollEvent
  ppoll_error : Option Errno
  future_new_io : PollFd → Option Errno
  future_new_time : Option Errno

/-- It returns, it refuses with `-EINVAL`, or it suspends with these futures for
    descriptors, and a timer. -/
inductive Before where
  | returns (r : Outcome Nat)
  | refuses
  | suspends (futures : List PollFd) (timer : Option Nat)
  deriving DecidableEq

/-- The loop that sets up the futures. -/
def set_up (c : Calls) : List PollFd → Outcome (List PollFd)
  | [] => .ok []
  | p :: fds =>
    if p.fd < 0 then set_up c fds
    else
      let events := poll_events_to_epoll p.events
      if events = [] then set_up c fds
      else
        match c.future_new_io ⟨p.fd, events⟩ with
        | some e => .err e
        | none => do
          let futures ← set_up c fds
          .ok (⟨p.fd, events⟩ :: futures)

/-- `sd_fiber_ppoll` on a fiber, without a signal mask, up to where it suspends. -/
def sd_fiber_ppoll (c : Calls) (fds : List PollFd) (timeout : Option Timespec) : Before :=
  if fds = [] && timeout = none then .refuses
  else
    match c.ppoll_error with
    | some e => .returns (.err e)
    | none =>
      let r := ppoll c.ready fds
      if timeout = some ⟨0, 0⟩ || r ≠ 0 then .returns (.ok r)
      else
        match set_up c fds with
        | .err e => .returns (.err e)
        | .abort => .returns .abort
        | .ok futures =>
          let usec := timeout.bind timespec_load
          if futures = [] && usec = none then .refuses
          else
            match usec, c.future_new_time with
            | some _, some e => .returns (.err e)
            | _, _ => .suspends futures usec

/-- The rest of it, from what `sd_fiber_suspend` returns and the second look,
    which can fail, on. -/
def sd_fiber_ppoll_resumed (r : Outcome Nat) (ready : Int → List PollEvent)
    (ppoll_error : Option Errno) (timer_resolved : Bool) (fds : List PollFd) : Outcome Nat :=
  if r.isOk || r = .err .ETIME then
    match ppoll_error with
    | some e => .err e
    | none =>
      let n := ppoll ready fds
      if n ≠ 0 then .ok n
      else if timer_resolved then .ok 0
      else if r.isOk then .ok 0
      else r
  else r

/-! ## Section 2: What wakes the fiber -/

/-- Every entry with a descriptor asks for something that is translated, and for
    nothing else; and the timeout, if there is one, can be loaded. -/
def Translated (fds : List PollFd) (timeout : Option Timespec) : Prop :=
  (∀ p ∈ fds, 0 ≤ p.fd → p.events ≠ [] ∧ ∀ e ∈ p.events, e.mapped = true) ∧
    ∀ ts, timeout = some ts → (timespec_load ts).isSome = true

/-- What poll would report wakes the fiber, as does the end of the timeout; it is
    refused when nothing could; and a positive result is that of poll. -/
structure Covered (c : Calls) (fds : List PollFd) (timeout : Option Timespec) : Prop where
  registered : ∀ futures timer, sd_fiber_ppoll c fds timeout = .suspends futures timer →
    (∀ p ∈ fds, ∀ e, p.reports e = true → ∃ f ∈ futures, f.fd = p.fd ∧ f.reports e = true) ∧
      ∀ ts, timeout = some ts → timer = timespec_load ts ∧ timer ≠ none
  refused : sd_fiber_ppoll c fds timeout = .refuses →
    timeout = none ∧ ∀ p ∈ fds, ∀ e, p.reports e = false
  first : ∀ n, 0 < n → sd_fiber_ppoll c fds timeout = .returns (.ok n) → n = ppoll c.ready fds
  second : ∀ n r ready ppoll_error timer_resolved, 0 < n →
    sd_fiber_ppoll_resumed r ready ppoll_error timer_resolved fds = .ok n → n = ppoll ready fds

variable {c : Calls} {fds futures : List PollFd} {timeout : Option Timespec}

theorem set_up_ok (h : set_up c fds = .ok futures)
    (hfds : ∀ p ∈ fds, 0 ≤ p.fd → p.events ≠ [] ∧ ∀ e ∈ p.events, e.mapped = true) :
    ∀ p ∈ fds, 0 ≤ p.fd → p ∈ futures := by
  induction fds generalizing futures with
  | nil => exact fun p hp => (by cases hp)
  | cons q fds ih =>
    have hrest := fun p hp => hfds p (.tail _ hp)
    unfold set_up at h
    split at h
    · next hneg =>
      intro p hp hpos
      rcases mem_cons.mp hp with rfl | hp
      · omega
      · exact ih h hrest p hp hpos
    · next hpos =>
      obtain ⟨hne, hall⟩ := hfds q (.head _) (by omega)
      have hevents : poll_events_to_epoll q.events = q.events := filter_eq_self.mpr hall
      rw [hevents, if_neg hne] at h
      split at h
      · cases h
      · obtain ⟨futures', hset, h⟩ := bind_eq_ok.mp h
        obtain rfl := ok.inj h
        intro p hp hp0
        rcases mem_cons.mp hp with rfl | hp
        · exact .head _
        · exact .tail _ (ih hset hrest p hp hp0)

/-- What there is when it suspends, and why it refuses or returns. -/
theorem ppoll_cases (c : Calls) (fds : List PollFd) (timeout : Option Timespec) :
    (∃ e, sd_fiber_ppoll c fds timeout = .returns e ∧ ∀ n, e = .ok n → n = ppoll c.ready fds) ∨
    (sd_fiber_ppoll c fds timeout = .refuses ∧ fds = [] ∧ timeout = none) ∨
    ∃ futures, set_up c fds = .ok futures ∧
      (sd_fiber_ppoll c fds timeout = .refuses ∧ futures = [] ∧ timeout.bind timespec_load = none ∨
        sd_fiber_ppoll c fds timeout = .suspends futures (timeout.bind timespec_load)) := by
  unfold sd_fiber_ppoll
  split
  · next hnone =>
    rw [Bool.and_eq_true, decide_eq_true_eq, decide_eq_true_eq] at hnone
    exact .inr (.inl ⟨rfl, hnone⟩)
  split
  · exact .inl ⟨_, rfl, fun n hn => (by cases hn)⟩
  dsimp only
  split
  · exact .inl ⟨_, rfl, fun n hn => (ok.inj hn).symm⟩
  split
  · exact .inl ⟨_, rfl, fun n hn => (by cases hn)⟩
  · exact .inl ⟨_, rfl, fun n hn => (by cases hn)⟩
  next futures hset =>
  split
  · next hnone =>
    rw [Bool.and_eq_true, decide_eq_true_eq, decide_eq_true_eq] at hnone
    exact .inr (.inr ⟨futures, hset, .inl ⟨rfl, hnone⟩⟩)
  split
  · exact .inl ⟨_, rfl, fun n hn => (by cases hn)⟩
  · exact .inr (.inr ⟨futures, hset, .inr rfl⟩)

theorem resumed_count {n : Nat} {r : Outcome Nat} {ready : Int → List PollEvent}
    {ppoll_error : Option Errno} {timer_resolved : Bool} (hn : 0 < n)
    (h : sd_fiber_ppoll_resumed r ready ppoll_error timer_resolved fds = .ok n) :
    n = ppoll ready fds := by
  unfold sd_fiber_ppoll_resumed at h
  split at h
  · split at h
    · cases h
    dsimp only at h
    split at h
    · exact (ok.inj h).symm
    split at h
    · exact absurd (ok.inj h) (by omega)
    split at h
    · exact absurd (ok.inj h) (by omega)
    · next hno => exact absurd (by rw [h]; rfl) hno
  · next hno => exact absurd (by rw [h]; rfl) hno

end SdCompat.FiberPoll
