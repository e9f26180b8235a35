import SdCompat.SdEvent.Source

/-! # The calls on event sources (sd-event.c)

    The public functions that add event sources, and those that change them.
-/

namespace SdCompat.Event

open Call

/-! ## Section 1: Adding event sources -/

/-- The event loop has not ended. -/
def not_finished : Call SdEvent PUnit := do
  check ((← get).state != .finished) .ESTALE

/-- The event source of a public call still belongs to its event loop. -/
def public_source (s : SourceId) : Call SdEvent Source := do
  let x ← source s
  assert x.connected
  pure x

/-- The events an I/O source may have. -/
def EPOLL_EVENTS : UInt32 :=
  EPOLLIN ||| EPOLLOUT ||| EPOLLRDHUP ||| EPOLLPRI ||| EPOLLERR ||| EPOLLHUP ||| EPOLLET

/-- `sd_event_add_io` -/
def sd_event_add_io (fd : Int) (events : UInt32) : Call SdEvent SourceId := do
  check (0 ≤ fd) .EBADF
  check (events &&& ~~~EPOLL_EVENTS == 0) .EINVAL
  not_finished
  let s ← source_new .io
  cleanup (do
    update s fun x => { x with io_fd := fd, io_events := events, enabled := .on }
    source_io_register s .on events)
    (source_free s)
  pure s

/-- `DEFAULT_ACCURACY_USEC` -/
def DEFAULT_ACCURACY_USEC : Nat := 250 * 1000

/-- The accuracy that is asked for, or the default. -/
def accuracy_or_default (accuracy : Nat) : Nat :=
  if accuracy = 0 then DEFAULT_ACCURACY_USEC else accuracy

/-- `sd_event_add_time`; the kernel tells whether it supports the clock. -/
def sd_event_add_time (clock : Clock) (usec accuracy : Nat) : Call SdEvent SourceId := do
  check (accuracy != USEC_INFINITY) .EINVAL
  not_finished
  match ← ask with
  | some (.result (some _)) => fail .EOPNOTSUPP
  | _ => pure ⟨⟩
  setup_clock_data clock
  let s ← source_new (.time clock)
  cleanup (do
    update s fun x =>
      { x with time_next := usec, time_accuracy := accuracy_or_default accuracy,
               enabled := .oneshot }
    event_source_time_prioq_put s clock)
    (source_free s)
  pure s

/-- `sd_event_now` -/
def sd_event_now (clock : Clock) : Call SdEvent Nat := do
  let t := (← get).timestamp
  if t.realtime = 0 ∧ t.boottime = 0 ∧ t.monotonic = 0 then
    match ← ask with
    | some (.time t) => pure t
    | _ => pure 0
  else
    match clock with
    | .realtime | .realtime_alarm => pure t.realtime
    | .boottime | .boottime_alarm => pure t.boottime
    | .monotonic => pure t.monotonic

/-- `sd_event_add_time_relative` -/
def sd_event_add_time_relative (clock : Clock) (usec accuracy : Nat) :
    Call SdEvent SourceId := do
  let t ← sd_event_now clock
  check (usec < USEC_INFINITY - t) .EOVERFLOW
  sd_event_add_time clock (t + usec) accuracy

/-- `_NSIG` -/
def NSIG : Nat := 65

/-- `sd_event_add_signal`. The system calls are those that look whether the
    signal is blocked, or that block it. -/
def sd_event_add_signal (sig : Nat) : Call SdEvent SourceId := do
  not_finished
  check (0 < sig && sig < NSIG) .EINVAL
  syscall
  let e ← get
  if e.has_signal_sources then check (e.signal_sources sig).isNone .EBUSY
  else do
    alloc
    modify fun e => { e with has_signal_sources := true }
  let s ← source_new .signal
  cleanup (do
    update s fun x => { x with signal_sig := sig, enabled := .on }
    modify fun e =>
      { e with signal_sources := fun n => if n = sig then some s else e.signal_sources n }
    syscall
    let _ ← event_make_signal_data sig)
    (source_free s)
  pure s

/-- `sd_event_add_child` and `sd_event_add_child_pidfd`: the system calls are
    those of `verify_sigchld` and those for the pidfd. -/
def sd_event_add_child (pid : Nat) (options : UInt32) : Call SdEvent SourceId := do
  check (1 < pid) .EINVAL
  check (options &&& ~~~(WEXITED ||| WSTOPPED ||| WCONTINUED ||| WNOWAIT) == 0) .EINVAL
  check (options != 0) .EINVAL
  not_finished
  syscall
  let e ← get
  check (!e.child_sources.any fun t => (e.source t).child_pid == pid) .EBUSY
  let s ← source_new .child
  cleanup (do
    syscall -- pidfd_open
    update s fun x => { x with child_options := options, enabled := .oneshot }
    let x ← source s
    if EVENT_SOURCE_WATCH_PIDFD x then source_child_pidfd_register s x.enabled
    else do
      let _ ← event_make_signal_data SIGCHLD
      modify fun e => { e with need_process_child := true }
    alloc -- hashmap_put
    update s fun x => { x with child_pid := pid }
    modify fun e =>
      { e with child_sources := s :: e.child_sources,
               n_online_child_sources := e.n_online_child_sources + 1 })
    (source_free s)
  pure s

/-- `sd_event_add_defer` -/
def sd_event_add_defer : Call SdEvent SourceId := do
  not_finished
  let s ← source_new .defer
  cleanup (do
    update s fun x => { x with enabled := .oneshot }
    let _ ← source_set_pending s true)
    (source_free s)
  pure s

/-- `sd_event_add_post` -/
def sd_event_add_post : Call SdEvent SourceId := do
  not_finished
  let s ← source_new .post
  cleanup (do
    update s fun x => { x with enabled := .on }
    alloc -- set_ensure_put
    modify fun e => { e with post_sources := s :: e.post_sources })
    (source_free s)
  pure s

/-- `sd_event_add_exit` -/
def sd_event_add_exit : Call SdEvent SourceId := do
  not_finished
  prioq_ensure_allocated .exit
  let s ← source_new .exit
  cleanup (do
    update s fun x => { x with enabled := .oneshot }
    prioq_put .exit s)
    (source_free s)
  pure s

/-- `event_add_pressure`, from where the file to watch is open: what it is
    watched for, whether that is locked, and how much has to be written to it
    first. -/
def event_add_pressure (type : EventSourceType) (events : UInt32) (locked : Bool)
    (write_buffer_size : Nat) : Call SdEvent SourceId := do
  assert type.is_pressure
  not_finished
  let s ← source_new type
  cleanup (do
    update s fun x => { x with enabled := .on }
    syscall -- the file
    update s fun x =>
      { x with pressure_write_buffer_size := write_buffer_size, pressure_events := events,
               pressure_locked := locked }
    if 0 < write_buffer_size then source_pressure_add_to_write_list s
    else source_pressure_register s .on)
    (source_free s)
  pure s

/-- Open the inode again, so that the watch can still be changed. -/
def open_inode (priority : Int) (i : Inode) : Call SdEvent PUnit := do
  let d ← the_inode_data priority i
  when (!d.fd) do
    syscall -- fcntl
    set_inode_data priority i (some { d with fd := true })
    modify fun e =>
      { e with inode_data_to_close_list := (priority, i) :: e.inode_data_to_close_list }
    syscall -- fd_get_path

/-- Link an event source to an inode. -/
def attach_inode (s : SourceId) (priority : Int) (i : Inode) : Call SdEvent PUnit := do
  let d ← the_inode_data priority i
  set_inode_data priority i (some { d with event_sources := s :: d.event_sources })
  update s fun x => { x with inotify_inode_data := some (priority, i) }

/-- Unlink it. -/
def detach_inode (s : SourceId) (priority : Int) (i : Inode) : Call SdEvent PUnit := do
  let d ← the_inode_data priority i
  set_inode_data priority i (some { d with event_sources := d.event_sources.erase s })

/-- `event_add_inotify_fd_internal`; `SD_EVENT_PRIORITY_NORMAL` is zero. -/
def sd_event_add_inotify (i : Inode) (mask : UInt32) : Call SdEvent SourceId := do
  not_finished
  check (mask &&& IN_MASK_ADD == 0) .EINVAL
  syscall -- fstat
  let s ← source_new .inotify
  cleanup (do
    update s fun x =>
      { x with enabled := if mask &&& IN_ONESHOT != 0 then .oneshot else .on,
               inotify_mask := mask }
    let _ ← event_make_inotify_data 0
    cleanup (do
      let _ ← event_make_inode_data 0 i)
      (event_gc_inotify_data 0)
    cleanup (open_inode 0 i) (event_gc_inode_data 0 i)
    attach_inode s 0 i
    inode_data_realize_watch 0 i)
    (source_free s)
  pure s

/-! ## Section 2: Turning event sources on and off -/

/-- The `switch` of `event_source_offline`, for an event source that was `x`. -/
def event_source_offline_type (s : SourceId) (x : Source) : Call SdEvent PUnit :=
  match x.type with
  | .io => source_io_unregister s
  | .signal => event_gc_signal_data x.priority x.signal_sig
  | .child => do
    when (event_source_is_online x) do
      assert (0 < (← get).n_online_child_sources)
      modify fun e => { e with n_online_child_sources := e.n_online_child_sources - 1 }
    if EVENT_SOURCE_WATCH_PIDFD x then source_child_pidfd_unregister s
    else event_gc_signal_data x.priority SIGCHLD
  | .exit => prioq_reshuffle .exit s
  | .memory_pressure | .cpu_pressure | .io_pressure => source_pressure_unregister s
  | .time _ | .defer | .post | .inotify => pure ⟨⟩

/-- `event_source_offline` -/
def event_source_offline (s : SourceId) (enabled : Enabled) (ratelimited : Bool) :
    Call SdEvent PUnit := do
  let x ← source s
  assert (enabled == .off || ratelimited)
  when (x.enabled != .off && enabled == .off && x.type != .defer && x.type != .exit) do
    let _ ← source_set_pending s false
  update s fun x => { x with enabled := enabled, ratelimited := ratelimited }
  event_source_offline_type s x
  event_source_time_prioq_reshuffle s

/-- The `switch` of `event_source_online`. -/
def event_source_online_type (s : SourceId) (enabled : Enabled) : Call SdEvent PUnit := do
  let x ← source s
  match x.type with
  | .io => source_io_register s enabled x.io_events
  | .signal =>
    cleanup (do
      let _ ← event_make_signal_data x.signal_sig)
      (event_gc_signal_data x.priority x.signal_sig)
  | .child => do
    if EVENT_SOURCE_WATCH_PIDFD x then source_child_pidfd_register s enabled
    else
      cleanup (do
        let _ ← event_make_signal_data SIGCHLD)
        (event_gc_signal_data x.priority SIGCHLD)
    when (!event_source_is_online x) <|
      modify fun e => { e with n_online_child_sources := e.n_online_child_sources + 1 }
  | .memory_pressure | .cpu_pressure | .io_pressure =>
    when (x.pressure_write_buffer_size == 0) (source_pressure_register s enabled)
  | .time _ | .exit | .defer | .post | .inotify => pure ⟨⟩

/-- `event_source_online`. If the event source cannot go online yet, its state
    is noted, and the queues are left alone. -/
def event_source_online (s : SourceId) (enabled : Enabled) (ratelimited : Bool) :
    Call SdEvent PUnit := do
  let x ← source s
  assert (enabled != .off || !ratelimited)
  when (x.enabled == .off && enabled != .off && x.type != .defer && x.type != .exit) do
    let _ ← source_set_pending s false
  if enabled == .off || ratelimited then
    update s fun x => { x with enabled := enabled, ratelimited := ratelimited }
  else do
    event_source_online_type s enabled
    update s fun x => { x with enabled := enabled, ratelimited := ratelimited }
    when (x.type == .exit) (prioq_reshuffle .exit s)
    event_source_time_prioq_reshuffle s

/-- `sd_event_source_set_enabled` -/
def sd_event_source_set_enabled (s : SourceId) (enabled : Enabled) : Call SdEvent PUnit := do
  let x ← public_source s
  if (← get).state = .finished then
    if enabled = .off then pure ⟨⟩ else fail .ESTALE
  else if x.enabled = enabled then pure ⟨⟩
  else do
    if enabled = .off then event_source_offline s enabled x.ratelimited
    else event_source_online s enabled x.ratelimited
    event_source_pp_prioq_reshuffle s

/-! ## Section 3: Priorities -/

/-- Move an inotify source from one inode to another. -/
def move_inotify_source (s : SourceId) (old new : Int) (i : Inode) : Call SdEvent PUnit := do
  open_inode new i
  detach_inode s old i
  attach_inode s new i
  cleanup (inode_data_realize_watch new i) do
    detach_inode s new i
    attach_inode s old i

/-- The part of `sd_event_source_set_priority` for inotify sources. -/
def set_priority_inotify (s : SourceId) (priority : Int) : Call SdEvent PUnit := do
  match (← source s).inotify_inode_data with
  | none => abort
  | some (old, i) => do
    check (← the_inode_data old i).fd .EOPNOTSUPP
    let rm_inotify ← event_make_inotify_data priority
    cleanup (do
      let rm_inode ← event_make_inode_data priority i
      cleanup (move_inotify_source s old priority i)
        (when rm_inode (event_free_inode_data priority i)))
      (when rm_inotify (event_free_inotify_data priority))
    update s fun x => { x with priority := priority }
    event_gc_inode_data old i

/-- The part for signal sources that are online. -/
def set_priority_signal (s : SourceId) (priority : Int) : Call SdEvent PUnit := do
  let x ← source s
  assert ((← get).signal_data x.priority).isSome
  update s fun x => { x with priority := priority }
  cleanup (do
    let _ ← event_make_signal_data x.signal_sig)
    (update s fun y => { y with priority := x.priority })
  event_unmask_signal_data x.priority x.signal_sig

/-- `sd_event_source_set_priority` -/
def sd_event_source_set_priority (s : SourceId) (priority : Int) : Call SdEvent PUnit := do
  let x ← public_source s
  not_finished
  if x.priority = priority then pure ⟨⟩
  else do
    if x.type = .inotify then set_priority_inotify s priority
    else if x.type = .signal ∧ event_source_is_online x then set_priority_signal s priority
    else update s fun x => { x with priority := priority }
    event_source_pp_prioq_reshuffle s
    when (x.type == .exit) (prioq_reshuffle .exit s)

/-! ## Section 4: Other properties -/

/-- `sd_event_source_set_io_fd`; whether the file descriptor is owned does not
    matter here. -/
def sd_event_source_set_io_fd (s : SourceId) (fd : Int) : Call SdEvent PUnit := do
  let x ← public_source s
  check (0 ≤ fd) .EBADF
  check (x.type == .io) .EDOM
  if x.io_fd = fd then pure ⟨⟩
  else do
    update s fun x => { x with io_fd := fd }
    assert (event_source_is_offline x == !x.io_registered)
    when x.io_registered do
      update s fun x => { x with io_registered := false }
      cleanup (source_io_register s x.enabled x.io_events)
        (update s fun y => { y with io_fd := x.io_fd, io_registered := true })

/-- `sd_event_source_set_io_events` -/
def sd_event_source_set_io_events (s : SourceId) (events : UInt32) : Call SdEvent PUnit := do
  let x ← public_source s
  check (x.type == .io) .EDOM
  check (events &&& ~~~EPOLL_EVENTS == 0) .EINVAL
  not_finished
  -- edge-triggered updates are never skipped
  if x.io_events = events ∧ events &&& EPOLLET = 0 then pure ⟨⟩
  else do
    let _ ← source_set_pending s false
    when (event_source_is_online x) (source_io_register s x.enabled events)
    update s fun x => { x with io_events := events }

/-- `sd_event_source_set_time` -/
def sd_event_source_set_time (s : SourceId) (usec : Nat) : Call SdEvent PUnit := do
  let x ← public_source s
  check x.type.clock.isSome .EDOM
  not_finished
  let _ ← source_set_pending s false
  update s fun x => { x with time_next := usec }
  event_source_time_prioq_reshuffle s

/-- `sd_event_source_set_time_relative` -/
def sd_event_source_set_time_relative (s : SourceId) (usec : Nat) : Call SdEvent PUnit := do
  let x ← public_source s
  match x.type.clock with
  | none => fail .EDOM
  | some c =>
    if usec = USEC_INFINITY then sd_event_source_set_time s USEC_INFINITY
    else do
      let t ← sd_event_now c
      check (usec_add t usec != USEC_INFINITY) .EOVERFLOW
      sd_event_source_set_time s (usec_add t usec)

/-- `sd_event_source_set_time_accuracy` -/
def sd_event_source_set_time_accuracy (s : SourceId) (usec : Nat) : Call SdEvent PUnit := do
  let x ← public_source s
  check (usec != USEC_INFINITY) .EINVAL
  check x.type.clock.isSome .EDOM
  not_finished
  let _ ← source_set_pending s false
  update s fun x => { x with time_accuracy := accuracy_or_default usec }
  event_source_time_prioq_reshuffle s

/-- `sd_event_source_set_prepare`; one callback is as good as another. -/
def sd_event_source_set_prepare (s : SourceId) (callback : Bool) : Call SdEvent PUnit := do
  let x ← public_source s
  check (x.type != .exit) .EDOM
  not_finished
  if x.prepare = callback then pure ⟨⟩
  else do
    prioq_ensure_allocated .prepare
    update s fun x => { x with prepare := callback }
    if callback then prioq_put .prepare s
    else do
      let _ ← prioq_remove .prepare s

/-- `sd_event_source_set_exit_on_failure` -/
def sd_event_source_set_exit_on_failure (s : SourceId) (b : Bool) : Call SdEvent PUnit := do
  let x ← public_source s
  check (x.type != .exit) .EDOM
  update s fun x => { x with exit_on_failure := b }

/-! ## Section 5: Rate limits -/

/-- `event_source_enter_ratelimited` -/
def event_source_enter_ratelimited (s : SourceId) : Call SdEvent PUnit := do
  let x ← source s
  if x.ratelimited then pure ⟨⟩
  else do
    setup_clock_data .boottime
    match x.type.clock with
    | some c => event_source_time_prioq_remove s c
    | none => pure ⟨⟩
    cleanup (do
      event_source_time_prioq_put s .boottime
      cleanup (event_source_offline s x.enabled true)
        (event_source_time_prioq_remove s .boottime))
      (match x.type.clock with
        | some c => event_source_time_prioq_put s c
        | none => pure ⟨⟩)
    event_source_pp_prioq_reshuffle s

/-- `event_source_leave_ratelimit`, up to the callback. -/
def event_source_leave_ratelimit (s : SourceId) : Call SdEvent PUnit := do
  let x ← source s
  if !x.ratelimited then pure ⟨⟩
  else do
    event_source_time_prioq_remove s .boottime
    cleanup (do
      match x.type.clock with
      | some c => event_source_time_prioq_put s c
      | none => pure ⟨⟩
      cleanup (event_source_online s x.enabled false)
        (match x.type.clock with
          | some c => event_source_time_prioq_remove s c
          | none => pure ⟨⟩))
      (event_source_time_prioq_put s .boottime)
    event_source_pp_prioq_reshuffle s
    update s fun x => { x with rate_limit := ratelimit_reset x.rate_limit }

/-- `sd_event_source_set_ratelimit` -/
def sd_event_source_set_ratelimit (s : SourceId) (interval burst : Nat) : Call SdEvent PUnit := do
  let x ← public_source s
  check x.type.can_rate_limit .EDOM
  event_source_leave_ratelimit s
  update s fun x => { x with rate_limit := ⟨interval, burst, 0, 0⟩ }

/-- `sd_event_source_set_ratelimit_expire_callback` -/
def sd_event_source_set_ratelimit_expire_callback (s : SourceId) (callback : Bool) :
    Call SdEvent PUnit := do
  let _ ← public_source s
  update s fun x => { x with ratelimit_expire_callback := callback }

/-- `sd_event_source_leave_ratelimit` -/
def sd_event_source_leave_ratelimit (s : SourceId) : Call SdEvent PUnit := do
  let x ← public_source s
  if !x.type.can_rate_limit || !ratelimit_configured x.rate_limit || !x.ratelimited then pure ⟨⟩
  else event_source_leave_ratelimit s

/-! ## Section 6: References -/

/-- `sd_event_source_ref` -/
def sd_event_source_ref (s : SourceId) : Call SdEvent PUnit := do
  assert (0 < (← source s).n_ref)
  update s fun x => { x with n_ref := x.n_ref + 1 }

/-- `sd_event_source_unref` -/
def sd_event_source_unref (s : SourceId) : Call SdEvent PUnit := do
  let x ← source s
  assert (0 < x.n_ref)
  update s fun x => { x with n_ref := x.n_ref - 1 }
  when (x.n_ref == 1) (event_source_free s)

/-- `sd_event_exit` -/
def sd_event_exit : Call SdEvent PUnit := do
  not_finished
  modify fun e => { e with exit_requested := true }

end SdCompat.Event
