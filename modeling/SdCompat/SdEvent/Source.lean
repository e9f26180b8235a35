import SdCompat.SdEvent.EventSource

/-! # The parts of an event loop (sd-event.c)

    Its queues, its signal data and inotify data, and how event sources are
    made, marked pending, and taken out again.
-/

namespace SdCompat

open Call

namespace Event

/-! ## Section 1: Looking at things -/

/-- The next answer, if there is one. -/
def ask : Call SdEvent (Option Answer) := fun e =>
  match e.answers with
  | [] => (.ok none, e)
  | a :: answers => (.ok (some a), { e with answers := answers })

/-- A system call that succeeds or fails. -/
def syscall : Call SdEvent PUnit := do
  match ← ask with
  | some (.result (some e)) => fail e
  | _ => pure ⟨⟩

/-- What a function allocates before it goes on. -/
def alloc : Call SdEvent PUnit := do
  match ← ask with
  | some (.result (some _)) => fail .ENOMEM
  | _ => pure ⟨⟩

/-- An event source that is looked at must not have been freed. -/
def source (s : SourceId) : Call SdEvent Source := do
  let e ← get
  assert (e.source s).allocated
  pure (e.source s)

/-- The event with another event source at this address. -/
def SdEvent.set_source (e : SdEvent) (s : SourceId) (x : Source) : SdEvent :=
  { e with source := fun t => if t = s then x else e.source t }

/-- Change an event source. -/
def update (s : SourceId) (f : Source → Source) : Call SdEvent PUnit := do
  let x ← source s
  modify fun e => e.set_source s (f x)

/-! ## Section 2: Queues -/

/-- `time_event_source_next` -/
def time_event_source_next (x : Source) : Nat :=
  if x.ratelimited then usec_add x.rate_limit.begin x.rate_limit.interval
  else if x.type.clock.isSome then x.time_next
  else USEC_INFINITY

/-- `time_event_source_latest` -/
def time_event_source_latest (x : Source) : Nat :=
  if x.ratelimited then usec_add x.rate_limit.begin x.rate_limit.interval
  else if x.type.clock.isSome then usec_add x.time_next x.time_accuracy
  else USEC_INFINITY

/-- `event_source_timer_candidate` -/
def event_source_timer_candidate (x : Source) : Bool := !x.pending || x.ratelimited

/-- `pending_prioq_compare`: enabled ones first, then those that are not rate
    limited, then lower priority values, and then older ones. -/
def pending_prioq_compare (x y : Source) : Ordering :=
  (compare (x.enabled == .off) (y.enabled == .off)).then
    ((compare x.ratelimited y.ratelimited).then
      ((compare x.priority y.priority).then
        (compare x.pending_iteration y.pending_iteration)))

/-- `prepare_prioq_compare`: those prepared most recently come last. -/
def prepare_prioq_compare (x y : Source) : Ordering :=
  (compare (x.enabled == .off) (y.enabled == .off)).then
    ((compare x.ratelimited y.ratelimited).then
      ((compare x.prepare_iteration y.prepare_iteration).then
        (compare x.priority y.priority)))

/-- `time_prioq_compare` -/
def time_prioq_compare (time_func : Source → Nat) (x y : Source) : Ordering :=
  (compare (x.enabled == .off) (y.enabled == .off)).then
    ((compare (!event_source_timer_candidate x) (!event_source_timer_candidate y)).then
      (compare (time_func x) (time_func y)))

/-- `exit_prioq_compare` -/
def exit_prioq_compare (x y : Source) : Ordering :=
  (compare (x.enabled == .off) (y.enabled == .off)).then (compare x.priority y.priority)

/-- The comparison function of a queue. -/
def Queue.compare_func : Queue → Source → Source → Ordering
  | .pending => pending_prioq_compare
  | .prepare => prepare_prioq_compare
  | .exit => exit_prioq_compare
  | .earliest _ => time_prioq_compare time_event_source_next
  | .latest _ => time_prioq_compare time_event_source_latest

/-- The order of a queue at this time. -/
def SdEvent.compare (e : SdEvent) (q : Queue) (s t : SourceId) : Ordering :=
  q.compare_func (e.source s) (e.source t)

/-- A queue, with the indexes of the event sources. -/
def SdEvent.prioq (e : SdEvent) (q : Queue) : Prioq SourceId SourceId :=
  ⟨e.queue q, e.index q.index⟩

def SdEvent.set_prioq (e : SdEvent) (q : Queue) (p : Prioq SourceId SourceId) : SdEvent :=
  { e with
    queue := fun r => if r = q then p.items else e.queue r
    index := fun i => if i = q.index then p.mem else e.index i }

/-- `prioq_ensure_allocated` -/
def prioq_ensure_allocated (q : Queue) : Call SdEvent PUnit := do
  if (← get).allocated q then pure ⟨⟩
  else do
    alloc
    modify fun e => { e with allocated := fun r => if r = q then true else e.allocated r }

/-- `prioq_put` -/
def prioq_put (q : Queue) (s : SourceId) : Call SdEvent PUnit := do
  alloc
  modify fun e => e.set_prioq q ((e.prioq q).put (e.compare q) s (some s))

/-- `prioq_remove` -/
def prioq_remove (q : Queue) (s : SourceId) : Call SdEvent Bool := do
  let p := (← get).prioq q
  let cmp := (← get).compare q
  modify fun e => e.set_prioq q (p.remove cmp s (some s)).1
  pure (p.remove cmp s (some s)).2

/-- `prioq_reshuffle` -/
def prioq_reshuffle (q : Queue) (s : SourceId) : Call SdEvent PUnit :=
  modify fun e => e.set_prioq q ((e.prioq q).reshuffle (e.compare q) s (some s))

/-- `prioq_peek` -/
def prioq_peek (e : SdEvent) (q : Queue) : Option SourceId := (e.prioq q).peek

/-- `event_source_pp_prioq_reshuffle` -/
def event_source_pp_prioq_reshuffle (s : SourceId) : Call SdEvent PUnit := do
  let x ← source s
  when x.pending (prioq_reshuffle .pending s)
  when x.prepare (prioq_reshuffle .prepare s)

/-- Change the data of a clock. -/
def update_clock (c : Clock) (f : ClockData → ClockData) : Call SdEvent PUnit :=
  modify fun e => { e with clock := fun d => if d = c then f (e.clock c) else e.clock d }

/-- The clock whose queues an event source is in. -/
def Source.time_clock (x : Source) : Option Clock :=
  if x.ratelimited then some .boottime else x.type.clock

/-- `event_source_time_prioq_reshuffle` -/
def event_source_time_prioq_reshuffle (s : SourceId) : Call SdEvent PUnit := do
  match (← source s).time_clock with
  | none => pure ⟨⟩
  | some c => do
    prioq_reshuffle (.earliest c) s
    prioq_reshuffle (.latest c) s
    update_clock c fun d => { d with needs_rearm := true }

/-- `event_source_time_prioq_remove` -/
def event_source_time_prioq_remove (s : SourceId) (c : Clock) : Call SdEvent PUnit := do
  let _ ← prioq_remove (.earliest c) s
  let _ ← prioq_remove (.latest c) s
  modify fun e =>
    { e with index := fun i =>
        if i = .earliest_index ∨ i = .latest_index then Prioq.set_idx (some s) none (e.index i)
        else e.index i }
  update_clock c fun d => { d with needs_rearm := true }

/-- `event_source_time_prioq_put` -/
def event_source_time_prioq_put (s : SourceId) (c : Clock) : Call SdEvent PUnit := do
  prioq_put (.earliest c) s
  cleanup (prioq_put (.latest c) s) do
    let found ← prioq_remove (.earliest c) s
    assert found
    modify fun e =>
      { e with index := fun i =>
          if i = .earliest_index then Prioq.set_idx (some s) none (e.index i) else e.index i }
  update_clock c fun d => { d with needs_rearm := true }

/-- `setup_clock_data` -/
def setup_clock_data (c : Clock) : Call SdEvent PUnit := do
  when (!((← get).clock c).fd) do
    syscall -- timerfd_create
    syscall -- epoll_ctl
    update_clock c fun d => { d with fd := true }
  prioq_ensure_allocated (.earliest c)
  prioq_ensure_allocated (.latest c)

/-! ## Section 3: epoll -/

/-- `epoll_ctl` with `EPOLL_CTL_ADD` or `EPOLL_CTL_MOD` -/
def epoll_ctl_set (s : SourceId) (events : UInt32) : Call SdEvent PUnit := do
  syscall
  modify fun e => { e with epoll := fun t => if t = s then some events else e.epoll t }

/-- `epoll_ctl` with `EPOLL_CTL_DEL`, which fails only if nothing is watched any
    more. -/
def epoll_ctl_del (s : SourceId) : Call SdEvent PUnit :=
  modify fun e => { e with epoll := fun t => if t = s then none else e.epoll t }

/-- `EPOLLONESHOT` for an event source that is enabled once. -/
def oneshot_flag (enabled : Enabled) : UInt32 := if enabled = .oneshot then EPOLLONESHOT else 0

/-- `source_io_unregister` -/
def source_io_unregister (s : SourceId) : Call SdEvent PUnit := do
  when (← source s).io_registered do
    epoll_ctl_del s
    update s fun x => { x with io_registered := false }

/-- `source_io_register` -/
def source_io_register (s : SourceId) (enabled : Enabled) (events : UInt32) :
    Call SdEvent PUnit := do
  epoll_ctl_set s (events ||| oneshot_flag enabled)
  update s fun x => { x with io_registered := true }

/-- `source_child_pidfd_unregister` -/
def source_child_pidfd_unregister (s : SourceId) : Call SdEvent PUnit := do
  let x ← source s
  when x.child_registered do
    when (EVENT_SOURCE_WATCH_PIDFD x) (epoll_ctl_del s)
    update s fun x => { x with child_registered := false }

/-- `source_child_pidfd_register` -/
def source_child_pidfd_register (s : SourceId) (enabled : Enabled) : Call SdEvent PUnit := do
  let x ← source s
  when (EVENT_SOURCE_WATCH_PIDFD x) (epoll_ctl_set s (EPOLLIN ||| oneshot_flag enabled))
  update s fun x => { x with child_registered := true }

/-- `source_pressure_unregister` -/
def source_pressure_unregister (s : SourceId) : Call SdEvent PUnit := do
  when (← source s).pressure_registered do
    epoll_ctl_del s
    update s fun x => { x with pressure_registered := false }

/-- `source_pressure_register` -/
def source_pressure_register (s : SourceId) (enabled : Enabled) : Call SdEvent PUnit := do
  let x ← source s
  epoll_ctl_set s (if 0 < x.pressure_write_buffer_size then EPOLLOUT
    else x.pressure_events ||| oneshot_flag enabled)
  update s fun x => { x with pressure_registered := true }

/-- `source_pressure_add_to_write_list` -/
def source_pressure_add_to_write_list (s : SourceId) : Call SdEvent PUnit := do
  when (!(← source s).pressure_in_write_list) do
    modify fun e => { e with pressure_write_list := s :: e.pressure_write_list }
    update s fun x => { x with pressure_in_write_list := true }

/-- `source_pressure_remove_from_write_list` -/
def source_pressure_remove_from_write_list (s : SourceId) : Call SdEvent PUnit := do
  when (← source s).pressure_in_write_list do
    modify fun e => { e with pressure_write_list := e.pressure_write_list.erase s }
    update s fun x => { x with pressure_in_write_list := false }

/-! ## Section 4: Signal data -/

/-- What is kept for the signals of a priority. -/
def set_signal_data (priority : Int) (d : Option SignalData) : Call SdEvent PUnit :=
  modify fun e =>
    { e with signal_data := fun p => if p = priority then d else e.signal_data p }

/-- `event_free_signal_data` -/
def event_free_signal_data (priority : Int) : Call SdEvent PUnit := set_signal_data priority none

/-- The priority of the event source of a signal, or the normal one. -/
def signal_priority (sig : Nat) : Call SdEvent Int := do
  match (← get).signal_sources sig with
  | some s => do pure (← source s).priority
  | none => pure 0

/-- `event_make_signal_data`: the priority of the signal data. -/
def event_make_signal_data (sig : Nat) : Call SdEvent Int := do
  let priority ← signal_priority sig
  match (← get).signal_data priority with
  | some d =>
    if sig ∈ d.sigset then pure priority
    else do
      syscall -- signalfd
      set_signal_data priority (some { d with sigset := sig :: d.sigset })
      pure priority
  | none => do
    alloc
    set_signal_data priority (some ⟨[], none⟩)
    cleanup (do
      syscall -- signalfd
      set_signal_data priority (some ⟨[sig], none⟩)
      syscall) -- epoll_ctl
      (event_free_signal_data priority)
    pure priority

/-- `event_unmask_signal_data` of the signal data of a priority, if there are
    any. -/
def event_unmask_signal_data (priority : Int) (sig : Nat) : Call SdEvent PUnit := do
  match (← get).signal_data priority with
  | none => pure ⟨⟩
  | some d =>
    if sig ∉ d.sigset then pure ⟨⟩
    else if d.sigset.erase sig = [] then event_free_signal_data priority
    else set_signal_data priority (some { d with sigset := d.sigset.erase sig })

/-- The signal is still wanted. -/
def signal_wanted (sig : Nat) : Call SdEvent Bool := do
  let e ← get
  if sig = SIGCHLD ∧ 0 < e.n_online_child_sources then pure true
  else
    match e.signal_sources sig with
    | some s => do pure (event_source_is_online (← source s))
    | none => pure false

/-- `event_gc_signal_data` -/
def event_gc_signal_data (priority : Int) (sig : Nat) : Call SdEvent PUnit := do
  if ← signal_wanted sig then pure ⟨⟩
  else do
    event_unmask_signal_data priority sig
    match (← get).signal_sources sig with
    | some s => do event_unmask_signal_data (← source s).priority sig
    | none => pure ⟨⟩
    event_unmask_signal_data 0 sig

/-! ## Section 5: Inotify data -/

def set_inotify_data (priority : Int) (d : Option InotifyData) : Call SdEvent PUnit :=
  modify fun e =>
    { e with inotify_data := fun p => if p = priority then d else e.inotify_data p }

def set_inode_data (priority : Int) (i : Inode) (d : Option InodeData) : Call SdEvent PUnit :=
  modify fun e =>
    { e with inode_data := fun p j => if p = priority ∧ j = i then d else e.inode_data p j }

/-- The inotify data of a priority, which must not have been freed. -/
def the_inotify_data (priority : Int) : Call SdEvent InotifyData := do
  match (← get).inotify_data priority with
  | some d => pure d
  | none => abort

def the_inode_data (priority : Int) (i : Inode) : Call SdEvent InodeData := do
  match (← get).inode_data priority i with
  | some d => pure d
  | none => abort

/-- `event_free_inotify_data` -/
def event_free_inotify_data (priority : Int) : Call SdEvent PUnit := do
  let d ← the_inotify_data priority
  assert d.inodes.isEmpty
  assert d.wd.isEmpty
  when (!d.buffer.isEmpty) <|
    modify fun e =>
      { e with buffered_inotify_data_list := e.buffered_inotify_data_list.erase priority }
  set_inotify_data priority none

/-- `event_make_inotify_data`, and whether they are new. -/
def event_make_inotify_data (priority : Int) : Call SdEvent Bool := do
  match (← get).inotify_data priority with
  | some _ => pure false
  | none => do
    syscall -- inotify_init1
    alloc
    set_inotify_data priority (some ⟨[], [], 0, 0, []⟩)
    cleanup syscall -- epoll_ctl
      (event_free_inotify_data priority)
    pure true

/-- `event_free_inode_data` -/
def event_free_inode_data (priority : Int) (i : Inode) : Call SdEvent PUnit := do
  let d ← the_inode_data priority i
  assert d.event_sources.isEmpty
  when d.fd <|
    modify fun e =>
      { e with inode_data_to_close_list := e.inode_data_to_close_list.erase (priority, i) }
  let o ← the_inotify_data priority
  set_inotify_data priority (some { o with
    wd := match d.wd with
      | some wd => o.wd.filter (·.1 != wd)
      | none => o.wd
    inodes := o.inodes.erase i })
  set_inode_data priority i none

/-- `event_gc_inotify_data` -/
def event_gc_inotify_data (priority : Int) : Call SdEvent PUnit := do
  let d ← the_inotify_data priority
  if !d.inodes.isEmpty || 0 < d.n_busy then pure ⟨⟩
  else event_free_inotify_data priority

/-- `event_gc_inode_data` -/
def event_gc_inode_data (priority : Int) (i : Inode) : Call SdEvent PUnit := do
  let d ← the_inode_data priority i
  if !d.event_sources.isEmpty then pure ⟨⟩
  else do
    event_free_inode_data priority i
    event_gc_inotify_data priority

/-- `event_make_inode_data`, and whether they are new. -/
def event_make_inode_data (priority : Int) (i : Inode) : Call SdEvent Bool := do
  match (← get).inode_data priority i with
  | some _ => pure false
  | none => do
    alloc
    let o ← the_inotify_data priority
    set_inotify_data priority (some { o with inodes := i :: o.inodes })
    set_inode_data priority i (some ⟨false, none, 0, []⟩)
    pure true

/-- `inode_data_determine_mask` -/
def inode_data_determine_mask (e : SdEvent) (d : InodeData) : UInt32 :=
  let masks := d.event_sources.map fun s => (e.source s).inotify_mask
  (masks.foldr (· ||| ·) 0 &&&
      ~~~(IN_ONESHOT ||| IN_DONT_FOLLOW ||| IN_ONLYDIR ||| IN_EXCL_UNLINK)) |||
    (if masks.all (· &&& IN_EXCL_UNLINK != 0) then IN_EXCL_UNLINK else 0)

/-- `inotify_add_watch_fd`, which hands out one watch descriptor for each
    inode. -/
def inotify_add_watch_fd (i : Inode) : Call SdEvent Int := do
  match ← ask with
  | some (.result (some e)) => fail e
  | some (.watch wd) => pure wd
  | _ => pure i

/-- `inode_data_realize_watch` -/
def inode_data_realize_watch (priority : Int) (i : Inode) : Call SdEvent PUnit := do
  let d ← the_inode_data priority i
  assert d.fd
  let combined_mask := inode_data_determine_mask (← get) d
  if d.wd.isSome && combined_mask == d.combined_mask then pure ⟨⟩
  else do
    let wd ← inotify_add_watch_fd i
    match d.wd with
    | none => do
      alloc
      let o ← the_inotify_data priority
      set_inotify_data priority (some { o with wd := (wd, i) :: o.wd })
    | some known => check (known == wd) .EINVAL
    set_inode_data priority i (some { d with wd := some wd, combined_mask := combined_mask })

/-! ## Section 6: Event sources -/

/-- Count an inotify source that is pending. -/
def inotify_pending (s : SourceId) (b : Bool) : Call SdEvent PUnit := do
  match (← source s).inotify_inode_data with
  | none => abort
  | some (priority, i) => do
    let _ ← the_inode_data priority i
    let d ← the_inotify_data priority
    assert (b || 0 < d.n_pending)
    set_inotify_data priority (some { d with
      n_pending := if b then d.n_pending + 1 else d.n_pending - 1 })

/-- The signal data have no current event source any more, if it was this. -/
def signal_current_clear (s : SourceId) : Call SdEvent PUnit := do
  let priority := (← source s).priority
  match (← get).signal_data priority with
  | none => pure ⟨⟩
  | some d =>
    if d.current = some s then set_signal_data priority (some { d with current := none })
    else pure ⟨⟩

/-- `source_set_pending`, and whether there was anything to do. -/
def source_set_pending (s : SourceId) (b : Bool) : Call SdEvent Bool := do
  let x ← source s
  assert (x.type != .exit)
  if x.pending = b then pure false
  else do
    let iteration := (← get).iteration
    if b then do
      update s fun x => { x with pending := true, pending_iteration := iteration }
      cleanup (prioq_put .pending s) (update s fun x => { x with pending := false })
    else do
      update s fun x => { x with pending := false }
      let found ← prioq_remove .pending s
      assert found
    when x.type.clock.isSome (event_source_time_prioq_reshuffle s)
    when (x.type == .signal && !b) (signal_current_clear s)
    when (x.type == .inotify) (inotify_pending s b)
    pure true

/-- `source_new` -/
def source_new (type : EventSourceType) : Call SdEvent SourceId := do
  alloc
  let s := (← get).next_source
  modify fun e =>
    { e.set_source s (Source.new type) with
      next_source := s + 1, sources := s :: e.sources, n_sources := e.n_sources + 1 }
  pure s

/-- Detach an inotify source from its inode. -/
def source_disconnect_inotify (s : SourceId) : Call SdEvent PUnit := do
  let x ← source s
  match x.inotify_inode_data with
  | none => pure ⟨⟩
  | some (priority, i) => do
    let d ← the_inode_data priority i
    set_inode_data priority i (some { d with event_sources := d.event_sources.erase s })
    update s fun x => { x with inotify_inode_data := none }
    when x.pending do
      let o ← the_inotify_data priority
      assert (0 < o.n_pending)
      set_inotify_data priority (some { o with n_pending := o.n_pending - 1 })
    event_gc_inode_data priority i

/-- The `switch` of `source_disconnect`. -/
def source_disconnect_type (s : SourceId) : Call SdEvent PUnit := do
  let x ← source s
  match x.type with
  | .io => when (0 ≤ x.io_fd) (source_io_unregister s)
  | .time c => when (!x.ratelimited) (event_source_time_prioq_remove s c)
  | .signal =>
    when (0 < x.signal_sig) do
      modify fun e =>
        { e with signal_sources := fun sig =>
            if sig = x.signal_sig then none else e.signal_sources sig }
      event_gc_signal_data x.priority x.signal_sig
  | .child => do
    when (0 < x.child_pid) do
      when (event_source_is_online x) do
        assert (0 < (← get).n_online_child_sources)
        modify fun e => { e with n_online_child_sources := e.n_online_child_sources - 1 }
      assert ((← get).child_sources.contains s)
      modify fun e => { e with child_sources := e.child_sources.erase s }
    if EVENT_SOURCE_WATCH_PIDFD x then source_child_pidfd_unregister s
    else event_gc_signal_data x.priority SIGCHLD
  | .defer => pure ⟨⟩
  | .post => modify fun e => { e with post_sources := e.post_sources.erase s }
  | .exit => do
    let _ ← prioq_remove .exit s
  | .inotify => source_disconnect_inotify s
  | .memory_pressure | .cpu_pressure | .io_pressure => do
    source_pressure_remove_from_write_list s
    source_pressure_unregister s

/-- `source_disconnect` -/
def source_disconnect (s : SourceId) : Call SdEvent PUnit := do
  when (← source s).connected do
    assert (0 < (← get).n_sources)
    source_disconnect_type s
    let x ← source s
    when x.pending do
      let _ ← prioq_remove .pending s
    when x.prepare do
      let _ ← prioq_remove .prepare s
    when x.ratelimited (event_source_time_prioq_remove s .boottime)
    update s fun x => { x with connected := false }
    modify fun e => { e with sources := e.sources.erase s, n_sources := e.n_sources - 1 }

/-- `source_free` -/
def source_free (s : SourceId) : Call SdEvent PUnit := do
  source_disconnect s
  update s fun x => { x with allocated := false }

/-- `event_source_free`: while a callback of it runs, an event source is only
    taken out. -/
def event_source_free (s : SourceId) : Call SdEvent PUnit := do
  if (← source s).dispatching then source_disconnect s else source_free s

end Event

end SdCompat
