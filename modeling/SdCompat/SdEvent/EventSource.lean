import SdCompat.Basic.Call
import SdCompat.Basic.Prioq

/-! # Event sources and event loops (event-source.h)

    The objects of an event loop, and the event loop itself. Beside the fields
    of the structures the state has what the kernel has been told: what epoll
    watches, and how the timers are set.

    The results of system calls and of allocations, and what is read, come from
    a list of answers; what is not answered succeeds, and reads nothing.
-/

namespace SdCompat.Event

/-! ## Section 1: Times -/

/-- `USEC_INFINITY` -/
def USEC_INFINITY : Nat := 2 ^ 64 - 1

/-- `usec_add` -/
def usec_add (a b : Nat) : Nat := if USEC_INFINITY - b < a then USEC_INFINITY else a + b

/-- `usec_sub_unsigned` -/
def usec_sub_unsigned (timestamp delta : Nat) : Nat :=
  if timestamp = USEC_INFINITY then USEC_INFINITY
  else if timestamp < delta then 0
  else timestamp - delta

/-- The clocks that have timers. -/
inductive Clock where
  | realtime | boottime | monotonic | realtime_alarm | boottime_alarm
  deriving DecidableEq, Repr

/-- `triple_timestamp` -/
structure Timestamp where
  realtime : Nat
  boottime : Nat
  monotonic : Nat
  deriving DecidableEq, Repr

/-- `RateLimit` -/
structure RateLimit where
  interval : Nat
  burst : Nat
  num : Nat
  begin : Nat
  deriving DecidableEq, Repr

/-- `ratelimit_configured` -/
def ratelimit_configured (rl : RateLimit) : Bool := 0 < rl.interval && 0 < rl.burst

/-- `ratelimit_reset` -/
def ratelimit_reset (rl : RateLimit) : RateLimit := { rl with num := 0, begin := 0 }

/-- `ratelimit_below` at this time. -/
def ratelimit_below (ts : Nat) (rl : RateLimit) : Bool × RateLimit :=
  if !ratelimit_configured rl then (true, rl)
  else if rl.begin = 0 || rl.interval < usec_sub_unsigned ts rl.begin then
    (true, { rl with begin := ts, num := 1 })
  else if rl.num = 2 ^ 32 - 1 then (false, rl)
  else (rl.num + 1 ≤ rl.burst, { rl with num := rl.num + 1 })

/-! ## Section 2: Event sources -/

/-- `EventSourceType`, without the watchdog, which is no event source. -/
inductive EventSourceType where
  | io | time (clock : Clock) | signal | child | defer | post | exit | inotify
  | memory_pressure | cpu_pressure | io_pressure
  deriving DecidableEq, Repr

/-- `EVENT_SOURCE_IS_TIME`, and which clock it has. -/
def EventSourceType.clock : EventSourceType → Option Clock
  | .time c => some c
  | _ => none

/-- `EVENT_SOURCE_IS_PRESSURE` -/
def EventSourceType.is_pressure : EventSourceType → Bool
  | .memory_pressure | .cpu_pressure | .io_pressure => true
  | _ => false

/-- `EVENT_SOURCE_CAN_RATE_LIMIT` -/
def EventSourceType.can_rate_limit : EventSourceType → Bool
  | .child | .post | .exit => false
  | _ => true

/-- `SD_EVENT_OFF`, `SD_EVENT_ON`, `SD_EVENT_ONESHOT` -/
inductive Enabled where
  | off | on | oneshot
  deriving DecidableEq, Repr

/-- The address of an event source. -/
abbrev SourceId := Nat

/-- The identity of an inode: its `dev` and `ino`. -/
abbrev Inode := Nat

/-- `sd_event_source`. `connected` tells whether `event` is set; of the
    callbacks it matters only whether there are any. What belongs to one type
    of event source is at the end; the inode data are found by the priority of
    their inotify data, and the inode. -/
structure Source where
  allocated : Bool
  type : EventSourceType
  n_ref : Nat
  connected : Bool
  prepare : Bool
  enabled : Enabled
  pending : Bool
  dispatching : Bool
  exit_on_failure : Bool
  ratelimited : Bool
  priority : Int
  pending_iteration : Nat
  prepare_iteration : Nat
  ratelimit_expire_callback : Bool
  rate_limit : RateLimit
  io_fd : Int
  io_events : UInt32
  io_revents : UInt32
  io_registered : Bool
  time_next : Nat
  time_accuracy : Nat
  signal_sig : Nat
  child_pid : Nat
  child_options : UInt32
  child_registered : Bool
  child_exited : Bool
  child_zombie : Bool
  child_waited : Bool
  inotify_mask : UInt32
  inotify_inode_data : Option (Int × Inode)
  pressure_registered : Bool
  pressure_locked : Bool
  pressure_in_write_list : Bool
  pressure_write_buffer_size : Nat
  pressure_events : UInt32
  pressure_revents : UInt32
  deriving DecidableEq, Repr

/-- What `source_new` sets. -/
def Source.new (type : EventSourceType) : Source where
  allocated := true
  type := type
  n_ref := 1
  connected := true
  prepare := false
  enabled := .off
  pending := false
  dispatching := false
  exit_on_failure := false
  ratelimited := false
  priority := 0
  pending_iteration := 0
  prepare_iteration := 0
  ratelimit_expire_callback := false
  rate_limit := ⟨0, 0, 0, 0⟩
  io_fd := 0
  io_events := 0
  io_revents := 0
  io_registered := false
  time_next := 0
  time_accuracy := 0
  signal_sig := 0
  child_pid := 0
  child_options := 0
  child_registered := false
  child_exited := false
  child_zombie := false
  child_waited := false
  inotify_mask := 0
  inotify_inode_data := none
  pressure_registered := false
  pressure_locked := false
  pressure_in_write_list := false
  pressure_write_buffer_size := 0
  pressure_events := 0
  pressure_revents := 0

/-- `event_source_is_online` -/
def event_source_is_online (x : Source) : Bool := x.enabled != .off && !x.ratelimited

/-- `event_source_is_offline` -/
def event_source_is_offline (x : Source) : Bool := x.enabled == .off || x.ratelimited

/-- `WEXITED`, `WSTOPPED`, `WCONTINUED` and `WNOWAIT` -/
def WSTOPPED : UInt32 := 2
def WEXITED : UInt32 := 4
def WCONTINUED : UInt32 := 8
def WNOWAIT : UInt32 := 0x01000000

/-- `EVENT_SOURCE_WATCH_PIDFD` -/
def EVENT_SOURCE_WATCH_PIDFD (x : Source) : Bool :=
  x.type == .child && x.child_options &&& ~~~WNOWAIT == WEXITED

/-! ## Section 3: What the kernel says -/

def EPOLLIN : UInt32 := 1
def EPOLLPRI : UInt32 := 2
def EPOLLOUT : UInt32 := 4
def EPOLLERR : UInt32 := 8
def EPOLLHUP : UInt32 := 0x10
def EPOLLRDHUP : UInt32 := 0x2000
def EPOLLONESHOT : UInt32 := 0x40000000
def EPOLLET : UInt32 := 0x80000000

def IN_ALL_EVENTS : UInt32 := 0xfff
def IN_UNMOUNT : UInt32 := 0x2000
def IN_Q_OVERFLOW : UInt32 := 0x4000
def IN_IGNORED : UInt32 := 0x8000
def IN_ONLYDIR : UInt32 := 0x01000000
def IN_DONT_FOLLOW : UInt32 := 0x02000000
def IN_EXCL_UNLINK : UInt32 := 0x04000000
def IN_MASK_ADD : UInt32 := 0x20000000
def IN_ONESHOT : UInt32 := 0x80000000

def SIGCHLD : Nat := 17

/-- The pointer that epoll hands back: to the watchdog, to an event source, to
    the data of a clock, or to those of the signals or of the inotify watches
    of a priority. -/
inductive Wakeup where
  | watchdog
  | source (s : SourceId)
  | clock (c : Clock)
  | signal (priority : Int)
  | inotify (priority : Int)
  deriving DecidableEq, Repr

/-- `struct inotify_event`; the name is not looked at. -/
structure InotifyEvent where
  wd : Int
  mask : UInt32
  deriving DecidableEq, Repr

/-- What `waitid` finds: nothing, a process that is dead, or one that has been
    stopped or continued. -/
inductive ChildState where
  | none | zombie | changed
  deriving DecidableEq, Repr

/-- An answer of the kernel. -/
inductive Answer where
  /-- A system call or an allocation that succeeds or fails. -/
  | result (e : Option Errno)
  /-- The number of bytes that were written. -/
  | written (n : Nat)
  /-- The watch descriptor of `inotify_add_watch`. -/
  | watch (wd : Int)
  /-- The time. -/
  | time (t : Nat)
  | timestamp (t : Timestamp)
  /-- What `epoll_wait` returns, with `n_event_max` for its buffer. -/
  | epoll (n_event_max : Nat) (events : List (Wakeup × UInt32))
  /-- The signals that a signalfd has, and how reading ends then. -/
  | signals (sigs : List Nat) (e : Errno)
  | inotify (events : List InotifyEvent)
  | child (si : ChildState)
  deriving DecidableEq, Repr

/-! ## Section 4: The event loop -/

/-- `struct clock_data`, but for its queues; `fd` tells whether there is one,
    and `timerfd` when the timer of the kernel expires. -/
structure ClockData where
  fd : Bool
  next : Nat
  needs_rearm : Bool
  timerfd : Option Nat
  deriving DecidableEq, Repr

/-- `struct signal_data` -/
structure SignalData where
  sigset : List Nat
  current : Option SourceId
  deriving DecidableEq, Repr

/-- `struct inode_data`; `fd` tells whether it is open. -/
structure InodeData where
  fd : Bool
  wd : Option Int
  combined_mask : UInt32
  event_sources : List SourceId
  deriving DecidableEq, Repr

/-- `struct inotify_data`: the inodes that are watched, and the buffer. -/
structure InotifyData where
  inodes : List Inode
  wd : List (Int × Inode)
  n_pending : Nat
  n_busy : Nat
  buffer : List InotifyEvent
  deriving DecidableEq, Repr

/-- The priority queues. -/
inductive Queue where
  | pending | prepare | exit
  | earliest (c : Clock) | latest (c : Clock)
  deriving DecidableEq, Repr

/-- The fields of an event source with its place in a queue. A timer or a
    source that is rate limited is in the queues of one clock only. -/
inductive QueueIndex where
  | pending_index | prepare_index | prioq_index | earliest_index | latest_index
  deriving DecidableEq, Repr

def Queue.index : Queue → QueueIndex
  | .pending => .pending_index
  | .prepare => .prepare_index
  | .exit => .prioq_index
  | .earliest _ => .earliest_index
  | .latest _ => .latest_index

/-- The states of an event loop (`SD_EVENT_INITIAL` and so on). -/
inductive LoopState where
  | initial | armed | pending | running | exiting | finished | preparing
  deriving DecidableEq, Repr

/-- `sd_event`, with the event sources that are allocated, and what epoll has
    been told of them. The hashmaps of signal data and inotify data are by
    priority; `allocated` tells which queues there are, and `has_signal_sources`
    whether there is the array of signal sources. -/
structure SdEvent where
  answers : List Answer
  source : SourceId → Source
  next_source : SourceId
  sources : List SourceId
  n_sources : Nat
  allocated : Queue → Bool
  queue : Queue → List (PrioqItem SourceId SourceId)
  index : QueueIndex → SourceId → Option Nat
  clock : Clock → ClockData
  perturb : Nat
  has_signal_sources : Bool
  signal_sources : Nat → Option SourceId
  signal_data : Int → Option SignalData
  child_sources : List SourceId
  n_online_child_sources : Nat
  post_sources : List SourceId
  inotify_data : Int → Option InotifyData
  inode_data : Int → Inode → Option InodeData
  inode_data_to_close_list : List (Int × Inode)
  buffered_inotify_data_list : List Int
  pressure_write_list : List SourceId
  iteration : Nat
  timestamp : Timestamp
  state : LoopState
  exit_requested : Bool
  need_process_child : Bool
  exit_on_idle : Bool
  watchdog : Bool
  watchdog_last : Nat
  watchdog_period : Nat
  epoll : SourceId → Option UInt32

/-- What `sd_event_new` sets. There is no event source yet. -/
def SdEvent.new : SdEvent where
  answers := []
  source := fun _ => { Source.new .defer with allocated := false, n_ref := 0, connected := false }
  next_source := 0
  sources := []
  n_sources := 0
  allocated := fun q => decide (q = .pending)
  queue := fun _ => []
  index := fun _ _ => none
  clock := fun _ => ⟨false, USEC_INFINITY, false, none⟩
  perturb := USEC_INFINITY
  has_signal_sources := false
  signal_sources := fun _ => none
  signal_data := fun _ => none
  child_sources := []
  n_online_child_sources := 0
  post_sources := []
  inotify_data := fun _ => none
  inode_data := fun _ _ => none
  inode_data_to_close_list := []
  buffered_inotify_data_list := []
  pressure_write_list := []
  iteration := 0
  timestamp := ⟨0, 0, 0⟩
  state := .initial
  exit_requested := false
  need_process_child := false
  exit_on_idle := false
  watchdog := false
  watchdog_last := 0
  watchdog_period := 0
  epoll := fun _ => none

end SdCompat.Event
