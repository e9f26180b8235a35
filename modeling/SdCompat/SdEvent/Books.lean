import SdCompat.SdEvent.SourceCalls

/-! # The books of an event loop

    Which event sources there are, what is known of each, and how many child
    sources are online. Most of what the calls do, with queues, inodes and
    signals, leaves this alone.
-/

namespace SdCompat.Event

open Call

/-! ## Section 1: Books -/

/-- What is known of an event source. -/
structure Info where
  connected : Bool
  type : EventSourceType
  enabled : Enabled
  ratelimited : Bool
  io_registered : Bool
  /-- epoll watches it, and it is an I/O source. -/
  io_watched : Bool
  signal_sig : Nat
  child_pid : Nat
  child_options : UInt32

/-- The event source is online. -/
def Info.online (i : Info) : Bool := i.enabled != .off && !i.ratelimited

/-- It is a child source that is watched through its pidfd. -/
def Info.pidfd (i : Info) : Bool := i.type == .child && i.child_options &&& ~~~WNOWAIT == WEXITED

def Source.info (x : Source) (watched : Bool) : Info where
  connected := x.connected
  type := x.type
  enabled := x.enabled
  ratelimited := x.ratelimited
  io_registered := x.io_registered
  io_watched := x.type == .io && watched
  signal_sig := x.signal_sig
  child_pid := x.child_pid
  child_options := x.child_options

/-- The books. -/
structure Books where
  sources : List SourceId
  n_sources : Nat
  next_source : SourceId
  has_signal_sources : Bool
  signal_sources : Nat → Option SourceId
  n_online_child_sources : Nat
  info : SourceId → Info

def SdEvent.books (e : SdEvent) : Books where
  sources := e.sources
  n_sources := e.n_sources
  next_source := e.next_source
  has_signal_sources := e.has_signal_sources
  signal_sources := e.signal_sources
  n_online_child_sources := e.n_online_child_sources
  info := fun s => (e.source s).info (e.epoll s).isSome

/-- There is a signalfd for `SIGCHLD`. -/
def SdEvent.sigchld (e : SdEvent) : Prop := ∃ p d, e.signal_data p = some d ∧ SIGCHLD ∈ d.sigset

/-- These are the books, and `SIGCHLD` is watched if it has to be. -/
def At (B : Books) (W : Prop) (e : SdEvent) : Prop := e.books = B ∧ (W → e.sigchld)

/-- An entry in the books. -/
def Books.set (B : Books) (s : SourceId) (i : Info) : Books :=
  { B with info := fun t => if t = s then i else B.info t }

theorem Books.set_self (B : Books) (s : SourceId) : B.set s (B.info s) = B := by
  unfold Books.set
  congr 1
  funext t
  split
  · next h => rw [h]
  · rfl

theorem books_set_source (e : SdEvent) (s : SourceId) (x : Source) :
    (e.set_source s x).books = e.books.set s (x.info (e.epoll s).isSome) := by
  unfold SdEvent.books SdEvent.set_source Books.set
  congr 1
  funext t
  dsimp only
  split
  · next h => rw [h]
  · rfl

/-- What only concerns the rest of an event source. -/
theorem books_set_source_same {e : SdEvent} {s : SourceId} {x : Source}
    (h : ∀ w, x.info w = (e.source s).info w) : (e.set_source s x).books = e.books := by
  rw [books_set_source, h]
  exact Books.set_self e.books s

/-! ## Section 2: What leaves the books alone -/

section frame
variable {B : Books} {W : Prop} {s : SourceId}

variable {E : SdEvent → Prop} {e : SdEvent}

/-- An answer is taken, and nothing else happens. -/
theorem holds_ask : Holds ask e (fun _ e' => ∃ answers, e' = { e with answers := answers }) E := by
  unfold Holds
  cases ha : e.answers with
  | nil =>
    have hask : ask e = (.ok none, e) := by
      unfold ask
      rw [ha]
    rw [hask]
    exact ⟨e.answers, rfl⟩
  | cons a answers =>
    have hask : ask e = (.ok (some a), { e with answers := answers }) := by
      unfold ask
      rw [ha]
    rw [hask]
    exact ⟨answers, rfl⟩

theorem keeps_ask : Keeps (At B W) ask := by
  intro e h
  refine holds_mono holds_ask ?_ fun _ h => h
  rintro a e' ⟨answers, rfl⟩
  exact h

theorem keeps_syscall : Keeps (At B W) syscall := by
  refine keeps_bind keeps_ask fun a => ?_
  split
  · exact keeps_fail _
  · exact keeps_pure _

theorem keeps_alloc : Keeps (At B W) alloc := by
  refine keeps_bind keeps_ask fun a => ?_
  split
  · exact keeps_fail _
  · exact keeps_pure _

theorem keeps_source (s : SourceId) : Keeps (At B W) (source s) := by
  exact keeps_bind keeps_get fun e => keeps_bind (keeps_assert _) fun _ => keeps_pure _

/-- What is looked at has not been freed. -/
theorem holds_source : Holds (source s) e (fun x e' => x = e.source s ∧ e' = e) E := by
  exact holds_get_bind (holds_assert_bind fun _ => ⟨rfl, rfl⟩)

variable {Q : PUnit → SdEvent → Prop} {f : Source → Source}

theorem holds_update (h : Q ⟨⟩ (e.set_source s (f (e.source s)))) : Holds (update s f) e Q E := by
  refine holds_bind holds_source ?_
  rintro x e' ⟨rfl, rfl⟩
  exact holds_modify h

/-- A change of what is not in the books. -/
theorem keeps_update (s : SourceId) (hf : ∀ x w, (f x).info w = x.info w) :
    Keeps (At B W) (update s f) := by
  intro e h
  exact holds_update ⟨(books_set_source_same fun w => hf _ w).trans h.1, h.2⟩

theorem keeps_prioq_ensure_allocated (q : Queue) : Keeps (At B W) (prioq_ensure_allocated q) := by
  refine keeps_bind keeps_get fun e => keeps_ite (keeps_pure _) ?_
  exact keeps_bind keeps_alloc fun _ => keeps_modify fun _ h => h

theorem keeps_prioq_put (q : Queue) (s : SourceId) : Keeps (At B W) (prioq_put q s) := by
  exact keeps_bind keeps_alloc fun _ => keeps_modify fun _ h => h

theorem keeps_prioq_remove (q : Queue) (s : SourceId) : Keeps (At B W) (prioq_remove q s) := by
  refine keeps_bind keeps_get fun e => keeps_bind keeps_get fun e' => ?_
  exact keeps_bind (keeps_modify fun _ h => h) fun _ => keeps_pure _

theorem keeps_prioq_reshuffle (q : Queue) (s : SourceId) :
    Keeps (At B W) (prioq_reshuffle q s) := by
  exact keeps_modify fun _ h => h

theorem keeps_pp_prioq_reshuffle (s : SourceId) :
    Keeps (At B W) (event_source_pp_prioq_reshuffle s) := by
  refine keeps_bind (keeps_source s) fun x => ?_
  exact keeps_bind (keeps_when (keeps_prioq_reshuffle _ _)) fun _ =>
    keeps_when (keeps_prioq_reshuffle _ _)

theorem keeps_update_clock (c : Clock) (f : ClockData → ClockData) :
    Keeps (At B W) (update_clock c f) := by
  exact keeps_modify fun _ h => h

theorem keeps_time_prioq_reshuffle (s : SourceId) :
    Keeps (At B W) (event_source_time_prioq_reshuffle s) := by
  refine keeps_bind (keeps_source s) fun x => ?_
  split
  · exact keeps_pure _
  · exact keeps_bind (keeps_prioq_reshuffle _ _) fun _ =>
      keeps_bind (keeps_prioq_reshuffle _ _) fun _ => keeps_update_clock _ _

theorem keeps_time_prioq_remove (s : SourceId) (c : Clock) :
    Keeps (At B W) (event_source_time_prioq_remove s c) := by
  refine keeps_bind (keeps_prioq_remove _ _) fun _ => keeps_bind (keeps_prioq_remove _ _) fun _ => ?_
  exact keeps_bind (keeps_modify fun _ h => h) fun _ => keeps_update_clock _ _

theorem keeps_time_prioq_put (s : SourceId) (c : Clock) :
    Keeps (At B W) (event_source_time_prioq_put s c) := by
  refine keeps_bind (keeps_prioq_put _ _) fun _ => keeps_bind (keeps_cleanup (keeps_prioq_put _ _) ?_)
    fun _ => keeps_update_clock _ _
  exact keeps_bind (keeps_prioq_remove _ _) fun _ => keeps_bind (keeps_assert _) fun _ =>
    keeps_modify fun _ h => h

theorem keeps_setup_clock_data (c : Clock) : Keeps (At B W) (setup_clock_data c) := by
  refine keeps_bind keeps_get fun e => keeps_bind (keeps_when ?_) fun _ => ?_
  · exact keeps_bind keeps_syscall fun _ => keeps_bind keeps_syscall fun _ => keeps_update_clock _ _
  · exact keeps_bind (keeps_prioq_ensure_allocated _) fun _ => keeps_prioq_ensure_allocated _

/-! ### Inotify data -/

section
variable (p : Int)
include p

theorem keeps_set_inotify_data (d : Option InotifyData) :
    Keeps (At B W) (set_inotify_data p d) := by
  exact keeps_modify fun _ h => h

theorem keeps_set_inode_data (i : Inode) (d : Option InodeData) :
    Keeps (At B W) (set_inode_data p i d) := by
  exact keeps_modify fun _ h => h

theorem keeps_the_inotify_data : Keeps (At B W) (the_inotify_data p) := by
  refine keeps_bind keeps_get fun e => ?_
  split
  · exact keeps_pure _
  · exact keeps_abort

theorem keeps_the_inode_data (i : Inode) : Keeps (At B W) (the_inode_data p i) := by
  refine keeps_bind keeps_get fun e => ?_
  split
  · exact keeps_pure _
  · exact keeps_abort

theorem keeps_free_inotify_data : Keeps (At B W) (event_free_inotify_data p) := by
  refine keeps_bind (keeps_the_inotify_data p) fun d => keeps_bind (keeps_assert _) fun _ => ?_
  refine keeps_bind (keeps_assert _) fun _ => keeps_bind (keeps_when ?_) fun _ => ?_
  · exact keeps_modify fun _ h => h
  · exact keeps_set_inotify_data _ _

theorem keeps_make_inotify_data : Keeps (At B W) (event_make_inotify_data p) := by
  refine keeps_bind keeps_get fun e => ?_
  split
  · exact keeps_pure _
  · refine keeps_bind keeps_syscall fun _ => keeps_bind keeps_alloc fun _ => ?_
    refine keeps_bind (keeps_set_inotify_data _ _) fun _ => ?_
    exact keeps_bind (keeps_cleanup keeps_syscall (keeps_free_inotify_data p)) fun _ => keeps_pure _

theorem keeps_free_inode_data (i : Inode) : Keeps (At B W) (event_free_inode_data p i) := by
  refine keeps_bind (keeps_the_inode_data p i) fun d => keeps_bind (keeps_assert _) fun _ => ?_
  refine keeps_bind (keeps_when (keeps_modify fun _ h => h)) fun _ => ?_
  refine keeps_bind (keeps_the_inotify_data p) fun o => ?_
  exact keeps_bind (keeps_set_inotify_data _ _) fun _ => keeps_set_inode_data _ _ _

theorem keeps_gc_inotify_data : Keeps (At B W) (event_gc_inotify_data p) := by
  refine keeps_bind (keeps_the_inotify_data p) fun d => ?_
  exact keeps_ite (keeps_pure _) (keeps_free_inotify_data p)

theorem keeps_gc_inode_data (i : Inode) : Keeps (At B W) (event_gc_inode_data p i) := by
  refine keeps_bind (keeps_the_inode_data p i) fun d => keeps_ite (keeps_pure _) ?_
  exact keeps_bind (keeps_free_inode_data p i) fun _ => keeps_gc_inotify_data p

theorem keeps_make_inode_data (i : Inode) : Keeps (At B W) (event_make_inode_data p i) := by
  refine keeps_bind keeps_get fun e => ?_
  split
  · exact keeps_pure _
  · refine keeps_bind keeps_alloc fun _ => keeps_bind (keeps_the_inotify_data p) fun o => ?_
    refine keeps_bind (keeps_set_inotify_data _ _) fun _ => ?_
    exact keeps_bind (keeps_set_inode_data _ _ _) fun _ => keeps_pure _

end

theorem keeps_inotify_add_watch_fd (i : Inode) : Keeps (At B W) (inotify_add_watch_fd i) := by
  refine keeps_bind keeps_ask fun a => ?_
  split
  · exact keeps_fail _
  · exact keeps_pure _
  · exact keeps_pure _

theorem keeps_realize_watch (p : Int) (i : Inode) :
    Keeps (At B W) (inode_data_realize_watch p i) := by
  refine keeps_bind (keeps_the_inode_data p i) fun d => keeps_bind (keeps_assert _) fun _ => ?_
  refine keeps_bind keeps_get fun e => keeps_ite (keeps_pure _) ?_
  refine keeps_bind (keeps_inotify_add_watch_fd i) fun wd => ?_
  split
  · refine keeps_bind keeps_alloc fun _ => keeps_bind (keeps_the_inotify_data p) fun o => ?_
    exact keeps_bind (keeps_set_inotify_data _ _) fun _ => keeps_set_inode_data _ _ _
  · exact keeps_bind (keeps_check _ _) fun _ => keeps_set_inode_data _ _ _

theorem keeps_open_inode (p : Int) (i : Inode) : Keeps (At B W) (open_inode p i) := by
  refine keeps_bind (keeps_the_inode_data p i) fun d => keeps_when ?_
  refine keeps_bind keeps_syscall fun _ => keeps_bind (keeps_set_inode_data _ _ _) fun _ => ?_
  exact keeps_bind (keeps_modify fun _ h => h) fun _ => keeps_syscall

theorem keeps_attach_inode (s : SourceId) (p : Int) (i : Inode) :
    Keeps (At B W) (attach_inode s p i) := by
  refine keeps_bind (keeps_the_inode_data p i) fun d => ?_
  exact keeps_bind (keeps_set_inode_data _ _ _) fun _ => keeps_update s fun _ _ => rfl

theorem keeps_detach_inode (s : SourceId) (p : Int) (i : Inode) :
    Keeps (At B W) (detach_inode s p i) := by
  exact keeps_bind (keeps_the_inode_data p i) fun d => keeps_set_inode_data _ _ _

theorem keeps_move_inotify_source (s : SourceId) (old new : Int) (i : Inode) :
    Keeps (At B W) (move_inotify_source s old new i) := by
  refine keeps_bind (keeps_open_inode _ _) fun _ => keeps_bind (keeps_detach_inode _ _ _) fun _ => ?_
  refine keeps_bind (keeps_attach_inode _ _ _) fun _ => keeps_cleanup (keeps_realize_watch _ _) ?_
  exact keeps_bind (keeps_detach_inode _ _ _) fun _ => keeps_attach_inode _ _ _

theorem keeps_inotify_pending (s : SourceId) (b : Bool) : Keeps (At B W) (inotify_pending s b) := by
  refine keeps_bind (keeps_source s) fun x => ?_
  split
  · exact keeps_abort
  · refine keeps_bind (keeps_the_inode_data _ _) fun _ => ?_
    refine keeps_bind (keeps_the_inotify_data _) fun d => ?_
    exact keeps_bind (keeps_assert _) fun _ => keeps_set_inotify_data _ _

theorem keeps_disconnect_inotify (s : SourceId) : Keeps (At B W) (source_disconnect_inotify s) := by
  refine keeps_bind (keeps_source s) fun x => ?_
  split
  · exact keeps_pure _
  · refine keeps_bind (keeps_the_inode_data _ _) fun d => ?_
    refine keeps_bind (keeps_set_inode_data _ _ _) fun _ => ?_
    refine keeps_bind (keeps_update s fun _ _ => rfl) fun _ => ?_
    refine keeps_bind (keeps_when ?_) fun _ => keeps_gc_inode_data _ _
    refine keeps_bind (keeps_the_inotify_data _) fun o => ?_
    exact keeps_bind (keeps_assert _) fun _ => keeps_set_inotify_data _ _

/-! ### Signal data -/

variable {p : Int}

/-- Signals that are watched for a priority stay so. -/
theorem sigchld_set {d : SignalData}
    (hd : ∀ d', e.signal_data p = some d' → SIGCHLD ∈ d'.sigset → SIGCHLD ∈ d.sigset)
    (h : e.sigchld) :
    { e with signal_data := fun q => if q = p then some d else e.signal_data q }.sigchld := by
  obtain ⟨q, d', hq, hmem⟩ := h
  by_cases hqp : q = p
  · subst hqp
    exact ⟨q, d, by simp, hd d' hq hmem⟩
  · exact ⟨q, d', by simp [hqp, hq], hmem⟩

/-- The priority of the event source of a signal, or the normal one. -/
def SdEvent.priority_of (e : SdEvent) (sig : Nat) : Int :=
  match e.signal_sources sig with
  | some s => (e.source s).priority
  | none => 0

theorem holds_signal_priority (sig : Nat) :
    Holds (signal_priority sig) e (fun p e' => p = e.priority_of sig ∧ e' = e) E := by
  unfold signal_priority SdEvent.priority_of
  refine holds_get_bind ?_
  cases hs : e.signal_sources sig with
  | some s =>
    refine holds_bind holds_source ?_
    rintro x e' ⟨rfl, rfl⟩
    exact ⟨rfl, rfl⟩
  | none => exact ⟨rfl, rfl⟩

theorem keeps_signal_current_clear (s : SourceId) : Keeps (At B W) (signal_current_clear s) := by
  refine keeps_bind (keeps_source s) fun x => fun e h => holds_get_bind ?_
  cases hd : e.signal_data x.priority with
  | none => exact h
  | some d =>
    dsimp only
    split
    · refine ⟨h.1, fun hW => sigchld_set ?_ (h.2 hW)⟩
      intro d' hd' hmem
      obtain rfl := Option.some.inj (hd.symm.trans hd')
      exact hmem
    · exact h

theorem keeps_set_pending (s : SourceId) (b : Bool) : Keeps (At B W) (source_set_pending s b) := by
  refine keeps_bind (keeps_source s) fun x => keeps_bind (keeps_assert _) fun _ => ?_
  refine keeps_ite (keeps_pure _) (keeps_bind keeps_get fun e => ?_)
  -- what follows for both values
  have hrest : Keeps (At B W) (do
      when x.type.clock.isSome (event_source_time_prioq_reshuffle s)
      when (x.type == .signal && !b) (signal_current_clear s)
      when (x.type == .inotify) (inotify_pending s b)
      pure true) := by
    refine keeps_bind (keeps_when (keeps_time_prioq_reshuffle s)) fun _ => ?_
    refine keeps_bind (keeps_when (keeps_signal_current_clear s)) fun _ => ?_
    exact keeps_bind (keeps_when (keeps_inotify_pending s b)) fun _ => keeps_pure _
  split
  · refine keeps_bind (keeps_update s fun _ _ => rfl) fun _ => ?_
    refine keeps_bind ?_ fun _ => hrest
    exact keeps_cleanup (keeps_prioq_put _ _) (keeps_update s fun _ _ => rfl)
  · refine keeps_bind (keeps_update s fun _ _ => rfl) fun _ => ?_
    exact keeps_bind (keeps_prioq_remove _ _) fun _ => keeps_bind (keeps_assert _) fun _ => hrest

variable {sig : Nat}

/-- `SIGCHLD` is not unmasked if it has to be watched. -/
theorem keeps_unmask_signal_data (p : Int) (hs : sig = SIGCHLD → ¬ W) :
    Keeps (At B W) (event_unmask_signal_data p sig) := by
  intro e h
  refine holds_get_bind ?_
  cases hd : e.signal_data p with
  | none => exact h
  | some d =>
    dsimp only
    -- what stays in the set, if `SIGCHLD` was in it
    have hmem : W → ∀ d', e.signal_data p = some d' → SIGCHLD ∈ d'.sigset →
        SIGCHLD ∈ d.sigset.erase sig := by
      intro hW d' hd' hmem
      obtain rfl := Option.some.inj (hd.symm.trans hd')
      exact (List.mem_erase_of_ne fun heq => hs heq.symm hW).mpr hmem
    split
    · exact h
    split
    · next hnil =>
      refine ⟨h.1, fun hW => ?_⟩
      obtain ⟨q, d', hq, hin⟩ := h.2 hW
      have hqp : q ≠ p := by
        rintro rfl
        have hin' := hmem hW d' hq hin
        rw [hnil] at hin'
        cases hin'
      exact ⟨q, d', by simp [hqp, hq], hin⟩
    · exact ⟨h.1, fun hW => sigchld_set (hmem hW) (h.2 hW)⟩

theorem holds_signal_wanted (h : At B W e) : Holds (signal_wanted sig) e
      (fun b e' => At B W e' ∧ (b = false → sig = SIGCHLD → B.n_online_child_sources = 0))
      (At B W) := by
  refine holds_get_bind ?_
  split
  · exact ⟨h, fun hf => by cases hf⟩
  · next hn =>
    have hzero : sig = SIGCHLD → B.n_online_child_sources = 0 := by
      intro hsig
      rw [← h.1]
      exact Nat.eq_zero_of_not_pos fun hpos => hn ⟨hsig, hpos⟩
    split
    · refine holds_bind holds_source ?_
      rintro x e' ⟨_, rfl⟩
      exact ⟨h, fun _ => hzero⟩
    · exact ⟨h, fun _ => hzero⟩

/-- `SIGCHLD` stays while child sources are online. -/
theorem keeps_gc_signal_data (p : Int) (hs : sig = SIGCHLD → W → 0 < B.n_online_child_sources) :
    Keeps (At B W) (event_gc_signal_data p sig) := by
  intro e h
  refine holds_bind (holds_signal_wanted h) ?_
  rintro b e' ⟨h', hb⟩
  cases b with
  | true => exact h'
  | false =>
    have hW : sig = SIGCHLD → ¬ W := by
      intro hsig hW
      have hpos := hs hsig hW
      rw [hb rfl hsig] at hpos
      exact Nat.lt_irrefl 0 hpos
    refine keeps_bind (keeps_unmask_signal_data p hW) (fun _ => keeps_bind keeps_get fun e => ?_) e' h'
    split
    · refine keeps_bind (keeps_source _) fun x => ?_
      exact keeps_bind (keeps_unmask_signal_data _ hW) fun _ => keeps_unmask_signal_data _ hW
    · exact keeps_unmask_signal_data _ hW

theorem holds_syscall (h : ∀ answers, Q ⟨⟩ { e with answers := answers })
    (hE : ∀ answers, E { e with answers := answers }) : Holds syscall e Q E := by
  refine holds_bind holds_ask ?_
  rintro a e' ⟨answers, rfl⟩
  split
  · exact hE answers
  · exact h answers

/-- `SIGCHLD` is watched for another priority. -/
def SdEvent.sigchld_but (e : SdEvent) (p : Int) : Prop :=
  ∃ q d, q ≠ p ∧ e.signal_data q = some d ∧ SIGCHLD ∈ d.sigset

theorem sigchld_but_set (d : Option SignalData) (h : e.sigchld_but p) :
    { e with signal_data := fun q => if q = p then d else e.signal_data q }.sigchld_but p := by
  obtain ⟨q, d', hqp, hq, hmem⟩ := h
  exact ⟨q, d', hqp, by simp [hqp, hq], hmem⟩

theorem SdEvent.sigchld_but.sigchld (h : e.sigchld_but p) : e.sigchld := by
  obtain ⟨q, d, _, hq, hmem⟩ := h
  exact ⟨q, d, hq, hmem⟩

/-- The signal is watched for this priority. -/
def SdEvent.watches (e : SdEvent) (p : Int) (sig : Nat) : Prop :=
  ∃ d, e.signal_data p = some d ∧ sig ∈ d.sigset

/-- New signal data; where that fails, they are gone again. -/
theorem holds_make_new_signal_data (h : At B W e) (hd : e.signal_data p = none) :
    Holds (do
      alloc
      set_signal_data p (some ⟨[], none⟩)
      cleanup (do
        syscall
        set_signal_data p (some ⟨[sig], none⟩)
        syscall)
        (event_free_signal_data p)
      pure p) e (fun q e' => q = p ∧ At B W e' ∧ e'.watches p sig) (At B W) := by
  have hbut : W → e.sigchld_but p := by
    intro hW
    obtain ⟨q, d, hq, hmem⟩ := h.2 hW
    refine ⟨q, d, ?_, hq, hmem⟩
    rintro rfl
    rw [hd] at hq
    cases hq
  have halloc : Holds alloc e (fun _ e' => At B W e' ∧ (W → e'.sigchld_but p)) (At B W) := by
    refine holds_bind holds_ask ?_
    rintro a e' ⟨answers, rfl⟩
    split
    · exact h
    · exact ⟨h, hbut⟩
  refine holds_bind halloc ?_
  rintro _ e1 ⟨h1, hbut1⟩
  refine holds_modify_bind (holds_bind (R := fun _ e' => At B W e' ∧ e'.watches p sig) ?_
    fun _ _ h => ⟨rfl, h⟩)
  -- what is left for the cleanup
  refine holds_cleanup (F := fun e' => e'.books = B ∧ (W → e'.sigchld_but p)) ?_ ?_
  · refine holds_bind (R := fun _ e' => e'.books = B ∧ (W → e'.sigchld_but p)) ?_ ?_
    · exact holds_syscall (fun _ => ⟨h1.1, fun hW => sigchld_but_set _ (hbut1 hW)⟩)
        fun _ => ⟨h1.1, fun hW => sigchld_but_set _ (hbut1 hW)⟩
    · rintro _ e2 ⟨hb, hbut2⟩
      refine holds_modify_bind (holds_syscall (fun _ => ⟨⟨hb, fun hW => ?_⟩, ?_⟩)
        fun _ => ⟨hb, fun hW => ?_⟩)
      · exact (sigchld_but_set _ (hbut2 hW)).sigchld
      · exact ⟨⟨[sig], none⟩, by simp, List.mem_singleton.mpr rfl⟩
      · exact sigchld_but_set _ (hbut2 hW)
  · rintro e2 ⟨hb, hbut2⟩
    exact ⟨hb, fun hW => (sigchld_but_set _ (hbut2 hW)).sigchld⟩

/-- The signal is watched, for the priority of its event source, or everything
    is as it was. -/
theorem holds_make_signal_data (sig : Nat) (h : At B W e) : Holds (event_make_signal_data sig) e
      (fun p e' => p = e.priority_of sig ∧ At B W e' ∧ e'.watches p sig) (At B W) := by
  refine holds_bind (holds_signal_priority sig) ?_
  rintro p e1 ⟨rfl, rfl⟩
  refine holds_get_bind ?_
  cases hd : e1.signal_data (e1.priority_of sig) with
  | none =>
    refine holds_mono (holds_make_new_signal_data h hd) ?_ fun _ h => h
    rintro p e' ⟨rfl, h', hw⟩
    exact ⟨rfl, h', hw⟩
  | some d =>
    dsimp only
    split
    · next hmem => exact ⟨rfl, h, d, hd, hmem⟩
    · refine holds_bind (R := fun _ e' => At B W e' ∧
          e'.signal_data (e1.priority_of sig) = some d)
        (holds_syscall (fun _ => ⟨h, hd⟩) fun _ => h) ?_
      rintro _ e2 ⟨h2, hd2⟩
      refine holds_modify_bind ⟨rfl, ⟨h2.1, fun hW => sigchld_set ?_ (h2.2 hW)⟩,
        { d with sigset := sig :: d.sigset }, by simp, List.mem_cons_self⟩
      intro d' hd' hmem
      obtain rfl := Option.some.inj (hd2.symm.trans hd')
      exact List.mem_cons_of_mem _ hmem

theorem keeps_make_signal_data (sig : Nat) : Keeps (At B W) (event_make_signal_data sig) := by
  intro e h
  exact holds_mono (holds_make_signal_data sig h) (fun _ _ h => h.2.1) fun _ h => h

end frame

/-! ## Section 3: What does not fail -/

section noerr
variable {s : SourceId}

theorem noerr_source (s : SourceId) : NoErr (source s) := by
  exact noerr_bind noerr_get fun e => noerr_bind (noerr_assert _) fun _ => noerr_pure _

theorem noerr_update (s : SourceId) (f : Source → Source) : NoErr (update s f) := by
  exact noerr_bind (noerr_source s) fun x => noerr_modify _

theorem noerr_prioq_remove (q : Queue) (s : SourceId) : NoErr (prioq_remove q s) := by
  refine noerr_bind noerr_get fun e => noerr_bind noerr_get fun e' => ?_
  exact noerr_bind (noerr_modify _) fun _ => noerr_pure _

theorem noerr_prioq_reshuffle (q : Queue) (s : SourceId) : NoErr (prioq_reshuffle q s) := by
  exact noerr_modify _

theorem noerr_pp_prioq_reshuffle (s : SourceId) : NoErr (event_source_pp_prioq_reshuffle s) := by
  refine noerr_bind (noerr_source s) fun x => ?_
  exact noerr_bind (noerr_when (noerr_prioq_reshuffle _ _)) fun _ =>
    noerr_when (noerr_prioq_reshuffle _ _)

theorem noerr_time_prioq_reshuffle (s : SourceId) :
    NoErr (event_source_time_prioq_reshuffle s) := by
  refine noerr_bind (noerr_source s) fun x => ?_
  split
  · exact noerr_pure _
  · exact noerr_bind (noerr_prioq_reshuffle _ _) fun _ =>
      noerr_bind (noerr_prioq_reshuffle _ _) fun _ => noerr_modify _

theorem noerr_time_prioq_remove (s : SourceId) (c : Clock) :
    NoErr (event_source_time_prioq_remove s c) := by
  refine noerr_bind (noerr_prioq_remove _ _) fun _ => noerr_bind (noerr_prioq_remove _ _) fun _ => ?_
  exact noerr_bind (noerr_modify _) fun _ => noerr_modify _

theorem noerr_unmask_signal_data (p : Int) (sig : Nat) : NoErr (event_unmask_signal_data p sig) := by
  refine noerr_bind noerr_get fun e => ?_
  split
  · exact noerr_pure _
  · exact noerr_ite (noerr_pure _) (noerr_ite (noerr_modify _) (noerr_modify _))

theorem noerr_signal_wanted (sig : Nat) : NoErr (signal_wanted sig) := by
  refine noerr_bind noerr_get fun e => noerr_ite (noerr_pure _) ?_
  split
  · exact noerr_bind (noerr_source _) fun x => noerr_pure _
  · exact noerr_pure _

theorem noerr_gc_signal_data (p : Int) (sig : Nat) : NoErr (event_gc_signal_data p sig) := by
  refine noerr_bind (noerr_signal_wanted sig) fun b => noerr_ite (noerr_pure _) ?_
  refine noerr_bind (noerr_unmask_signal_data _ _) fun _ => noerr_bind noerr_get fun e => ?_
  split
  · refine noerr_bind (noerr_source _) fun x => ?_
    exact noerr_bind (noerr_unmask_signal_data _ _) fun _ => noerr_unmask_signal_data _ _
  · exact noerr_unmask_signal_data _ _

theorem noerr_the_inotify_data (p : Int) : NoErr (the_inotify_data p) := by
  refine noerr_bind noerr_get fun e => ?_
  split
  · exact noerr_pure _
  · exact noerr_abort

theorem noerr_the_inode_data (p : Int) (i : Inode) : NoErr (the_inode_data p i) := by
  refine noerr_bind noerr_get fun e => ?_
  split
  · exact noerr_pure _
  · exact noerr_abort

theorem noerr_gc_inode_data (p : Int) (i : Inode) : NoErr (event_gc_inode_data p i) := by
  refine noerr_bind (noerr_the_inode_data p i) fun d => noerr_ite (noerr_pure _) ?_
  refine noerr_bind (noerr_bind (noerr_the_inode_data p i) fun d' => ?_) fun _ => ?_
  · refine noerr_bind (noerr_assert _) fun _ => noerr_bind (noerr_when (noerr_modify _)) fun _ => ?_
    refine noerr_bind (noerr_the_inotify_data p) fun o => ?_
    exact noerr_bind (noerr_modify _) fun _ => noerr_modify _
  · refine noerr_bind (noerr_the_inotify_data p) fun o => noerr_ite (noerr_pure _) ?_
    refine noerr_bind (noerr_the_inotify_data p) fun o' => noerr_bind (noerr_assert _) fun _ => ?_
    refine noerr_bind (noerr_assert _) fun _ => noerr_bind (noerr_when (noerr_modify _)) fun _ => ?_
    exact noerr_modify _

theorem noerr_disconnect_inotify (s : SourceId) : NoErr (source_disconnect_inotify s) := by
  refine noerr_bind (noerr_source s) fun x => ?_
  split
  · exact noerr_pure _
  · refine noerr_bind (noerr_the_inode_data _ _) fun d => noerr_bind (noerr_modify _) fun _ => ?_
    refine noerr_bind (noerr_update s _) fun _ => ?_
    refine noerr_bind (noerr_when ?_) fun _ => noerr_gc_inode_data _ _
    refine noerr_bind (noerr_the_inotify_data _) fun o => ?_
    exact noerr_bind (noerr_assert _) fun _ => noerr_modify _

theorem noerr_remove_from_write_list (s : SourceId) :
    NoErr (source_pressure_remove_from_write_list s) := by
  refine noerr_bind (noerr_source s) fun x => noerr_when ?_
  exact noerr_bind (noerr_modify _) fun _ => noerr_update s _

end noerr

end SdCompat.Event
