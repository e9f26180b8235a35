import SdCompat.SdEvent.Books

/-! # Event sources online and offline (sd-event.c)

    Turning event sources on and off, and limiting their rate, leaves good books
    whatever fails: an I/O source is registered with epoll if and only if it is
    online, the online child sources are counted, and `SIGCHLD` is watched while
    one of them needs it.
-/

namespace SdCompat.Event

open Call Info Books Bool

/-! ## Section 1: Good books -/

/-- A child source that is online. -/
def Info.counted (i : Info) : Bool := i.type == .child && i.online

/-- One that is not watched through its pidfd. -/
def Info.needs_sigchld (i : Info) : Bool := i.counted && !i.pidfd

/-- An I/O source is registered if and only if it is online. -/
def Info.io_ok (i : Info) : Prop :=
  i.type = .io → i.io_registered = i.online ∧ i.io_watched = i.online

/-- A child source has a child. -/
def Info.pid_ok (i : Info) : Prop := i.type = .child → 0 < i.child_pid

/-- The list of event sources, and that of signal sources. -/
structure Books.Base (B : Books) : Prop where
  n_sources : B.n_sources = B.sources.length
  nodup : B.sources.Nodup
  lt : ∀ s ∈ B.sources, s < B.next_source
  connected : ∀ s, (B.info s).connected = true ↔ s ∈ B.sources
  array : B.has_signal_sources = false → ∀ sig, B.signal_sources sig = none
  signal : ∀ s ∈ B.sources, (B.info s).type = .signal → 0 < (B.info s).signal_sig →
    B.signal_sources (B.info s).signal_sig = some s

/-- The books are good. -/
structure Books.Ok (B : Books) : Prop extends B.Base where
  io : ∀ s ∈ B.sources, (B.info s).io_ok
  pid : ∀ s ∈ B.sources, (B.info s).pid_ok
  child : B.n_online_child_sources = B.sources.countP fun s => (B.info s).counted

/-- The books are good but for this event source, which counts `c` times. -/
structure Books.But (B : Books) (s : SourceId) (c : Nat) : Prop extends B.Base where
  mem : s ∈ B.sources
  io : ∀ t ∈ B.sources.erase s, (B.info t).io_ok
  pid : ∀ t ∈ B.sources.erase s, (B.info t).pid_ok
  child : B.n_online_child_sources = ((B.sources.erase s).countP fun t => (B.info t).counted) + c

/-- An event source needs `SIGCHLD`. -/
def Books.needs (B : Books) : Prop := ∃ s ∈ B.sources, (B.info s).needs_sigchld = true

/-- One of the others does. -/
def Books.needs_but (B : Books) (s : SourceId) : Prop :=
  ∃ t ∈ B.sources.erase s, (B.info t).needs_sigchld = true

namespace Books

variable {B : Books} {s t : SourceId} {c : Nat} {i : Info}

theorem set_info_self : (B.set s i).info s = i := if_pos rfl

theorem set_info_of_ne (h : t ≠ s) : (B.set s i).info t = B.info t := if_neg h

theorem Ok.but (h : B.Ok) (hs : s ∈ B.sources) : B.But s (B.info s).counted.toNat := by
  refine ⟨h.toBase, hs, fun t ht => h.io t (List.mem_of_mem_erase ht),
    fun t ht => h.pid t (List.mem_of_mem_erase ht), ?_⟩
  rw [h.child, (List.perm_cons_erase hs).countP_eq, List.countP_cons]
  cases (B.info s).counted with
  | true => rfl
  | false => rfl

theorem But.ok (h : B.But s c) (hio : (B.info s).io_ok) (hpid : (B.info s).pid_ok)
    (hc : c = (B.info s).counted.toNat) : B.Ok := by
  have hall : ∀ P : SourceId → Prop, (∀ t ∈ B.sources.erase s, P t) → P s → ∀ t ∈ B.sources, P t := by
    intro P hothers hself t ht
    by_cases hts : t = s
    · rw [hts]
      exact hself
    · exact hothers t ((List.mem_erase_of_ne hts).mpr ht)
  refine ⟨h.toBase, hall _ h.io hio, hall _ h.pid hpid, ?_⟩
  rw [h.child, (List.perm_cons_erase h.mem).countP_eq, List.countP_cons, hc]
  cases (B.info s).counted with
  | true => rfl
  | false => rfl

theorem But.ne (h : B.But s c) (ht : t ∈ B.sources.erase s) : t ≠ s :=
  (h.nodup.mem_erase_iff.mp ht).1

/-- The event source itself changes. -/
theorem But.set (h : B.But s c) (hcon : i.connected = true)
    (hsig : i.type = .signal → 0 < i.signal_sig → B.signal_sources i.signal_sig = some s) :
    (B.set s i).But s c := by
  have hinfo : ∀ t ∈ B.sources.erase s, (B.set s i).info t = B.info t :=
    fun t ht => set_info_of_ne (h.ne ht)
  refine ⟨⟨h.n_sources, h.nodup, h.lt, ?_, h.array, ?_⟩, h.mem, ?_, ?_, ?_⟩
  · intro t
    by_cases hts : t = s
    · rw [hts, set_info_self]
      exact iff_of_true hcon h.mem
    · rw [set_info_of_ne hts]
      exact h.connected t
  · intro t ht
    by_cases hts : t = s
    · rw [hts, set_info_self]
      exact hsig
    · rw [set_info_of_ne hts]
      exact h.signal t ht
  · intro t ht
    rw [hinfo t ht]
    exact h.io t ht
  · intro t ht
    rw [hinfo t ht]
    exact h.pid t ht
  · refine h.child.trans ?_
    congr 1
    exact List.countP_congr fun t ht => by rw [hinfo t ht]

theorem But.recount (h : B.But s c) {n d : Nat} (hn : n + c = B.n_online_child_sources + d) :
    { B with n_online_child_sources := n }.But s d := by
  refine ⟨⟨h.n_sources, h.nodup, h.lt, h.connected, h.array, h.signal⟩, h.mem, h.io, h.pid, ?_⟩
  have hchild := h.child
  show n = ((B.sources.erase s).countP fun t => (B.info t).counted) + d
  omega

/-- An event source that is neither an I/O source nor a child source. -/
theorem But.ok_of_type (h : B.But s 0) (hio : (B.info s).type ≠ .io)
    (hchild : (B.info s).type ≠ .child) : B.Ok := by
  refine h.ok (fun hty => absurd hty hio) (fun hty => absurd hty hchild) ?_
  have hcounted : (B.info s).counted = false := by
    unfold counted
    simp [hchild]
  rw [hcounted]
  rfl

theorem needs_but_set (h : B.Base) : (B.set s i).needs_but s ↔ B.needs_but s := by
  have hinfo : ∀ t ∈ B.sources.erase s, (B.set s i).info t = B.info t :=
    fun t ht => set_info_of_ne (h.nodup.mem_erase_iff.mp ht).1
  constructor
  · rintro ⟨t, ht, hneeds⟩
    rw [hinfo t ht] at hneeds
    exact ⟨t, ht, hneeds⟩
  · rintro ⟨t, ht, hneeds⟩
    refine ⟨t, ht, ?_⟩
    rw [hinfo t ht]
    exact hneeds

theorem needs_of_but (h : B.needs_but s) : B.needs := by
  obtain ⟨t, ht, hneeds⟩ := h
  exact ⟨t, List.mem_of_mem_erase ht, hneeds⟩

/-- It is the event source itself that needs it, or another. -/
theorem needs_iff (hs : s ∈ B.sources) :
    B.needs ↔ (B.info s).needs_sigchld = true ∨ B.needs_but s := by
  constructor
  · rintro ⟨t, ht, hneeds⟩
    by_cases hts : t = s
    · rw [hts] at hneeds
      exact .inl hneeds
    · exact .inr ⟨t, (List.mem_erase_of_ne hts).mpr ht, hneeds⟩
  · rintro (hneeds | hneeds)
    · exact ⟨s, hs, hneeds⟩
    · exact needs_of_but hneeds

/-- What needs it is counted. -/
theorem But.pos (h : B.But s c) (hneeds : B.needs_but s) : 0 < B.n_online_child_sources := by
  obtain ⟨t, ht, hneeds⟩ := hneeds
  have hcount : 0 < (B.sources.erase s).countP fun t => (B.info t).counted := by
    refine List.countP_pos_iff.mpr ⟨t, ht, ?_⟩
    unfold needs_sigchld at hneeds
    simp only [and_eq_true] at hneeds
    exact hneeds.1
  have hchild := h.child
  omega

theorem Ok.pos (h : B.Ok) (hneeds : B.needs) : 0 < B.n_online_child_sources := by
  obtain ⟨t, ht, hneeds⟩ := hneeds
  rw [h.child]
  refine List.countP_pos_iff.mpr ⟨t, ht, ?_⟩
  unfold needs_sigchld at hneeds
  simp only [and_eq_true] at hneeds
  exact hneeds.1

end Books

/-! ## Section 2: Registering event sources -/

/-- The books are good, and `SIGCHLD` is watched if it has to be. -/
def Fine (e : SdEvent) : Prop := e.books.Ok ∧ (e.books.needs → e.sigchld)

section register
variable {B : Books} {W : Prop} {s : SourceId} {e : SdEvent} {E : SdEvent → Prop} {i : Info}

theorem Books.set_set (B : Books) (s : SourceId) (i j : Info) : (B.set s i).set s j = B.set s j := by
  unfold set
  congr 1
  funext t
  dsimp only
  split
  · rfl
  · rfl

theorem At.info (h : At B W e) (s : SourceId) :
    B.info s = (e.source s).info (e.epoll s).isSome := by
  rw [← h.1]
  rfl

theorem At.imp {W' : Prop} (h : At B W e) (hW : W' → W) : At B W' e := ⟨h.1, fun hw => h.2 (hW hw)⟩

theorem Fine.at (h : Fine e) : At e.books e.books.needs e := ⟨rfl, h.2⟩

theorem At.fine (h : At B B.needs e) (hok : B.Ok) : Fine e := by
  obtain ⟨rfl, hW⟩ := h
  exact ⟨hok, hW⟩

/-- A change of an event source, as the books see it. -/
theorem holds_update_at {f : Source → Source} (g : Info → Info) (h : At B W e)
    (hg : ∀ x w, (f x).info w = g (x.info w)) :
    Holds (update s f) e (fun _ => At (B.set s (g (B.info s))) W) E := by
  refine holds_update ⟨?_, h.2⟩
  rw [books_set_source, hg, h.1, h.info s]

theorem books_epoll (e : SdEvent) (s : SourceId) (v : Option UInt32) :
    { e with epoll := fun t => if t = s then v else e.epoll t }.books =
      e.books.set s ((e.source s).info v.isSome) := by
  unfold SdEvent.books Books.set
  congr 1
  funext t
  dsimp only
  split
  · next h => rw [h]
  · rfl

section
variable (h : At B W e)
include h

theorem holds_epoll_ctl_set (events : UInt32) :
    Holds (epoll_ctl_set s events) e
      (fun _ => At (B.set s { B.info s with io_watched := (B.info s).type == .io }) W) (At B W) := by
  refine holds_bind (keeps_syscall e h) fun _ e1 h1 => holds_modify ⟨?_, h1.2⟩
  rw [books_epoll, h1.1, h1.info s]
  unfold Source.info
  simp

theorem holds_epoll_ctl_del :
    Holds (epoll_ctl_del s) e (fun _ => At (B.set s { B.info s with io_watched := false }) W) E := by
  refine holds_modify ⟨?_, h.2⟩
  rw [books_epoll, h.1, h.info s]
  unfold Source.info
  simp

/-- What is not an I/O source is not watched as one. -/
theorem At.unwatched (ht : (B.info s).type ≠ .io) :
    B.set s { B.info s with io_watched := false } = B := by
  have hw : (B.info s).io_watched = false := by
    have hinfo := h.info s
    rw [hinfo] at ht ⊢
    unfold Source.info at ht ⊢
    simp only [and_eq_false_iff]
    left
    simpa using ht
  have hset : { B.info s with io_watched := false } = B.info s := by rw [← hw]
  rw [hset, set_self]

theorem holds_epoll_ctl_set_other (ht : (B.info s).type ≠ .io) (events : UInt32) :
    Holds (epoll_ctl_set s events) e (fun _ => At B W) (At B W) := by
  have hset := holds_epoll_ctl_set (s := s) h events
  have hio : ((B.info s).type == .io) = false := by simpa using ht
  rw [hio, h.unwatched ht] at hset
  exact hset

theorem holds_epoll_ctl_del_other (ht : (B.info s).type ≠ .io) :
    Holds (epoll_ctl_del s) e (fun _ => At B W) E := by
  have hdel := holds_epoll_ctl_del (s := s) (E := E) h
  rw [h.unwatched ht] at hdel
  exact hdel

theorem holds_io_register (enabled : Enabled) (events : UInt32) :
    Holds (source_io_register s enabled events) e
      (fun _ => At (B.set s
        { B.info s with io_registered := true, io_watched := (B.info s).type == .io }) W)
      (At B W) := by
  refine holds_bind (holds_epoll_ctl_set h _) fun _ e1 h1 => ?_
  have hup := holds_update_at (s := s) (E := At B W) (f := fun x => { x with io_registered := true })
    (fun i => { i with io_registered := true }) h1 fun _ _ => rfl
  rw [set_set, set_info_self] at hup
  exact hup

end

theorem Info.unregistered (hr : i.io_registered = false) (hw : i.io_watched = false) :
    { i with io_registered := false, io_watched := false } = i := by
  cases i
  dsimp only at hr hw
  rw [hr, hw]

/-- An event source that is registered is watched. -/
theorem holds_io_unregister (h : At B W e) (hw : (B.info s).io_watched = (B.info s).io_registered) :
    Holds (source_io_unregister s) e
      (fun _ => At (B.set s { B.info s with io_registered := false, io_watched := false }) W) E := by
  refine holds_bind holds_source ?_
  rintro x e1 ⟨rfl, rfl⟩
  have hreg : (B.info s).io_registered = (e1.source s).io_registered := by
    rw [h.info s]
    rfl
  refine holds_when (fun _ => ?_) fun hr => ?_
  · refine holds_bind (holds_epoll_ctl_del h) fun _ e2 h2 => ?_
    have hup := holds_update_at (s := s) (E := E) (f := fun x => { x with io_registered := false })
      (fun i => { i with io_registered := false }) h2 fun _ _ => rfl
    rw [set_set, set_info_self] at hup
    exact hup
  · rw [unregistered (hreg.trans hr) (hw.trans (hreg.trans hr)), set_self]
    exact h

section
variable (h : At B W e) (ht : (B.info s).type ≠ .io)
include h ht

theorem holds_pidfd_register (enabled : Enabled) :
    Holds (source_child_pidfd_register s enabled) e (fun _ => At B W) (At B W) := by
  refine holds_bind holds_source ?_
  rintro x e1 ⟨rfl, rfl⟩
  refine holds_bind (R := fun _ => At B W) (holds_when (fun _ => ?_) fun _ => h) fun _ e2 h2 => ?_
  · exact holds_epoll_ctl_set_other h ht _
  · exact keeps_update s (by exact fun _ _ => rfl) e2 h2

theorem holds_pidfd_unregister : Holds (source_child_pidfd_unregister s) e (fun _ => At B W) E := by
  refine holds_bind holds_source ?_
  rintro x e1 ⟨rfl, rfl⟩
  refine holds_when (fun _ => ?_) fun _ => h
  refine holds_bind (R := fun _ => At B W) (holds_when (fun _ => ?_) fun _ => h) fun _ e2 h2 => ?_
  · exact holds_epoll_ctl_del_other h ht
  · exact holds_keeps (keeps_update s fun _ _ => rfl) (noerr_update s _) h2

theorem holds_pressure_register (enabled : Enabled) :
    Holds (source_pressure_register s enabled) e (fun _ => At B W) (At B W) := by
  refine holds_bind holds_source ?_
  rintro x e1 ⟨rfl, rfl⟩
  refine holds_bind (holds_epoll_ctl_set_other h ht _) fun _ e2 h2 => ?_
  exact keeps_update s (by exact fun _ _ => rfl) e2 h2

theorem holds_pressure_unregister : Holds (source_pressure_unregister s) e (fun _ => At B W) E := by
  refine holds_bind holds_source ?_
  rintro x e1 ⟨rfl, rfl⟩
  refine holds_when (fun _ => ?_) fun _ => h
  refine holds_bind (holds_epoll_ctl_del_other h ht) fun _ e2 h2 => ?_
  exact holds_keeps (keeps_update s fun _ _ => rfl) (noerr_update s _) h2

end

end register

/-! ## Section 3: Online and offline -/

section switch
variable {B : Books} {s : SourceId} {e : SdEvent} {E : SdEvent → Prop}

variable {i : Info}

/-- The books with a new entry for the event source. -/
theorem Books.But.put {c : Nat} (h : B.But s c) (hs : i.connected = true)
    (hsig : i.type = .signal → 0 < i.signal_sig → B.signal_sources i.signal_sig = some s)
    (hio : i.io_ok) (hpid : i.pid_ok) (hc : c = i.counted.toNat) :
    (B.set s i).Ok ∧ ((B.set s i).needs ↔ i.needs_sigchld = true ∨ B.needs_but s) := by
  have hbut := h.set hs hsig
  constructor
  · refine hbut.ok ?_ ?_ ?_
    · rw [set_info_self]
      exact hio
    · rw [set_info_self]
      exact hpid
    · rw [set_info_self]
      exact hc
  · rw [needs_iff (B := B.set s i) hbut.mem, set_info_self, needs_but_set h.toBase]

/-- An event source that is offline, and not counted. -/
theorem Books.But.offline {c : Nat} (h : B.But s c) (hs : i.connected = true)
    (hsig : i.type = .signal → 0 < i.signal_sig → B.signal_sources i.signal_sig = some s)
    (hoff : i.online = false) (hio : i.io_ok) (hpid : i.pid_ok) (hc : c = 0) :
    (B.set s i).Ok ∧ ((B.set s i).needs → B.needs) := by
  have hcounted : i.counted = false := by
    unfold counted
    rw [hoff, Bool.and_false]
  obtain ⟨hok, hneeds⟩ := h.put hs hsig hio hpid (by rw [hcounted, hc]; rfl)
  refine ⟨hok, fun hn => ?_⟩
  rcases hneeds.mp hn with hself | hothers
  · unfold needs_sigchld at hself
    rw [hcounted] at hself
    cases hself
  · exact needs_of_but hothers

variable {x : Call SdEvent PUnit}

/-- The last part of a call that leaves good books. -/
theorem fine_keeps (hk : ∀ W, Keeps (At B W) x) (hn : NoErr x) (h : At B B.needs e) (hok : B.Ok) :
    Holds x e (fun _ => Fine) E :=
  holds_mono (holds_keeps (hk _) hn h) (fun _ _ h => h.fine hok) fun _ h => h

/-- A signal is not unmasked that is needed. -/
theorem fine_gc (h : At B B.needs e) (hok : B.Ok) (p : Int) (sig : Nat) :
    Holds (event_gc_signal_data p sig) e (fun _ => Fine) E :=
  holds_mono (holds_keeps (keeps_gc_signal_data p fun _ hW => hok.pos hW)
    (noerr_gc_signal_data p sig) h) (fun _ _ h => h.fine hok) fun _ h => h

theorem Info.not_counted (h : i.type ≠ .child) : i.counted.toNat = 0 := by
  unfold counted
  simp [h]

/-- An event source `x` that goes offline, and what is known of it then. -/
structure GoesOffline (B : Books) (s : SourceId) (x : Source) (i : Info) : Prop where
  ok : B.Ok
  mem : s ∈ B.sources
  online : (B.info s).online = event_source_is_online x
  type : (B.info s).type = x.type
  connected : i.connected = true
  signal : i.type = .signal → 0 < i.signal_sig → B.signal_sources i.signal_sig = some s
  offline : i.online = false
  same_type : i.type = x.type
  watched : i.type = .io → i.io_watched = i.io_registered
  pid : i.pid_ok

namespace GoesOffline

variable {x : Source} {i : Info}

section
variable (hg : GoesOffline B s x i)
include hg

/-- What is neither an I/O source nor a child source. -/
theorem other (hio : x.type ≠ .io) (hchild : x.type ≠ .child) :
    (B.set s i).Ok ∧ ((B.set s i).needs → B.needs) := by
  refine (hg.ok.but hg.mem).offline hg.connected hg.signal hg.offline ?_ hg.pid (not_counted ?_)
  · intro hty
    exact absurd (hg.same_type.symm.trans hty) hio
  · rw [hg.type]
    exact hchild

theorem io (hio : x.type = .io) (h : At (B.set s i) B.needs e) :
    Holds (source_io_unregister s) e (fun _ => Fine) E := by
  have hw : ((B.set s i).info s).io_watched = ((B.set s i).info s).io_registered := by
    rw [set_info_self]
    exact hg.watched (hg.same_type.trans hio)
  have hnot : (B.info s).type ≠ .child := by
    rw [hg.type, hio]
    exact fun h => by cases h
  obtain ⟨hok, hneeds⟩ := (hg.ok.but hg.mem).offline
    (i := { i with io_registered := false, io_watched := false }) hg.connected hg.signal hg.offline
    (fun _ => ⟨hg.offline.symm, hg.offline.symm⟩) hg.pid (not_counted hnot)
  refine holds_mono (holds_io_unregister h hw) (fun _ e' h' => ?_) fun _ h => h
  rw [set_set, set_info_self] at h'
  exact (h'.imp hneeds).fine hok

/-- A child source is no longer counted. -/
theorem child (hchild : x.type = .child) (h : At (B.set s i) B.needs e) :
    Holds (do
      when (event_source_is_online x) do
        assert (0 < (← get).n_online_child_sources)
        modify fun e => { e with n_online_child_sources := e.n_online_child_sources - 1 }
      if EVENT_SOURCE_WATCH_PIDFD x then source_child_pidfd_unregister s
      else event_gc_signal_data x.priority SIGCHLD) e (fun _ => Fine) E := by
  have hbut := hg.ok.but hg.mem
  have hcounted : (B.info s).counted = event_source_is_online x := by
    unfold counted
    rw [hg.type, hchild, hg.online]
    rfl
  have hio : (i.type = .io → False) := fun hty => by
    rw [hg.same_type, hchild] at hty
    cases hty
  -- the books with one child source less
  refine holds_bind (R := fun _ e' => ∃ n, At ({ B with n_online_child_sources := n }.set s i)
    B.needs e' ∧ { B with n_online_child_sources := n }.But s 0) ?_ ?_
  · refine holds_when (fun honline => ?_) fun hoff => ?_
    · refine holds_get_bind (holds_assert_bind fun hpos => holds_modify
        ⟨B.n_online_child_sources - 1, ⟨?_, h.2⟩, ?_⟩)
      · rw [show B.n_online_child_sources = e.n_online_child_sources from
          congrArg n_online_child_sources h.1.symm]
        exact congrArg
          (fun B : Books => { B with n_online_child_sources := e.n_online_child_sources - 1 }) h.1
      · have hn : e.n_online_child_sources = B.n_online_child_sources :=
          congrArg n_online_child_sources h.1
        rw [decide_eq_true_eq, hn] at hpos
        refine hbut.recount ?_
        rw [hcounted, honline]
        show B.n_online_child_sources - 1 + 1 = _
        omega
    · refine ⟨B.n_online_child_sources, h, hbut.recount ?_⟩
      rw [hcounted, hoff]
      rfl
  rintro _ e1 ⟨n, h1, hbut1⟩
  obtain ⟨hok, hneeds⟩ := hbut1.offline hg.connected hg.signal hg.offline
    (fun hty => (hio hty).elim) hg.pid rfl
  have hB : At _ (needs _) e1 := h1.imp hneeds
  split
  · refine holds_mono (holds_pidfd_unregister hB ?_) (fun _ _ h => h.fine hok) fun _ h => h
    rw [set_info_self]
    exact hio
  · exact fine_gc hB hok _ _

/-- The event source is taken out. -/
theorem switch (h : At (B.set s i) B.needs e) :
    Holds (event_source_offline_type s x) e (fun _ => Fine) E := by
  have hself : ((B.set s i).info s).type = x.type := by
    rw [set_info_self]
    exact hg.same_type
  -- nothing but its own entry changes
  have hsame : ∀ y : Call SdEvent PUnit, x.type ≠ .io → x.type ≠ .child →
      (∀ W, At (B.set s i) W e → Holds y e (fun _ => At (B.set s i) W) E) →
      Holds y e (fun _ => Fine) E := by
    intro y hio hchild hy
    obtain ⟨hok, hneeds⟩ := hg.other hio hchild
    exact holds_mono (hy _ (h.imp hneeds)) (fun _ _ h => h.fine hok) fun _ h => h
  have hkeeps : ∀ y : Call SdEvent PUnit, (∀ W, Keeps (At (B.set s i) W) y) → NoErr y →
      x.type ≠ .io → x.type ≠ .child → Holds y e (fun _ => Fine) E :=
    fun y hk hn hio hchild => hsame y hio hchild fun W h => holds_keeps (hk W) hn h
  unfold event_source_offline_type
  cases hcase : x.type with
  | io => exact hg.io hcase h
  | child => exact hg.child hcase h
  | signal =>
    obtain ⟨hok, hneeds⟩ := hg.other (by simp [hcase]) (by simp [hcase])
    exact fine_gc (h.imp hneeds) hok _ _
  | exit =>
    exact hkeeps _ (fun W => keeps_prioq_reshuffle _ _) (noerr_prioq_reshuffle _ _) (by simp [hcase])
      (by simp [hcase])
  | memory_pressure | cpu_pressure | io_pressure =>
    refine hsame _ (by simp [hcase]) (by simp [hcase]) fun W h => holds_pressure_unregister h ?_
    simp [hself, hcase]
  | time | defer | post | inotify =>
    exact hkeeps _ (fun W => keeps_pure _) (noerr_pure _) (by simp [hcase]) (by simp [hcase])

end

end GoesOffline

/-- Good books stay good where they are not touched. -/
theorem fine_keeps' (hk : ∀ B W, Keeps (At B W) x) (hn : NoErr x) (h : Fine e) :
    Holds x e (fun _ => Fine) E :=
  fine_keeps (hk _) hn h.at h.1

/-- An event source goes offline. -/
theorem holds_offline (h : At B B.needs e) (hok : B.Ok) (hs : s ∈ B.sources) (enabled : Enabled)
    (ratelimited : Bool) :
    Holds (event_source_offline s enabled ratelimited) e (fun _ => Fine) (At B B.needs) := by
  refine holds_bind holds_source ?_
  rintro x e1 ⟨rfl, rfl⟩
  refine holds_assert_bind fun hoff => ?_
  have hx := h.info s
  refine holds_bind (keeps_when (x := do let _ ← source_set_pending s false) ?_ e1 h) fun _ e2 h2 => ?_
  · exact keeps_bind (keeps_set_pending s false) fun _ => keeps_pure _
  refine holds_bind (holds_update_at (fun i => { i with enabled, ratelimited }) h2 fun _ _ => rfl)
    fun _ e3 h3 => ?_
  have hg : GoesOffline B s (e1.source s) { B.info s with enabled, ratelimited } := by
    have hio := hok.io s hs
    refine ⟨hok, hs, by rw [hx]; rfl, by rw [hx]; rfl, (hok.connected s).mpr hs, hok.signal s hs, ?_,
      by rw [hx]; rfl, fun hty => (hio hty).2.trans (hio hty).1.symm, hok.pid s hs⟩
    simp only [or_eq_true, beq_iff_eq] at hoff
    rcases hoff with rfl | rfl
    · rfl
    · exact and_false _
  refine holds_bind (hg.switch h3) fun _ e4 h4 => ?_
  exact fine_keeps' (fun _ _ => keeps_time_prioq_reshuffle s) (noerr_time_prioq_reshuffle s) h4

/-- The event source can be marked online. -/
def Ready (s : SourceId) (enabled : Enabled) (e : SdEvent) : Prop :=
  ∃ B, At B (B.set s { B.info s with enabled, ratelimited := false }).needs e ∧
    (B.set s { B.info s with enabled, ratelimited := false }).Ok

section ready
variable {enabled : Enabled}

/-- What is neither an I/O source nor a child source is ready. -/
theorem ready_other (hok : B.Ok) (hs : s ∈ B.sources) (hio : (B.info s).type ≠ .io)
    (hchild : (B.info s).type ≠ .child) (h : At B B.needs e) : Ready s enabled e := by
  obtain ⟨hok', hneeds⟩ := (hok.but hs).put (i := { B.info s with enabled, ratelimited := false })
    ((hok.connected s).mpr hs) (hok.signal s hs) (fun hty => absurd hty hio) (hok.pid s hs)
    (by rw [not_counted hchild, not_counted (by exact hchild)])
  refine ⟨B, h.imp fun hn => ?_, hok'⟩
  rcases hneeds.mp hn with hself | hothers
  · unfold needs_sigchld counted at hself
    simp [hchild] at hself
  · exact needs_of_but hothers

/-- So is an I/O source that is registered. -/
theorem ready_io (hok : B.Ok) (hs : s ∈ B.sources) (hio : (B.info s).type = .io)
    (hen : enabled ≠ .off)
    (h : At (B.set s { B.info s with io_registered := true, io_watched := true }) B.needs e) :
    Ready s enabled e := by
  have hnot : (B.info s).type ≠ .child := by
    rw [hio]
    exact fun h => by cases h
  have hon : ∀ i : Info, i.enabled = enabled → i.ratelimited = false → i.online = true := by
    rintro i rfl hr
    unfold online
    simp [hr, hen]
  obtain ⟨hok', hneeds⟩ := (hok.but hs).put
    (i := { B.info s with enabled, ratelimited := false, io_registered := true, io_watched := true })
    ((hok.connected s).mpr hs) (hok.signal s hs)
    (fun _ => ⟨(hon _ rfl rfl).symm, (hon _ rfl rfl).symm⟩) (hok.pid s hs)
    (by rw [not_counted hnot, not_counted (by exact hnot)])
  refine ⟨_, h.imp ?_, ?_⟩
  · rw [set_set, set_info_self]
    intro hn
    rcases hneeds.mp hn with hself | hothers
    · unfold needs_sigchld counted at hself
      simp [hnot] at hself
    · exact needs_of_but hothers
  · rw [set_set, set_info_self]
    exact hok'

/-- A child source, once it is counted, and `SIGCHLD` is watched. -/
theorem ready_child {n : Nat} (hok : B.Ok) (hs : s ∈ B.sources) (hchild : (B.info s).type = .child)
    (hen : enabled ≠ .off) (hn : n + (B.info s).online.toNat = B.n_online_child_sources + 1)
    (h : At { B with n_online_child_sources := n } ((B.info s).pidfd = false ∨ B.needs) e) :
    Ready s enabled e := by
  have hcounted : (B.info s).counted = (B.info s).online := by
    unfold counted
    simp [hchild]
  have hbut := (hok.but hs).recount (n := n) (d := 1) (by rw [hcounted]; exact hn)
  obtain ⟨i, hi⟩ : ∃ i, i = { B.info s with enabled, ratelimited := false } := ⟨_, rfl⟩
  have hty : i.type = .child := by rw [hi]; exact hchild
  have hone : i.counted = true := by
    rw [hi]
    unfold counted online
    simp [hchild, hen]
  obtain ⟨hok', hneeds⟩ := hbut.put (i := i) (by rw [hi]; exact (hok.connected s).mpr hs)
    (fun h => by rw [hty] at h; cases h) (fun h => by rw [hty] at h; cases h)
    (by rw [hi]; exact hok.pid s hs) (by rw [hone]; rfl)
  refine ⟨_, h.imp ?_, ?_⟩
  · intro hn
    have hn' := hneeds.mp (by rw [hi]; exact hn)
    rcases hn' with hself | hothers
    · left
      unfold needs_sigchld at hself
      rw [hone, hi] at hself
      have hself' : (!(B.info s).pidfd) = true := hself
      simpa using hself'
    · exact .inr (needs_of_but hothers)
  · rw [hi] at hok'
    exact hok'

end ready

/-- The event source is registered, or everything is as it was. -/
theorem holds_online_type (h : At B B.needs e) (hok : B.Ok) (hs : s ∈ B.sources) {enabled : Enabled}
    (hen : enabled ≠ .off) :
    Holds (event_source_online_type s enabled) e (fun _ => Ready s enabled) (At B B.needs) := by
  refine holds_bind holds_source ?_
  rintro x e1 ⟨rfl, rfl⟩
  have hx := h.info s
  have hty : (B.info s).type = (e1.source s).type := by
    rw [hx]
    rfl
  cases hcase : (e1.source s).type with
  | io =>
    refine holds_mono (holds_io_register h _ _) (fun _ e2 h2 => ?_) fun _ h => h
    rw [hty, hcase] at h2
    exact ready_io hok hs (hty.trans hcase) hen h2
  | signal =>
    refine holds_mono (Q := fun _ => At B B.needs) ?_ (fun _ e2 h2 => ?_) fun _ h => h
    · refine holds_cleanup (F := At B B.needs) ?_ fun e2 h2 =>
        keeps_gc_signal_data _ (fun _ hW => hok.pos hW) e2 h2
      exact keeps_bind (keeps_make_signal_data _) (fun _ => keeps_pure _) e1 h
    · exact ready_other hok hs (by simp [hty, hcase]) (by simp [hty, hcase]) h2
  | child =>
    have hpidfd : EVENT_SOURCE_WATCH_PIDFD (e1.source s) = (B.info s).pidfd := by
      rw [hx]
      rfl
    have honline : event_source_is_online (e1.source s) = (B.info s).online := by
      rw [hx]
      rfl
    have hcount : ∀ e2, At B ((B.info s).pidfd = false ∨ B.needs) e2 →
        Holds (when (!event_source_is_online (e1.source s)) <| modify fun e =>
          { e with n_online_child_sources := e.n_online_child_sources + 1 }) e2
          (fun _ => Ready s enabled) (At B B.needs) := by
      intro e2 h2
      refine holds_when (fun hoff => holds_modify ?_) fun hon => ?_
      · refine ready_child (n := B.n_online_child_sources + 1) hok hs (hty.trans hcase) hen ?_
          ⟨?_, h2.2⟩
        · have hoff' : (B.info s).online = false := by
            rw [← honline]
            simpa using hoff
          rw [hoff']
          rfl
        · rw [← h2.1]
          rfl
      · refine ready_child (n := B.n_online_child_sources) hok hs (hty.trans hcase) hen ?_ h2
        have hon' : (B.info s).online = true := by
          rw [← honline]
          simpa using hon
        rw [hon']
        rfl
    dsimp only
    split
    · next hw =>
      refine holds_bind (holds_pidfd_register h (by simp [hty, hcase]) enabled) fun _ e2 h2 => ?_
      refine hcount e2 (h2.imp ?_)
      rintro (hp | hn)
      · rw [hpidfd, hp] at hw
        cases hw
      · exact hn
    · refine holds_bind (R := fun _ => At B ((B.info s).pidfd = false ∨ B.needs)) ?_
        fun _ e2 h2 => hcount e2 h2
      refine holds_cleanup (F := At B B.needs) ?_ fun e2 h2 =>
        keeps_gc_signal_data _ (fun _ hW => hok.pos hW) e2 h2
      refine holds_bind (holds_make_signal_data SIGCHLD h) ?_
      rintro p e2 ⟨_, h2, d, hd, hmem⟩
      exact ⟨h2.1, fun _ => ⟨p, d, hd, hmem⟩⟩
  | memory_pressure | cpu_pressure | io_pressure =>
    refine holds_mono (Q := fun _ => At B B.needs) ?_ (fun _ e2 h2 => ?_) fun _ h => h
    · exact holds_when (fun _ => holds_pressure_register h (by simp [hty, hcase]) _) fun _ => h
    · exact ready_other hok hs (by simp [hty, hcase]) (by simp [hty, hcase]) h2
  | time | exit | defer | post | inotify =>
    exact ready_other hok hs (by simp [hty, hcase]) (by simp [hty, hcase]) h

/-- An event source goes online if it can, and stays offline if it cannot. -/
theorem holds_online (h : At B B.needs e) (hok : B.Ok) (hs : s ∈ B.sources) (enabled : Enabled)
    (ratelimited : Bool) (hoff : enabled = .off ∨ ratelimited = true → (B.info s).online = false) :
    Holds (event_source_online s enabled ratelimited) e (fun _ => Fine) (At B B.needs) := by
  refine holds_bind holds_source ?_
  rintro x e1 ⟨rfl, rfl⟩
  refine holds_assert_bind fun _ => ?_
  refine holds_bind (keeps_when (x := do let _ ← source_set_pending s false) ?_ e1 h) fun _ e2 h2 => ?_
  · exact keeps_bind (keeps_set_pending s false) fun _ => keeps_pure _
  split
  · next hcan =>
    -- only its state is noted
    have hcan' : enabled = .off ∨ ratelimited = true := by simpa using hcan
    have hsame := hoff hcan'
    have hoffline : online { B.info s with enabled, ratelimited } = false := by
      rcases hcan' with rfl | rfl
      · rfl
      · exact and_false _
    have hcounted : (B.info s).counted = false := by
      unfold counted
      rw [hsame, Bool.and_false]
    have hio := hok.io s hs
    obtain ⟨hok3, hneeds⟩ := (hok.but hs).offline (i := { B.info s with enabled, ratelimited })
      ((hok.connected s).mpr hs) (hok.signal s hs) hoffline
      (fun hty => by rw [hoffline, ← hsame]; exact hio hty) (hok.pid s hs) (by rw [hcounted]; rfl)
    refine holds_mono (holds_update_at (fun i => { i with enabled, ratelimited }) h2 fun _ _ => rfl)
      (fun _ e3 h3 => ?_) fun _ h => h
    exact (h3.imp hneeds).fine hok3
  · next hcan =>
    have hcan' : enabled ≠ .off ∧ ratelimited = false := by simpa using hcan
    obtain ⟨hen, rfl⟩ := hcan'
    refine holds_bind (holds_online_type h2 hok hs hen) ?_
    rintro _ e3 ⟨B3, h3, hok3⟩
    refine holds_bind (holds_update_at (fun i => { i with enabled, ratelimited := false }) h3
      fun _ _ => rfl) fun _ e4 h4 => ?_
    refine holds_bind (fine_keeps (fun _ => keeps_when (keeps_prioq_reshuffle _ _))
      (noerr_when (noerr_prioq_reshuffle _ _)) h4 hok3) fun _ e5 h5 => ?_
    exact fine_keeps' (fun _ _ => keeps_time_prioq_reshuffle s) (noerr_time_prioq_reshuffle s) h5

end switch

/-! ## Section 4: The public calls -/

section calls
variable {e : SdEvent} {s : SourceId}

/-- Nothing has changed in the books. -/
def Unchanged (e : SdEvent) : SdEvent → Prop := At e.books e.books.needs

theorem Unchanged.fine {e' : SdEvent} (h : Unchanged e e') (hf : Fine e) : Fine e' :=
  At.fine (B := e.books) h hf.1

/-- The event source of a public call is in the list. -/
theorem holds_public_source {E : SdEvent → Prop} (hf : Fine e) :
    Holds (public_source s) e (fun x e' => x = e.source s ∧ e' = e ∧ s ∈ e.sources) E := by
  refine holds_bind holds_source ?_
  rintro x e1 ⟨rfl, rfl⟩
  refine holds_assert_bind fun hcon => ⟨rfl, rfl, ?_⟩
  exact (hf.1.connected s).mp hcon

theorem keeps_public_source {B : Books} {W : Prop} (s : SourceId) :
    Keeps (At B W) (public_source s) := by
  exact keeps_bind (keeps_source s) fun x => keeps_bind (keeps_assert _) fun _ => keeps_pure _

theorem keeps_not_finished {B : Books} {W : Prop} : Keeps (At B W) not_finished := by
  exact keeps_bind keeps_get fun e => keeps_check _ _

/-- A call that has nothing to do with the books. -/
theorem holds_unchanged {α : Type} {x : Call SdEvent α} (hk : ∀ B W, Keeps (At B W) x) (hf : Fine e) :
    Holds x e (fun _ => Fine) (Unchanged e) :=
  holds_mono (hk _ _ e hf.at) (fun _ _ h => Unchanged.fine h hf) fun _ h => h

theorem holds_set_enabled (hf : Fine e) (enabled : Enabled) :
    Holds (sd_event_source_set_enabled s enabled) e (fun _ => Fine) (Unchanged e) := by
  refine holds_bind (holds_public_source hf) ?_
  rintro x e1 ⟨rfl, rfl, hs⟩
  refine holds_get_bind ?_
  split
  · split
    · exact hf
    · exact hf.at
  split
  · exact hf
  have hlast : ∀ e2, Fine e2 →
      Holds (event_source_pp_prioq_reshuffle s) e2 (fun _ => Fine) (Unchanged e1) :=
    fun e2 h2 => fine_keeps' (fun _ _ => keeps_pp_prioq_reshuffle s) (noerr_pp_prioq_reshuffle s) h2
  split
  · exact holds_bind (holds_offline hf.at hf.1 hs _ _) fun _ e2 h2 => hlast e2 h2
  · next hen =>
    refine holds_bind (holds_online hf.at hf.1 hs _ _ ?_) fun _ e2 h2 => hlast e2 h2
    rintro (hoff | hr)
    · exact absurd hoff hen
    · show online ((e1.source s).info _) = false
      unfold online Source.info
      simp [hr]

/-- The timer of a rate limit takes the place of the own one. -/
theorem holds_enter_ratelimited (hf : Fine e) (hs : s ∈ e.sources) :
    Holds (event_source_enter_ratelimited s) e (fun _ => Fine) (Unchanged e) := by
  refine holds_bind holds_source ?_
  rintro x e1 ⟨rfl, rfl⟩
  split
  · exact hf
  refine holds_bind (keeps_setup_clock_data _ e1 hf.at) fun _ e2 h2 => ?_
  -- from where a timer is out of its own queues
  have hrest : ∀ (back : Call SdEvent PUnit) (e3), Keeps (Unchanged e1) back → Unchanged e1 e3 →
      Holds (do
        cleanup (do
          event_source_time_prioq_put s .boottime
          cleanup (event_source_offline s (e1.source s).enabled true)
            (event_source_time_prioq_remove s .boottime)) back
        event_source_pp_prioq_reshuffle s) e3 (fun _ => Fine) (Unchanged e1) := by
    intro back e3 hback h3
    refine holds_bind (R := fun _ => Fine) ?_ fun _ e4 h4 =>
      fine_keeps' (fun _ _ => keeps_pp_prioq_reshuffle s) (noerr_pp_prioq_reshuffle s) h4
    refine holds_cleanup (F := Unchanged e1) ?_ hback
    refine holds_bind (keeps_time_prioq_put s _ e3 h3) fun _ e4 h4 => ?_
    exact holds_cleanup (holds_offline h4 hf.1 hs _ _) fun e5 h5 =>
      keeps_time_prioq_remove s _ e5 h5
  split
  · refine holds_bind (keeps_time_prioq_remove s _ e2 h2) fun _ e3 h3 => ?_
    exact hrest _ e3 (keeps_time_prioq_put s _) h3
  · exact hrest _ e2 (keeps_pure _) h2

/-- An event source that is rate limited is offline, whether it is enabled or
    not. -/
theorem holds_leave_ratelimit (hf : Fine e) (hs : s ∈ e.sources) :
    Holds (event_source_leave_ratelimit s) e (fun _ => Fine) (Unchanged e) := by
  refine holds_bind holds_source ?_
  rintro x e1 ⟨rfl, rfl⟩
  split
  · exact hf
  next hlimited =>
  have hoff : (e1.books.info s).online = false := by
    show online ((e1.source s).info _) = false
    unfold online Source.info
    simp [hlimited]
  refine holds_bind (keeps_time_prioq_remove s _ e1 hf.at) fun _ e2 h2 => ?_
  refine holds_bind (R := fun _ => Fine) ?_ fun _ e3 h3 => ?_
  · refine holds_cleanup (F := Unchanged e1) ?_ fun e3 h3 => keeps_time_prioq_put s _ e3 h3
    have honline : ∀ (back : Call SdEvent PUnit) (e3), Keeps (Unchanged e1) back →
        Unchanged e1 e3 → Holds (cleanup (event_source_online s (e1.source s).enabled false) back)
          e3 (fun _ => Fine) (Unchanged e1) :=
      fun back e3 hback h3 => holds_cleanup (holds_online h3 hf.1 hs _ _ fun _ => hoff) hback
    split
    · refine holds_bind (keeps_time_prioq_put s _ e2 h2) fun _ e3 h3 => ?_
      exact honline _ e3 (keeps_time_prioq_remove s _) h3
    · exact honline _ e2 (keeps_pure _) h2
  · refine holds_bind (fine_keeps' (fun _ _ => keeps_pp_prioq_reshuffle s)
      (noerr_pp_prioq_reshuffle s) h3) fun _ e4 h4 => ?_
    exact fine_keeps' (fun _ _ => keeps_update s fun _ _ => rfl) (noerr_update s _) h4

theorem holds_set_ratelimit (hf : Fine e) (interval burst : Nat) :
    Holds (sd_event_source_set_ratelimit s interval burst) e (fun _ => Fine) (Unchanged e) := by
  refine holds_bind (holds_public_source hf) ?_
  rintro x e1 ⟨rfl, rfl, hs⟩
  refine holds_check_bind hf.at fun _ => ?_
  refine holds_bind (holds_leave_ratelimit hf hs) fun _ e2 h2 => ?_
  exact fine_keeps' (fun _ _ => keeps_update s fun _ _ => rfl) (noerr_update s _) h2

theorem holds_public_leave_ratelimit (hf : Fine e) :
    Holds (sd_event_source_leave_ratelimit s) e (fun _ => Fine) (Unchanged e) := by
  refine holds_bind (holds_public_source hf) ?_
  rintro x e1 ⟨rfl, rfl, hs⟩
  split
  · exact hf
  · exact holds_leave_ratelimit hf hs

end calls

end SdCompat.Event
