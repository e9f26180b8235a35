import SdCompat.Lib.Transition
import SdCompat.SdEvent.Bookkeeping

/-! # What the calls on event sources keep (sd-event.c)

    Whatever calls are made, and whatever fails in them, an I/O source is
    registered with epoll if and only if it is online, the online child sources
    are counted, and `SIGCHLD` is watched while one of them needs it
    (`bookkeeping`).
-/

namespace SdCompat.Event

open Call Transition List Books Info

/-! ## Section 1: Taking event sources out -/

/-- The books without an event source. -/
def Books.remove (B : Books) (s : SourceId) : Books :=
  { B.set s { B.info s with connected := false } with
    sources := B.sources.erase s, n_sources := B.n_sources - 1 }

section remove
variable {B : Books} {s t : SourceId} {e : SdEvent} {E : SdEvent → Prop}

theorem Books.remove_info_of_ne (h : t ≠ s) : (B.remove s).info t = B.info t := if_neg h

/-- What is left is good, also if no signal is for the event source any
    more. -/
theorem Books.But.remove {f : Nat → Option SourceId} (h : B.But s 0)
    (harray : B.has_signal_sources = false → ∀ sig, f sig = none)
    (hsignal : ∀ t ∈ B.sources.erase s, (B.info t).type = .signal → 0 < (B.info t).signal_sig →
      f (B.info t).signal_sig = some t) :
    ({ B with signal_sources := f }.remove s).Ok := by
  have hinfo : ∀ t ∈ B.sources.erase s,
      ({ B with signal_sources := f }.remove s).info t = B.info t :=
    fun t ht => remove_info_of_ne (h.ne ht)
  refine ⟨⟨?_, h.nodup.erase s, fun t ht => h.lt t (mem_of_mem_erase ht), ?_, harray, ?_⟩,
    ?_, ?_, ?_⟩
  · show B.n_sources - 1 = (B.sources.erase s).length
    rw [length_erase_of_mem h.mem, h.n_sources]
  · intro t
    show _ ↔ t ∈ B.sources.erase s
    by_cases hts : t = s
    · subst hts
      refine iff_of_false ?_ h.nodup.not_mem_erase
      show ¬ ((B.set t { B.info t with connected := false }).info t).connected = true
      rw [set_info_self]
      exact Bool.false_ne_true
    · rw [remove_info_of_ne hts, mem_erase_of_ne hts]
      exact h.connected t
  · intro t ht
    rw [hinfo t ht]
    exact hsignal t ht
  · intro t ht
    rw [hinfo t ht]
    exact h.io t ht
  · intro t ht
    rw [hinfo t ht]
    exact h.pid t ht
  · refine h.child.trans (countP_congr fun t ht => ?_)
    rw [hinfo t ht]

theorem Books.But.remove_same (h : B.But s 0) : (B.remove s).Ok :=
  h.remove h.array fun t ht => h.signal t (mem_of_mem_erase ht)

theorem Books.remove_needs (h : B.Base) : (B.remove s).needs ↔ B.needs_but s := by
  have hinfo : ∀ t ∈ B.sources.erase s, (B.remove s).info t = B.info t :=
    fun t ht => remove_info_of_ne (h.nodup.mem_erase_iff.mp ht).1
  constructor
  · rintro ⟨t, ht, hneeds⟩
    rw [hinfo t ht] at hneeds
    exact ⟨t, ht, hneeds⟩
  · rintro ⟨t, ht, hneeds⟩
    refine ⟨t, ht, ?_⟩
    rw [hinfo t ht]
    exact hneeds

/-- The event source can be taken out of the list. -/
def Removable (s : SourceId) (e : SdEvent) : Prop :=
  ∃ B, At B (B.remove s).needs e ∧ (B.remove s).Ok

theorem Removable.keeps {α : Type} {x : Call SdEvent α} (hk : ∀ B W, Keeps (At B W) x) :
    Keeps (Removable s) x := by
  rintro e ⟨B, h, hok⟩
  exact holds_mono (hk _ _ e h) (fun _ _ h => ⟨B, h, hok⟩) fun _ h => ⟨B, h, hok⟩

theorem Books.But.removable (h : B.But s 0) (hat : At B (B.needs_but s) e) : Removable s e :=
  ⟨B, hat.imp (remove_needs h.toBase).mp, h.remove_same⟩

/-- How often an event source counts: a child source from where it has its
    child. -/
def Info.counts (i : Info) : Nat := (i.counted && decide (0 < i.child_pid)).toNat

variable {i : Info}

theorem Info.counts_of_type (h : i.type ≠ .child) : i.counts = 0 := by
  unfold counts counted
  simp [h]

/-- Its own entry does not matter any more. -/
theorem Books.But.removable_set (hbut : B.But s 0) (hcon : i.connected = true)
    (hsig : i.type = .signal → 0 < i.signal_sig → B.signal_sources i.signal_sig = some s)
    (h : At (B.set s i) (B.needs_but s) e) : Removable s e :=
  (hbut.set hcon hsig).removable (h.imp (needs_but_set hbut.toBase).mp)

theorem removable_keeps {x : Call SdEvent PUnit} (hk : ∀ B W, Keeps (At B W) x) (hn : NoErr x)
    (h : At B (B.needs_but s) e) (hbut : B.But s 0) : Holds x e (fun _ => Removable s) E :=
  holds_keeps (Removable.keeps hk) hn (hbut.removable h)

section
variable (h : At B (B.needs_but s) e)
include h

/-- An I/O source is no longer watched. -/
theorem removable_io (hbut : B.But s 0) :
    Holds (source_io_unregister s) e (fun _ => Removable s) E := by
  refine holds_bind holds_source ?_
  rintro x e1 ⟨rfl, rfl⟩
  refine holds_when (fun _ => ?_) fun _ => hbut.removable h
  refine holds_bind (holds_epoll_ctl_del h) fun _ e2 h2 => ?_
  have hup := holds_update_at (s := s) (E := E) (f := fun x => { x with io_registered := false })
    (fun i => { i with io_registered := false }) h2 fun _ _ => rfl
  rw [Books.set_set, Books.set_info_self] at hup
  refine holds_mono hup (fun _ e3 h3 => ?_) fun _ h => h
  exact hbut.removable_set (by exact (hbut.connected s).mpr hbut.mem)
    (by exact hbut.signal s hbut.mem) h3

/-- A signal source no longer has its signal. -/
theorem removable_signal (hbut : B.But s 0) {sig : Nat} (p : Int)
    (hsig : sig = (B.info s).signal_sig) (hpos : 0 < sig) (hty : (B.info s).type = .signal) :
    Holds (do
      modify fun e => { e with signal_sources := fun n =>
        if n = sig then none else e.signal_sources n }
      event_gc_signal_data p sig) e (fun _ => Removable s) E := by
  subst hsig
  refine holds_modify_bind ?_
  -- the signal of another event source is another one
  have hothers : ∀ t ∈ B.sources.erase s, (B.info t).type = .signal → 0 < (B.info t).signal_sig →
      (if (B.info t).signal_sig = (B.info s).signal_sig then none
        else B.signal_sources (B.info t).signal_sig) = some t := by
    intro t ht htty htpos
    have hmine := hbut.signal s hbut.mem hty hpos
    have htheirs := hbut.signal t (mem_of_mem_erase ht) htty htpos
    rw [if_neg]
    · exact htheirs
    · intro heq
      rw [heq, hmine] at htheirs
      exact hbut.ne ht (Option.some.inj htheirs).symm
  have hok := hbut.remove (f := fun n =>
    if n = (B.info s).signal_sig then none else B.signal_sources n)
    (fun hno sig => by rw [hbut.array hno, ite_self]) hothers
  refine holds_mono (holds_keeps (I := At { B with signal_sources := fun n =>
    if n = (B.info s).signal_sig then none else B.signal_sources n } (B.needs_but s))
    (keeps_gc_signal_data p fun _ hW => hbut.pos hW) (noerr_gc_signal_data p _) ⟨?_, h.2⟩)
    (fun _ e1 h1 => ⟨_, h1.imp ?_, hok⟩) fun _ h => h
  · rw [← h.1]
    rfl
  · rintro ⟨t, ht, hneeds⟩
    have hne : t ≠ s := hbut.ne ht
    rw [remove_info_of_ne hne] at hneeds
    exact ⟨t, ht, hneeds⟩

/-- A child source is no longer counted, once it has its child. -/
theorem removable_child {c : Nat} {x : Source} (hbut : B.But s c) (hx : ∃ w, B.info s = x.info w)
    (hty : x.type = .child) (hc : c = (B.info s).counts) :
    Holds (do
      when (0 < x.child_pid) do
        when (event_source_is_online x) do
          assert (0 < (← get).n_online_child_sources)
          modify fun e => { e with n_online_child_sources := e.n_online_child_sources - 1 }
        assert ((← get).child_sources.contains s)
        modify fun e => { e with child_sources := e.child_sources.erase s }
      if EVENT_SOURCE_WATCH_PIDFD x then source_child_pidfd_unregister s
      else event_gc_signal_data x.priority SIGCHLD) e (fun _ => Removable s) E := by
  obtain ⟨w, hx⟩ := hx
  have hcounts : c = (event_source_is_online x && decide (0 < x.child_pid)).toNat := by
    rw [hc, hx]
    unfold counts counted Source.info
    rw [hty]
    rfl
  refine holds_bind (R := fun _ e1 => At { B with
    n_online_child_sources := B.n_online_child_sources - c } (B.needs_but s) e1 ∧
      c ≤ B.n_online_child_sources) ?_ ?_
  · refine holds_when (fun hpid => ?_) fun hpid => ?_
    · refine holds_bind (R := fun _ e1 => At { B with
          n_online_child_sources := B.n_online_child_sources - c } (B.needs_but s) e1 ∧
          c ≤ B.n_online_child_sources) (holds_when (fun honline => ?_) fun hoff => ?_)
        fun _ e1 h1 => ?_
      · have hn : e.n_online_child_sources = B.n_online_child_sources :=
          congrArg n_online_child_sources h.1
        have hone : c = 1 := by
          rw [hcounts, honline, hpid]
          rfl
        refine holds_get_bind (holds_assert_bind fun hpos => holds_modify ⟨⟨?_, h.2⟩, ?_⟩)
        · rw [hone, ← hn]
          exact congrArg
            (fun B : Books => { B with n_online_child_sources := e.n_online_child_sources - 1 }) h.1
        · rw [decide_eq_true_eq] at hpos
          omega
      · have hzero : c = 0 := by
          rw [hcounts, hoff]
          rfl
        rw [hzero]
        exact ⟨h, Nat.zero_le _⟩
      · exact holds_get_bind (holds_assert_bind fun _ => holds_modify h1)
    · have hzero : c = 0 := by
        rw [hcounts, hpid, Bool.and_false]
        rfl
      rw [hzero]
      exact ⟨h, Nat.zero_le _⟩
  · rintro _ e1 ⟨h1, hle⟩
    -- the event source counts no more
    have hbut1 : { B with n_online_child_sources := B.n_online_child_sources - c }.But s 0 :=
      hbut.recount (by omega)
    split
    · refine holds_mono (holds_pidfd_unregister h1 ?_)
        (fun _ _ h => hbut1.removable h) fun _ h => h
      rw [hx]
      unfold Source.info
      simp [hty]
    · exact holds_mono (holds_keeps (keeps_gc_signal_data x.priority fun _ hW => hbut1.pos hW)
        (noerr_gc_signal_data _ _) h1) (fun _ _ h => hbut1.removable h) fun _ h => h

/-- The `switch` leaves an event source that nothing depends on. -/
theorem removable_switch {c : Nat} (hbut : B.But s c) (hc : c = (B.info s).counts) :
    Holds (source_disconnect_type s) e (fun _ => Removable s) E := by
  refine holds_bind holds_source ?_
  rintro x e1 ⟨rfl, rfl⟩
  have hx := h.info s
  have hty : (B.info s).type = (e1.source s).type := by
    rw [hx]
    rfl
  -- only child sources are counted
  have hzero : (e1.source s).type ≠ .child → B.But s 0 := by
    intro hchild
    rw [counts_of_type (by rw [hty]; exact hchild)] at hc
    rw [← hc]
    exact hbut
  have hkeeps : ∀ y : Call SdEvent PUnit, (e1.source s).type ≠ .child →
      (∀ B W, Keeps (At B W) y) → NoErr y → Holds y e1 (fun _ => Removable s) E :=
    fun y hchild hk hn => removable_keeps hk hn h (hzero hchild)
  cases hcase : (e1.source s).type with
  | io =>
    have hbut0 := hzero (by simp [hcase])
    exact holds_when (fun _ => removable_io h hbut0) fun _ => hbut0.removable h
  | time clock =>
    exact hkeeps _ (by simp [hcase]) (fun _ _ => keeps_when (keeps_time_prioq_remove s clock))
      (noerr_when (noerr_time_prioq_remove s clock))
  | signal =>
    have hbut0 := hzero (by simp [hcase])
    refine holds_when (fun hpos => ?_) fun _ => hbut0.removable h
    exact removable_signal h hbut0 _ (by rw [hx]; rfl) (by simpa using hpos) (hty.trans hcase)
  | child => exact removable_child h hbut ⟨_, hx⟩ hcase hc
  | defer => exact (hzero (by simp [hcase])).removable h
  | post =>
    exact hkeeps _ (by simp [hcase]) (fun _ _ => keeps_modify fun _ h => h) (noerr_modify _)
  | exit =>
    refine hkeeps _ (by simp [hcase]) (fun _ _ => ?_) (noerr_bind (noerr_prioq_remove _ _) fun _ => ?_)
    · exact keeps_bind (keeps_prioq_remove _ _) fun _ => keeps_pure _
    · exact noerr_pure _
  | inotify =>
    exact hkeeps _ (by simp [hcase]) (fun _ _ => keeps_disconnect_inotify s)
      (noerr_disconnect_inotify s)
  | memory_pressure | cpu_pressure | io_pressure =>
    have hbut0 := hzero (by simp [hcase])
    refine holds_bind (R := fun _ => At B (B.needs_but s)) (holds_keeps ?_
      (noerr_remove_from_write_list s) h) fun _ e2 h2 => ?_
    · refine keeps_bind (keeps_source s) fun x => keeps_when ?_
      exact keeps_bind (keeps_modify fun _ h => h) fun _ => keeps_update s fun _ _ => rfl
    · refine holds_mono (holds_pressure_unregister h2 (by simp [hty, hcase]))
        (fun _ _ h => hbut0.removable h) fun _ h => h

end

/-- It is taken out of its queues and of the list. -/
theorem holds_disconnect_rest (h : Removable s e) :
    Holds (do
      let x ← source s
      when x.pending do
        let _ ← prioq_remove .pending s
      when x.prepare do
        let _ ← prioq_remove .prepare s
      when x.ratelimited (event_source_time_prioq_remove s .boottime)
      update s fun x => { x with connected := false }
      modify fun e => { e with sources := e.sources.erase s, n_sources := e.n_sources - 1 }) e
      (fun _ => Fine) E := by
  have hqueue : ∀ q, ∀ e, Removable s e → Holds (do
      let _ ← prioq_remove q s) e (fun _ => Removable s) E := fun q e h =>
    holds_keeps (Removable.keeps fun _ _ => keeps_bind (keeps_prioq_remove q s) fun _ => keeps_pure _)
      (noerr_bind (noerr_prioq_remove q s) fun _ => noerr_pure _) h
  refine holds_bind holds_source ?_
  rintro x e1 ⟨rfl, rfl⟩
  refine holds_bind (holds_when (fun _ => hqueue .pending e1 h) fun _ => h) fun _ e2 h2 => ?_
  refine holds_bind (holds_when (fun _ => hqueue .prepare e2 h2) fun _ => h2) fun _ e3 h3 => ?_
  refine holds_bind (holds_keeps (Removable.keeps fun _ _ => keeps_when
    (keeps_time_prioq_remove s _)) (noerr_when (noerr_time_prioq_remove s _)) h3) ?_
  rintro _ e4 ⟨B, h4, hok⟩
  refine holds_bind (holds_update_at (fun i => { i with connected := false }) h4 fun _ _ => rfl)
    fun _ e5 h5 => holds_modify ?_
  refine At.fine (B := B.remove s) ⟨?_, h5.2⟩ hok
  exact congrArg (fun C : Books =>
    { C with sources := C.sources.erase s, n_sources := C.n_sources - 1 }) h5.1

/-- An event source that has not been taken out yet. -/
theorem holds_disconnect {c : Nat} (h : At B (B.needs_but s) e) (hbut : B.But s c)
    (hc : c = (B.info s).counts) : Holds (source_disconnect s) e (fun _ => Fine) E := by
  refine holds_bind holds_source ?_
  rintro x e1 ⟨rfl, rfl⟩
  have hcon : (e1.source s).connected = true := by
    have hcon := (hbut.connected s).mpr hbut.mem
    rw [h.info s] at hcon
    exact hcon
  refine holds_when (fun _ => ?_) fun hf => ?_
  · refine holds_get_bind (holds_assert_bind fun _ => ?_)
    exact holds_bind (removable_switch h hbut hc) fun _ e2 h2 => holds_disconnect_rest h2
  · rw [hcon] at hf
    cases hf

/-- It counts as often as it is counted. -/
theorem Info.counts_of_pid (h : i.pid_ok) : i.counts = i.counted.toNat := by
  by_cases hty : i.type = .child
  · unfold counts
    rw [decide_eq_true (h hty), Bool.and_true]
  · rw [counts_of_type hty, not_counted hty]

/-- Any event source that is taken out, or has been already. -/
theorem fine_disconnect (hf : Fine e) : Holds (source_disconnect s) e (fun _ => Fine) E := by
  by_cases hs : s ∈ e.sources
  · refine holds_disconnect (hf.at.imp needs_of_but) (hf.1.but hs) ?_
    exact (counts_of_pid (hf.1.pid s hs)).symm
  · refine holds_bind holds_source ?_
    rintro x e1 ⟨rfl, rfl⟩
    refine holds_when (fun hcon => ?_) fun _ => hf
    exact absurd ((hf.1.connected s).mp hcon) hs

theorem fine_free (hf : Fine e) : Holds (source_free s) e (fun _ => Fine) E := by
  refine holds_bind (fine_disconnect hf) fun _ e1 h1 => ?_
  exact fine_keeps' (fun _ _ => keeps_update s fun _ _ => rfl) (noerr_update s _) h1

theorem fine_event_source_free (hf : Fine e) : Holds (event_source_free s) e (fun _ => Fine) E := by
  refine holds_bind holds_source ?_
  rintro x e1 ⟨rfl, rfl⟩
  split
  · exact fine_disconnect hf
  · exact fine_free hf

theorem fine_unref (hf : Fine e) : Holds (sd_event_source_unref s) e (fun _ => Fine) E := by
  refine holds_bind holds_source ?_
  rintro x e1 ⟨rfl, rfl⟩
  refine holds_assert_bind fun _ => ?_
  refine holds_bind (fine_keeps' (fun _ _ => keeps_update s fun _ _ => rfl) (noerr_update s _) hf)
    fun _ e2 h2 => ?_
  exact holds_when (fun _ => fine_event_source_free h2) fun _ => h2

end remove

/-! ## Section 2: Adding event sources -/

/-- An event source that is being added: it is in the list, it does not count,
    and this is known of it. -/
def Adding (s : SourceId) (P : Info → Prop) (e : SdEvent) : Prop :=
  ∃ B, At B (B.needs_but s) e ∧ B.But s 0 ∧ (B.info s).child_pid = 0 ∧ P (B.info s)

section add
variable {B : Books} {s : SourceId} {e : SdEvent} {E : SdEvent → Prop} {P Q : Info → Prop}

variable {α : Type} {x : Call SdEvent α}

theorem Adding.keeps (hk : ∀ B W, Keeps (At B W) x) : Keeps (Adding s P) x := by
  rintro e ⟨B, h, hrest⟩
  exact holds_mono (hk _ _ e h) (fun _ _ h => ⟨B, h, hrest⟩) fun _ h => ⟨B, h, hrest⟩

variable {f : Source → Source}

/-- It is filled in. -/
theorem Adding.update (g : Info → Info) (hg : ∀ x w, (f x).info w = g (x.info w))
    (hsame : ∀ i, (g i).connected = i.connected ∧ (g i).type = i.type ∧ (g i).signal_sig = i.signal_sig ∧ (g i).child_pid = i.child_pid)
    (hP : ∀ i, P i → Q (g i)) (h : Adding s P e) :
    Holds (update s f) e (fun _ => Adding s Q) E := by
  obtain ⟨B, h, hbut, hpid, hi⟩ := h
  obtain ⟨hcon, hty, hsig, hchild⟩ := hsame (B.info s)
  refine holds_mono (holds_update_at g h hg) (fun _ e1 h1 => ⟨_, h1.imp ?_, ?_, ?_, ?_⟩) fun _ h => h
  · exact (needs_but_set hbut.toBase).mp
  · refine hbut.set (hcon.trans ((hbut.connected s).mpr hbut.mem)) ?_
    rw [hty, hsig]
    exact hbut.signal s hbut.mem
  · rw [set_info_self, hchild, hpid]
  · rw [set_info_self]
    exact hP _ hi

/-- Where adding it fails, it is taken out again. -/
theorem Adding.free (h : Adding s P e) : Holds (source_free s) e (fun _ => Fine) E := by
  obtain ⟨B, h, hbut, hpid, _⟩ := h
  refine holds_bind (holds_disconnect h hbut ?_) fun _ e1 h1 => ?_
  · unfold counts
    rw [hpid]
    simp
  · exact fine_keeps' (fun _ _ => keeps_update s fun _ _ => rfl) (noerr_update s _) h1

/-- One that is neither an I/O source nor a child source is complete as it
    is. -/
theorem Adding.fine (h : Adding s P e) (hP : ∀ i, P i → i.type ≠ .io ∧ i.type ≠ .child) : Fine e := by
  obtain ⟨B, h, hbut, _, hi⟩ := h
  obtain ⟨hio, hchild⟩ := hP _ hi
  refine (h.imp fun hneeds => ?_).fine (hbut.ok_of_type hio hchild)
  rcases (needs_iff hbut.mem).mp hneeds with hself | hothers
  · unfold needs_sigchld counted at hself
    simp [hchild] at hself
  · exact hothers

/-- The books with a new event source. -/
def Books.add (B : Books) (i : Info) : Books :=
  { B with
    next_source := B.next_source + 1
    sources := B.next_source :: B.sources
    n_sources := B.n_sources + 1
    info := fun t => if t = B.next_source then i else B.info t }

theorem Books.add_info (i : Info) : (B.add i).info B.next_source = i := if_pos rfl

theorem Books.Base.not_mem (h : B.Base) : B.next_source ∉ B.sources :=
  fun hmem => Nat.lt_irrefl _ (h.lt _ hmem)

theorem Books.add_erase (B : Books) (i : Info) :
    (B.add i).sources.erase B.next_source = B.sources :=
  erase_cons_head _ _

theorem Books.Base.add_info_of_mem (h : B.Base) (i : Info) {t : SourceId} (ht : t ∈ B.sources) :
    (B.add i).info t = B.info t :=
  if_neg fun heq : t = B.next_source => h.not_mem (heq ▸ ht)

variable {i : Info}

theorem Books.Ok.add (h : B.Ok) (hcon : i.connected = true) (hsig : i.signal_sig = 0) :
    (B.add i).But B.next_source 0 := by
  refine ⟨⟨congrArg (· + 1) h.n_sources, nodup_cons.mpr ⟨h.not_mem, h.nodup⟩, ?_, ?_, h.array,
    ?_⟩, mem_cons_self, ?_, ?_, ?_⟩
  · intro t ht
    rcases mem_cons.mp ht with rfl | ht
    · exact Nat.lt_succ_self _
    · exact Nat.lt_succ_of_lt (h.lt t ht)
  · intro t
    by_cases hts : t = B.next_source
    · rw [hts, add_info]
      exact iff_of_true hcon mem_cons_self
    · have hinfo : (B.add i).info t = B.info t := if_neg hts
      rw [hinfo, h.connected t]
      exact ⟨mem_cons_of_mem _, fun ht => (mem_cons.mp ht).resolve_left hts⟩
  · intro t ht
    rcases mem_cons.mp ht with rfl | ht
    · rw [add_info, hsig]
      exact fun _ hpos => absurd hpos (Nat.lt_irrefl 0)
    · rw [h.add_info_of_mem i ht]
      exact h.signal t ht
  · intro t ht
    rw [add_erase] at ht
    rw [h.add_info_of_mem i ht]
    exact h.io t ht
  · intro t ht
    rw [add_erase] at ht
    rw [h.add_info_of_mem i ht]
    exact h.pid t ht
  · rw [add_erase]
    refine h.child.trans (countP_congr fun t ht => ?_)
    rw [h.add_info_of_mem i ht]

theorem Books.Base.add_needs (h : B.Base) : (B.add i).needs_but B.next_source → B.needs := by
  rintro ⟨t, ht, hneeds⟩
  rw [add_erase] at ht
  rw [h.add_info_of_mem i ht] at hneeds
  exact ⟨t, ht, hneeds⟩

variable {W : Prop}

/-- A new event source, at an address of its own. -/
theorem holds_new_books (h : At B W e) (type : EventSourceType) :
    Holds (source_new type) e (fun s e' => s = B.next_source ∧
      ∃ w, At (B.add ((Source.new type).info w)) W e') (At B W) := by
  refine holds_bind (keeps_alloc e h) fun _ e1 h1 => holds_get_bind (holds_modify_bind ?_)
  obtain ⟨rfl, hW⟩ := h1
  refine ⟨rfl, (e1.epoll e1.next_source).isSome, ?_, hW⟩
  unfold SdEvent.books add SdEvent.set_source
  congr 1
  funext t
  dsimp only
  split
  · next heq => rw [heq]
  · rfl

/-- What is known of a new event source. -/
def Fresh (type : EventSourceType) (i : Info) : Prop := i.type = type ∧ i.ratelimited = false

theorem holds_new (hf : Fine e) (type : EventSourceType) :
    Holds (source_new type) e (fun s => Adding s (Fresh type)) Fine := by
  refine holds_mono (holds_new_books hf.at type) ?_ fun _ h => Unchanged.fine h hf
  rintro s e1 ⟨rfl, w, h1⟩
  refine ⟨_, h1.imp hf.1.add_needs, hf.1.add (by rfl) (by rfl), ?_, ?_⟩
  · rw [add_info]
    rfl
  · rw [add_info]
    exact ⟨rfl, rfl⟩

/-- A call that has nothing to do with the books. -/
theorem keeps_fine (hk : ∀ B W, Keeps (At B W) x) : Keeps Fine x :=
  fun _ hf => holds_mono (holds_unchanged hk hf) (fun _ _ h => h) fun _ h => h.fine hf

variable {body : SourceId → Call SdEvent PUnit} {type : EventSourceType}

/-- Fill in a new event source, and take it out where that fails. -/
theorem fine_add (hf : Fine e)
    (hbody : ∀ s e, Adding s (Fresh type) e → Holds (body s) e (fun _ => Fine) fun e => ∃ P, Adding s P e) :
    Holds (do
      let s ← source_new type
      cleanup (body s) (source_free s)
      pure s) e (fun _ => Fine) Fine := by
  refine holds_bind (holds_new hf type) fun s e1 h1 => ?_
  refine holds_bind (holds_cleanup (hbody s e1 h1) ?_) fun _ e2 h2 => h2
  rintro e2 ⟨P, h2⟩
  exact h2.free

/-- A new event source of a type that has no part in the books. -/
theorem fine_add_other (hf : Fine e) (hio : type ≠ .io) (hchild : type ≠ .child) (enabled : Enabled)
    (hf' : ∀ x w, (f x).info w = { x.info w with enabled })
    (hbody : ∀ s B W, (B.info s).type = type → Keeps (At B W) (body s)) :
    Holds (do
      let s ← source_new type
      cleanup (do
        update s f
        body s) (source_free s)
      pure s) e (fun _ => Fine) Fine := by
  refine fine_add hf fun s e1 h1 => ?_
  refine holds_bind (h1.update (Q := Fresh type) (fun i => { i with enabled }) hf'
    (fun _ => ⟨rfl, rfl, rfl, rfl⟩) fun _ hi => hi) ?_
  rintro _ e2 ⟨B, h2, hrest⟩
  have hadding : ∀ e3, At B (B.needs_but s) e3 → Adding s (Fresh type) e3 := fun _ h3 => ⟨B, h3, hrest⟩
  refine holds_mono (hbody s B _ hrest.2.2.1 e2 h2) (fun _ e3 h3 => (hadding e3 h3).fine ?_)
    fun e3 h3 => ⟨_, hadding e3 h3⟩
  rintro i ⟨rfl, _⟩
  exact ⟨hio, hchild⟩

theorem keeps_now {B : Books} (clock : Clock) : Keeps (At B W) (sd_event_now clock) := by
  refine keeps_bind keeps_get fun e => ?_
  dsimp only
  split
  · refine keeps_bind keeps_ask fun a => ?_
    split
    · exact keeps_pure _
    · exact keeps_pure _
  · split
    · exact keeps_pure _
    · exact keeps_pure _
    · exact keeps_pure _
    · exact keeps_pure _
    · exact keeps_pure _

theorem fine_add_time (hf : Fine e) (clock : Clock) (usec accuracy : Nat) :
    Holds (sd_event_add_time clock usec accuracy) e (fun _ => Fine) Fine := by
  refine holds_check_bind hf fun _ => ?_
  refine holds_bind (keeps_fine (fun _ _ => keeps_not_finished) e hf) fun _ e1 h1 => ?_
  refine holds_bind (keeps_fine (fun _ _ => keeps_ask) e1 h1) fun a e2 h2 => ?_
  split
  · exact h2
  · refine holds_bind (keeps_fine (fun _ _ => keeps_setup_clock_data clock) e2 h2) fun _ e3 h3 => ?_
    exact fine_add_other h3 (by simp) (by simp) .oneshot (by exact fun _ _ => rfl)
      fun s _ _ _ => keeps_time_prioq_put s clock

theorem fine_add_time_relative (hf : Fine e) (clock : Clock) (usec accuracy : Nat) :
    Holds (sd_event_add_time_relative clock usec accuracy) e (fun _ => Fine) Fine := by
  refine holds_bind (keeps_fine (fun _ _ => keeps_now clock) e hf) fun t e1 h1 => ?_
  exact holds_check_bind h1 fun _ => fine_add_time h1 _ _ _

theorem fine_add_defer (hf : Fine e) : Holds sd_event_add_defer e (fun _ => Fine) Fine := by
  refine holds_bind (keeps_fine (fun _ _ => keeps_not_finished) e hf) fun _ e1 h1 => ?_
  refine fine_add_other h1 (by simp) (by simp) .oneshot (by exact fun _ _ => rfl) fun s _ _ _ => ?_
  exact keeps_bind (keeps_set_pending s true) fun _ => keeps_pure _

theorem fine_add_post (hf : Fine e) : Holds sd_event_add_post e (fun _ => Fine) Fine := by
  refine holds_bind (keeps_fine (fun _ _ => keeps_not_finished) e hf) fun _ e1 h1 => ?_
  refine fine_add_other h1 (by simp) (by simp) .on (by exact fun _ _ => rfl) fun s _ _ _ => ?_
  exact keeps_bind keeps_alloc fun _ => keeps_modify fun _ h => h

theorem fine_add_exit (hf : Fine e) : Holds sd_event_add_exit e (fun _ => Fine) Fine := by
  refine holds_bind (keeps_fine (fun _ _ => keeps_not_finished) e hf) fun _ e1 h1 => ?_
  refine holds_bind (keeps_fine (fun _ _ => keeps_prioq_ensure_allocated _) e1 h1) fun _ e2 h2 => ?_
  exact fine_add_other h2 (by simp) (by simp) .oneshot (by exact fun _ _ => rfl)
    fun s _ _ _ => keeps_prioq_put _ s

theorem keeps_add_to_write_list {B : Books} (s : SourceId) :
    Keeps (At B W) (source_pressure_add_to_write_list s) := by
  refine keeps_bind (keeps_source s) fun x => keeps_when ?_
  exact keeps_bind (keeps_modify fun _ h => h) fun _ => keeps_update s fun _ _ => rfl

theorem fine_add_pressure (hf : Fine e) (type : EventSourceType) (events : UInt32) (locked : Bool)
    (size : Nat) : Holds (event_add_pressure type events locked size) e (fun _ => Fine) Fine := by
  refine holds_assert_bind fun hpressure => ?_
  have hio : type ≠ .io := by
    rintro rfl
    cases hpressure
  have hchild : type ≠ .child := by
    rintro rfl
    cases hpressure
  refine holds_bind (keeps_fine (fun _ _ => keeps_not_finished) e hf) fun _ e1 h1 => ?_
  refine fine_add_other h1 hio hchild .on (by exact fun _ _ => rfl) fun s B W hty => ?_
  refine keeps_bind keeps_syscall fun _ => keeps_bind (keeps_update s fun _ _ => rfl) fun _ => ?_
  refine keeps_ite (keeps_add_to_write_list s) fun e h => ?_
  exact holds_pressure_register h (by rw [hty]; exact hio) _

theorem fine_add_inotify (hf : Fine e) (i : Inode) (mask : UInt32) :
    Holds (sd_event_add_inotify i mask) e (fun _ => Fine) Fine := by
  refine holds_bind (keeps_fine (fun _ _ => keeps_not_finished) e hf) fun _ e1 h1 => ?_
  refine holds_check_bind h1 fun _ => ?_
  refine holds_bind (keeps_fine (fun _ _ => keeps_syscall) e1 h1) fun _ e2 h2 => ?_
  refine fine_add_other h2 (by simp) (by simp) _ (by exact fun _ _ => rfl) fun s _ _ _ => ?_
  refine keeps_bind (keeps_make_inotify_data _) fun _ => keeps_bind (keeps_cleanup ?_ ?_) fun _ => ?_
  · exact keeps_bind (keeps_make_inode_data _ _) fun _ => keeps_pure _
  · exact keeps_gc_inotify_data _
  · refine keeps_bind (keeps_cleanup (keeps_open_inode _ _) (keeps_gc_inode_data _ _)) fun _ => ?_
    exact keeps_bind (keeps_attach_inode _ _ _) fun _ => keeps_realize_watch _ _

/-- A new I/O source is registered, or taken out again. -/
theorem fine_add_io (hf : Fine e) (fd : Int) (events : UInt32) :
    Holds (sd_event_add_io fd events) e (fun _ => Fine) Fine := by
  refine holds_check_bind hf fun _ => holds_check_bind hf fun _ => ?_
  refine holds_bind (keeps_fine (fun _ _ => keeps_not_finished) e hf) fun _ e1 h1 => ?_
  refine fine_add h1 fun s e2 h2 => ?_
  refine holds_bind (h2.update (Q := fun i => Fresh .io i ∧ i.enabled = .on)
    (fun i => { i with enabled := .on }) (by exact fun _ _ => rfl) (fun _ => ⟨rfl, rfl, rfl, rfl⟩)
    fun _ hi => ⟨hi, rfl⟩) ?_
  rintro _ e3 ⟨B, h3, hbut, hpid, hi⟩
  refine holds_mono (holds_io_register h3 _ _) (fun _ e4 h4 => ?_) fun e4 h4 =>
    ⟨fun i => Fresh .io i ∧ i.enabled = .on, B, h4, hbut, hpid, hi⟩
  obtain ⟨⟨hty, hlimited⟩, hen⟩ := hi
  have honline : (B.info s).online = true := by
    unfold online
    rw [hen, hlimited]
    rfl
  obtain ⟨hok, hneeds⟩ := hbut.put
    (i := { B.info s with io_registered := true, io_watched := (B.info s).type == .io })
    ((hbut.connected s).mpr hbut.mem) (hbut.signal s hbut.mem)
    (fun _ => ⟨honline.symm, by rw [hty]; exact honline.symm⟩)
    (fun hchild => by rw [hty] at hchild; cases hchild)
    (not_counted (by rw [hty]; exact fun h => by cases h)).symm
  refine (h4.imp fun hn => ?_).fine hok
  rcases hneeds.mp hn with hself | hothers
  · unfold needs_sigchld counted at hself
    simp [hty] at hself
  · exact hothers

/-- A new child source is counted at the very end. -/
theorem fine_add_child (hf : Fine e) (pid : Nat) (options : UInt32) :
    Holds (sd_event_add_child pid options) e (fun _ => Fine) Fine := by
  refine holds_check_bind hf fun hpos => holds_check_bind hf fun _ => holds_check_bind hf fun _ => ?_
  refine holds_bind (keeps_fine (fun _ _ => keeps_not_finished) e hf) fun _ e1 h1 => ?_
  refine holds_bind (keeps_fine (fun _ _ => keeps_syscall) e1 h1) fun _ e2 h2 => ?_
  refine holds_get_bind (holds_check_bind h2 fun _ => fine_add h2 fun s e3 h3 => ?_)
  refine holds_bind (holds_mono (Adding.keeps (fun _ _ => keeps_syscall) e3 h3) (fun _ _ h => h)
    fun _ h => ⟨_, h⟩) fun _ e4 h4 => ?_
  refine holds_bind (h4.update (Q := fun i => Fresh .child i ∧ i.enabled = .oneshot)
    (fun i => { i with child_options := options, enabled := .oneshot }) (by exact fun _ _ => rfl)
    (fun _ => ⟨rfl, rfl, rfl, rfl⟩) fun _ hi => ⟨hi, rfl⟩) ?_
  rintro _ e5 ⟨B, h5, hbut, hpid, hi⟩
  obtain ⟨⟨hty, hlimited⟩, hen⟩ := hi
  have hadding : ∀ e, At B (B.needs_but s) e → ∃ P, Adding s P e :=
    fun e h => ⟨fun _ => True, B, h, hbut, hpid, trivial⟩
  refine holds_bind holds_source ?_
  rintro x e6 ⟨rfl, rfl⟩
  have hx := h5.info s
  -- the child source itself may need `SIGCHLD`
  have hrest : ∀ e, At B ((B.info s).pidfd = false ∨ B.needs_but s) e → Holds (do
      alloc
      update s fun x => { x with child_pid := pid }
      modify fun e =>
        { e with child_sources := s :: e.child_sources,
                 n_online_child_sources := e.n_online_child_sources + 1 }) e (fun _ => Fine)
      fun e => ∃ P, Adding s P e := by
    intro e7 h7
    refine holds_bind (holds_mono (keeps_alloc e7 h7) (fun _ _ h => h)
      fun _ h => hadding _ (h.imp .inr)) fun _ e8 h8 => ?_
    refine holds_bind (holds_update_at (fun i => { i with child_pid := pid }) h8 fun _ _ => rfl)
      fun _ e9 h9 => holds_modify ?_
    have hone : counted { B.info s with child_pid := pid } = true := by
      unfold counted online
      simp [hty, hlimited, hen]
    obtain ⟨hok, hneeds⟩ := (hbut.recount (n := B.n_online_child_sources + 1) (d := 1) (by omega)).put
      (i := { B.info s with child_pid := pid }) ((hbut.connected s).mpr hbut.mem)
      (hbut.signal s hbut.mem) (fun hio => by rw [hty] at hio; cases hio)
      (fun _ => Nat.lt_trans Nat.zero_lt_one (of_decide_eq_true hpos)) (by rw [hone]; rfl)
    refine At.fine ⟨?_, fun hn => h9.2 ?_⟩ hok
    · exact congrArg (fun B : Books => { B with
        n_online_child_sources := B.n_online_child_sources + 1 }) h9.1
    · rcases hneeds.mp hn with hself | hothers
      · left
        unfold needs_sigchld at hself
        rw [hone] at hself
        have hself' : (!(B.info s).pidfd) = true := hself
        simpa using hself'
      · exact .inr hothers
  split
  · next hw =>
    refine holds_bind (holds_mono (holds_pidfd_register h5 (by simp [hty]) _) (fun _ _ h => h) hadding)
      fun _ e7 h7 => hrest e7 (h7.imp ?_)
    rintro (hp | hn)
    · have hw' : (B.info s).pidfd = true := by
        rw [hx]
        exact hw
      rw [hp] at hw'
      cases hw'
    · exact hn
  · refine holds_bind (holds_mono (holds_make_signal_data SIGCHLD h5) (fun _ _ h => h) hadding) ?_
    rintro p e7 ⟨_, h7, d, hd, hmem⟩
    exact holds_modify_bind (hrest _ ⟨h7.1, fun _ => ⟨p, d, hd, hmem⟩⟩)

/-- The books with an event source for a signal that had none. -/
def Books.add_signal (B : Books) (sig : Nat) (i : Info) : Books :=
  { B.add i with
    signal_sources := fun n => if n = sig then some B.next_source else B.signal_sources n }

variable {sig : Nat}

theorem Books.Ok.add_signal (h : B.Ok) (harray : B.has_signal_sources = true)
    (hnone : B.signal_sources sig = none) (hcon : i.connected = true) (hsig : i.signal_sig = sig) :
    (B.add_signal sig i).But B.next_source 0 := by
  have hnew := h.add (i := { i with signal_sig := 0 }) hcon rfl
  -- while it has no signal itself, the array may change
  have hbut : { B.add { i with signal_sig := 0 } with
      signal_sources := (B.add_signal sig i).signal_sources }.But B.next_source 0 := by
    refine ⟨⟨hnew.n_sources, hnew.nodup, hnew.lt, hnew.connected, fun hno => ?_, ?_⟩, hnew.mem,
      hnew.io, hnew.pid, hnew.child⟩
    · exact absurd (harray.symm.trans hno) (by simp)
    · intro t ht hty hpos
      have hmine : B.signal_sources _ = some t := hnew.signal t ht hty hpos
      refine (if_neg fun heq => ?_).trans hmine
      rw [heq, hnone] at hmine
      cases hmine
  have hset := hbut.set (i := i) hcon fun _ _ => if_pos hsig
  refine (congrArg (fun B' : Books => B'.But B.next_source 0) ?_).mp hset
  unfold Books.add_signal Books.add Books.set
  congr 1
  funext t
  dsimp only
  split
  · rfl
  · rfl

theorem fine_add_new_signal (hf : Fine e) (harray : e.has_signal_sources = true)
    (hnone : e.signal_sources sig = none) :
    Holds (do
      let s ← source_new .signal
      cleanup (do
        update s fun x => { x with signal_sig := sig, enabled := .on }
        modify fun e =>
          { e with signal_sources := fun n => if n = sig then some s else e.signal_sources n }
        syscall
        let _ ← event_make_signal_data sig)
        (source_free s)
      pure s) e (fun _ => Fine) Fine := by
  refine holds_bind (holds_mono (holds_new_books hf.at .signal) (fun _ _ h => h)
    fun _ h => Unchanged.fine h hf) ?_
  rintro s e1 ⟨rfl, w, h1⟩
  refine holds_bind (R := fun _ => Fine) (holds_cleanup
    (F := Adding e.books.next_source (Fresh .signal)) ?_ fun _ h => h.free) fun _ _ h => h
  refine holds_bind (holds_update_at (fun i => { i with signal_sig := sig, enabled := .on }) h1
    fun _ _ => rfl) fun _ e2 h2 => holds_modify_bind ?_
  rw [add_info] at h2
  have h3 : Adding e.books.next_source (Fresh .signal) { e2 with signal_sources := fun n =>
      if n = sig then (some e.books.next_source) else e2.signal_sources n } := by
    refine ⟨e.books.add_signal sig
      { (Source.new .signal).info w with signal_sig := sig, enabled := .on },
      ⟨?_, fun hn => h2.2 (hf.1.add_needs hn)⟩, hf.1.add_signal harray hnone rfl rfl, ?_, ?_⟩
    · refine (congrArg (fun B : Books => { B with signal_sources := fun n =>
        if n = sig then (some e.books.next_source) else B.signal_sources n }) h2.1).trans ?_
      unfold Books.add_signal Books.add Books.set
      congr 1
      funext t
      dsimp only
      split
      · rfl
      · rfl
    · exact congrArg child_pid (if_pos rfl)
    · exact (congrArg (Fresh .signal) (if_pos rfl)).mpr ⟨rfl, rfl⟩
  refine holds_bind (Adding.keeps (fun _ _ => keeps_syscall) _ h3) fun _ e4 h4 => ?_
  refine holds_mono (Adding.keeps (fun _ _ => keeps_bind (keeps_make_signal_data sig)
    fun _ => keeps_pure _) e4 h4) (fun _ _ h => h.fine ?_) fun _ h => h
  rintro i ⟨hty, _⟩
  rw [hty]
  exact ⟨(by simp), (by simp)⟩

theorem fine_add_signal (hf : Fine e) (sig : Nat) :
    Holds (sd_event_add_signal sig) e (fun _ => Fine) Fine := by
  refine holds_bind (keeps_fine (fun _ _ => keeps_not_finished) e hf) fun _ e1 h1 => ?_
  refine holds_check_bind h1 fun _ => ?_
  refine holds_bind (keeps_fine (fun _ _ => keeps_syscall) e1 h1) fun _ e2 h2 => ?_
  refine holds_get_bind ?_
  split
  · next harray =>
    refine holds_check_bind h2 fun hnone => ?_
    exact fine_add_new_signal h2 harray (by simpa using hnone)
  · next harray =>
    -- the array is new, and empty
    refine holds_bind (holds_mono (keeps_alloc e2 h2.at) (fun _ _ h => h)
      fun _ h => Unchanged.fine h h2) fun _ e3 h3 => holds_modify_bind ?_
    have hf3 : Fine e3 := Unchanged.fine h3 h2
    have hno : e2.books.has_signal_sources = false := by
      show e2.has_signal_sources = false
      simpa using harray
    have hnone : ∀ sig, e3.signal_sources sig = none := by
      refine hf3.1.array ?_
      rw [h3.1, hno]
    have hfine : Fine { e3 with has_signal_sources := true } :=
      ⟨⟨⟨hf3.1.n_sources, hf3.1.nodup, hf3.1.lt, hf3.1.connected, fun _ => hnone, hf3.1.signal⟩,
        hf3.1.io, hf3.1.pid, hf3.1.child⟩, hf3.2⟩
    exact fine_add_new_signal hfine rfl (hnone sig)

end add

/-! ## Section 3: Changing event sources -/

section change
variable {s : SourceId} {e : SdEvent}

/-- A call that has nothing to do with the books. -/
theorem holds_public {x : Source → Call SdEvent PUnit} (hk : ∀ y B W, Keeps (At B W) (x y))
    (hf : Fine e) :
    Holds (do
      let y ← public_source s
      x y) e (fun _ => Fine) (Unchanged e) :=
  holds_unchanged (fun _ _ => keeps_bind (keeps_public_source s) fun y => hk y _ _) hf

section
variable (hf : Fine e)
include hf

theorem holds_set_time (usec : Nat) :
    Holds (sd_event_source_set_time s usec) e (fun _ => Fine) (Unchanged e) := by
  refine holds_public (fun y _ _ => ?_) hf
  refine keeps_bind (keeps_check _ _) fun _ => keeps_bind keeps_not_finished fun _ => ?_
  refine keeps_bind (keeps_set_pending s false) fun _ => ?_
  exact keeps_bind (keeps_update s fun _ _ => rfl) fun _ => keeps_time_prioq_reshuffle s

theorem holds_set_time_accuracy (usec : Nat) :
    Holds (sd_event_source_set_time_accuracy s usec) e (fun _ => Fine) (Unchanged e) := by
  refine holds_public (fun y _ _ => ?_) hf
  refine keeps_bind (keeps_check _ _) fun _ => keeps_bind (keeps_check _ _) fun _ => ?_
  refine keeps_bind keeps_not_finished fun _ => keeps_bind (keeps_set_pending s false) fun _ => ?_
  exact keeps_bind (keeps_update s fun _ _ => rfl) fun _ => keeps_time_prioq_reshuffle s

theorem holds_set_time_relative (usec : Nat) :
    Holds (sd_event_source_set_time_relative s usec) e (fun _ => Fine) (Unchanged e) := by
  have hset : ∀ usec B W, Keeps (At B W) (sd_event_source_set_time s usec) := by
    intro usec B W
    refine keeps_bind (keeps_public_source s) fun y => keeps_bind (keeps_check _ _) fun _ => ?_
    refine keeps_bind keeps_not_finished fun _ => keeps_bind (keeps_set_pending s false) fun _ => ?_
    exact keeps_bind (keeps_update s fun _ _ => rfl) fun _ => keeps_time_prioq_reshuffle s
  refine holds_public (fun y B W => ?_) hf
  split
  · exact keeps_fail _
  · refine keeps_ite (hset _ B W) (keeps_bind (keeps_now _) fun t => ?_)
    exact keeps_bind (keeps_check _ _) fun _ => hset _ B W

theorem holds_set_prepare (callback : Bool) :
    Holds (sd_event_source_set_prepare s callback) e (fun _ => Fine) (Unchanged e) := by
  refine holds_public (fun y _ _ => ?_) hf
  refine keeps_bind (keeps_check _ _) fun _ => keeps_bind keeps_not_finished fun _ => ?_
  refine keeps_ite (keeps_pure _) (keeps_bind (keeps_prioq_ensure_allocated _) fun _ => ?_)
  refine keeps_bind (keeps_update s fun _ _ => rfl) fun _ => keeps_ite (keeps_prioq_put _ s) ?_
  exact keeps_bind (keeps_prioq_remove _ s) fun _ => keeps_pure _

theorem holds_set_exit_on_failure (b : Bool) :
    Holds (sd_event_source_set_exit_on_failure s b) e (fun _ => Fine) (Unchanged e) := by
  refine holds_public (fun y _ _ => ?_) hf
  exact keeps_bind (keeps_check _ _) fun _ => keeps_update s fun _ _ => rfl

theorem holds_set_expire_callback (callback : Bool) :
    Holds (sd_event_source_set_ratelimit_expire_callback s callback) e (fun _ => Fine)
      (Unchanged e) := by
  exact holds_public (fun y _ _ => keeps_update s fun _ _ => rfl) hf

theorem holds_ref : Holds (sd_event_source_ref s) e (fun _ => Fine) (Unchanged e) := by
  refine holds_unchanged (fun _ _ => keeps_bind (keeps_source s) fun x => ?_) hf
  exact keeps_bind (keeps_assert _) fun _ => keeps_update s fun _ _ => rfl

theorem holds_exit : Holds sd_event_exit e (fun _ => Fine) (Unchanged e) := by
  exact holds_unchanged (fun _ _ => keeps_bind keeps_not_finished fun _ => keeps_modify fun _ h => h) hf

end

/-- Nothing is written but what is there. -/
theorem Info.same {i : Info} {r w : Bool} (hr : i.io_registered = r) (hw : i.io_watched = w) :
    { i with io_registered := r, io_watched := w } = i := by
  rw [← hr, ← hw]

variable {B : Books}

/-- An I/O source that is online is registered. -/
theorem Books.Ok.registered (h : B.Ok) (hs : s ∈ B.sources) (hio : (B.info s).type = .io)
    (hr : (B.info s).io_registered = true) :
    B.set s { B.info s with io_registered := true, io_watched := (B.info s).type == .io } = B ∧
      B.set s { B.info s with io_registered := true } = B := by
  obtain ⟨hr', hw⟩ := h.io s hs hio
  have hw' : (B.info s).io_watched = ((B.info s).type == .io) := by
    rw [hw, ← hr', hr, hio]
    rfl
  constructor
  · rw [same hr hw', set_self]
  · rw [same hr rfl, set_self]

theorem holds_set_io_events (hf : Fine e) (events : UInt32) :
    Holds (sd_event_source_set_io_events s events) e (fun _ => Fine) (Unchanged e) := by
  refine holds_bind (holds_public_source hf) ?_
  rintro x e1 ⟨rfl, rfl, hs⟩
  refine holds_check_bind hf.at fun htype => holds_check_bind hf.at fun _ => ?_
  have hio : (e1.source s).type = .io := by simpa using htype
  refine holds_bind (keeps_not_finished e1 hf.at) fun _ e2 h2 => ?_
  split
  · exact Unchanged.fine h2 hf
  refine holds_bind (keeps_set_pending s false e2 h2) fun _ e3 h3 => ?_
  refine holds_bind (R := fun _ => Unchanged e1) (holds_when (fun honline => ?_) fun _ => h3)
    fun _ e4 h4 => ?_
  · have hr : (e1.books.info s).io_registered = true := (hf.1.io s hs hio).1.trans honline
    refine holds_mono (holds_io_register h3 _ _) (fun _ e4 h4 => ?_) fun _ h => h
    rw [(hf.1.registered hs hio hr).1] at h4
    exact h4
  · exact fine_keeps' (fun _ _ => keeps_update s fun _ _ => rfl) (noerr_update s _)
      (Unchanged.fine h4 hf)

theorem holds_set_io_fd (hf : Fine e) (fd : Int) :
    Holds (sd_event_source_set_io_fd s fd) e (fun _ => Fine) (Unchanged e) := by
  refine holds_bind (holds_public_source hf) ?_
  rintro x e1 ⟨rfl, rfl, hs⟩
  refine holds_check_bind hf.at fun _ => holds_check_bind hf.at fun htype => ?_
  have hio : (e1.source s).type = .io := by simpa using htype
  split
  · exact hf
  refine holds_bind (keeps_update s (by exact fun _ _ => rfl) e1 hf.at) fun _ e2 h2 => ?_
  refine holds_assert_bind fun _ => holds_when (fun hreg => ?_) fun _ => Unchanged.fine h2 hf
  obtain ⟨hset, hback⟩ := hf.1.registered hs hio hreg
  -- for a moment it is not registered
  refine holds_bind (holds_update_at (fun i => { i with io_registered := false }) h2 fun _ _ => rfl)
    fun _ e3 h3 => ?_
  refine holds_cleanup (F := At (e1.books.set s { e1.books.info s with io_registered := false })
    e1.books.needs) ?_ fun e4 h4 => ?_
  · refine holds_mono (holds_io_register h3 _ _) (fun _ e4 h4 => ?_) fun _ h => h
    rw [Books.set_set, Books.set_info_self] at h4
    exact Unchanged.fine ((congrArg (fun B => At B e1.books.needs e4) hset).mp h4) hf
  · have hup := holds_update_at (s := s) (E := Unchanged e1)
      (f := fun y => { y with io_fd := (e1.source s).io_fd, io_registered := true })
      (fun i => { i with io_registered := true }) h4 fun _ _ => rfl
    rw [Books.set_set, Books.set_info_self] at hup
    refine holds_mono hup (fun _ e5 h5 => ?_) fun _ h => h
    exact (congrArg (fun B => At B e1.books.needs e5) hback).mp h5

theorem keeps_set_priority_inotify {W : Prop} (priority : Int) :
    Keeps (At B W) (set_priority_inotify s priority) := by
  refine keeps_bind (keeps_source s) fun x => ?_
  split
  · exact keeps_abort
  · refine keeps_bind (keeps_the_inode_data _ _) fun d => keeps_bind (keeps_check _ _) fun _ => ?_
    refine keeps_bind (keeps_make_inotify_data _) fun rm_inotify => ?_
    refine keeps_bind (keeps_cleanup ?_ (keeps_when (keeps_free_inotify_data _))) fun _ => ?_
    · refine keeps_bind (keeps_make_inode_data _ _) fun rm_inode => ?_
      exact keeps_cleanup (keeps_move_inotify_source _ _ _ _)
        (keeps_when (keeps_free_inode_data _ _))
    · exact keeps_bind (keeps_update s fun _ _ => rfl) fun _ => keeps_gc_inode_data _ _

variable {E : SdEvent → Prop}

/-- A signal that is watched for another priority as well stays watched. -/
theorem holds_unmask_but {W : Prop} {p : Int} {sig : Nat} (h : At B W e)
    (hbut : sig = SIGCHLD → e.sigchld_but p) :
    Holds (event_unmask_signal_data p sig) e (fun _ => At B W) E := by
  by_cases hsig : sig = SIGCHLD
  · have hb := hbut hsig
    refine holds_get_bind ?_
    split
    · exact h
    · split
      · exact h
      split
      · exact ⟨h.1, fun _ => (sigchld_but_set _ hb).sigchld⟩
      · exact ⟨h.1, fun _ => (sigchld_but_set _ hb).sigchld⟩
  · exact holds_keeps (keeps_unmask_signal_data p fun heq => absurd heq hsig)
      (noerr_unmask_signal_data p sig) h

/-- The signal is watched for the new priority before it is unmasked for the
    old one. -/
theorem holds_set_priority_signal (hf : Fine e) (hs : s ∈ e.sources)
    (hty : (e.source s).type = .signal) {priority : Int} (hne : (e.source s).priority ≠ priority) :
    Holds (set_priority_signal s priority) e (fun _ => Fine) (Unchanged e) := by
  refine holds_bind holds_source ?_
  rintro x e1 ⟨rfl, rfl⟩
  refine holds_get_bind (holds_assert_bind fun _ => ?_)
  refine holds_bind (R := fun _ e2 => Unchanged e1 e2 ∧ (e2.source s).priority = priority)
    (holds_update ⟨⟨books_set_source_same fun w => rfl, hf.2⟩, ?_⟩) ?_
  · unfold SdEvent.set_source
    simp
  rintro _ e2 ⟨h2, hp⟩
  -- where the signal is watched afterwards
  refine holds_bind (R := fun _ e3 => Unchanged e1 e3 ∧
    ((e1.source s).signal_sig = SIGCHLD → e3.sigchld_but (e1.source s).priority))
    (holds_cleanup (F := Unchanged e1) ?_ fun e3 h3 => keeps_update s (by exact fun _ _ => rfl) e3 h3) ?_
  · refine holds_bind (holds_make_signal_data _ h2) ?_
    rintro p e3 ⟨rfl, h3, d, hd, hmem⟩
    refine ⟨h3, fun hsig => ?_⟩
    rw [hsig] at hmem hd
    refine ⟨_, d, ?_, hd, hmem⟩
    have hpos : 0 < (e1.source s).signal_sig := by
      rw [hsig]
      decide
    have hmine : e2.signal_sources SIGCHLD = some s := by
      have hmine := hf.1.signal s hs hty hpos
      rw [← hsig]
      exact (congrFun (congrArg signal_sources h2.1) _).trans hmine
    unfold SdEvent.priority_of
    rw [hmine]
    dsimp only
    rw [hp]
    exact hne.symm
  · rintro _ e3 ⟨h3, hbut⟩
    exact holds_mono (holds_unmask_but h3 hbut) (fun _ _ h => Unchanged.fine h hf) fun _ h => h

theorem holds_not_finished (h : E e) : Holds not_finished e (fun _ e' => e' = e) E := by
  unfold not_finished check
  refine holds_get_bind ?_
  split
  · exact holds_pure rfl
  · exact holds_fail h

theorem holds_set_priority (hf : Fine e) (priority : Int) :
    Holds (sd_event_source_set_priority s priority) e (fun _ => Fine) (Unchanged e) := by
  refine holds_bind (holds_public_source hf) ?_
  rintro x e1 ⟨rfl, rfl, hs⟩
  refine holds_bind (holds_not_finished hf.at) ?_
  rintro _ e2 rfl
  split
  · exact hf
  next hne =>
  -- what follows in all three cases
  have hrest : ∀ e3, Fine e3 → Holds (do
      event_source_pp_prioq_reshuffle s
      when ((e2.source s).type == .exit) (prioq_reshuffle .exit s)) e3 (fun _ => Fine)
      (Unchanged e2) := fun e3 h3 =>
    fine_keeps' (fun _ _ => keeps_bind (keeps_pp_prioq_reshuffle s) fun _ =>
      keeps_when (keeps_prioq_reshuffle _ s)) (noerr_bind (noerr_pp_prioq_reshuffle s) fun _ =>
      noerr_when (noerr_prioq_reshuffle _ s)) h3
  split
  · exact holds_bind (holds_unchanged (fun _ _ => keeps_set_priority_inotify priority) hf)
      fun _ e3 h3 => hrest e3 h3
  split
  · next hsignal =>
    exact holds_bind (holds_set_priority_signal hf hs hsignal.1 hne) fun _ e3 h3 => hrest e3 h3
  · exact holds_bind (fine_keeps' (fun _ _ => keeps_update s fun _ _ => rfl) (noerr_update s _) hf)
      fun _ e3 h3 => hrest e3 h3

end change

/-! ## Section 4: Runs -/

/-- A call on an event loop. The last ones are those the loop itself makes
    while it dispatches: an event source enters or leaves its rate limit, it
    becomes pending or not, a callback of it runs or has returned, and it is
    freed if there is no reference to it any more. -/
inductive SourceCall where
  | add_io (fd : Int) (events : UInt32)
  | add_time (clock : Clock) (usec accuracy : Nat)
  | add_time_relative (clock : Clock) (usec accuracy : Nat)
  | add_signal (sig : Nat)
  | add_child (pid : Nat) (options : UInt32)
  | add_defer
  | add_post
  | add_exit
  | add_inotify (i : Inode) (mask : UInt32)
  | add_pressure (type : EventSourceType) (events : UInt32) (locked : Bool) (size : Nat)
  | set_enabled (s : SourceId) (enabled : Enabled)
  | set_priority (s : SourceId) (priority : Int)
  | set_io_fd (s : SourceId) (fd : Int)
  | set_io_events (s : SourceId) (events : UInt32)
  | set_time (s : SourceId) (usec : Nat)
  | set_time_relative (s : SourceId) (usec : Nat)
  | set_time_accuracy (s : SourceId) (usec : Nat)
  | set_prepare (s : SourceId) (callback : Bool)
  | set_exit_on_failure (s : SourceId) (b : Bool)
  | set_ratelimit (s : SourceId) (interval burst : Nat)
  | set_ratelimit_expire_callback (s : SourceId) (callback : Bool)
  | leave_ratelimit (s : SourceId)
  | ref (s : SourceId)
  | unref (s : SourceId)
  | exit
  | enter_ratelimited (s : SourceId)
  | ratelimit_expired (s : SourceId)
  | set_pending (s : SourceId) (b : Bool)
  | set_dispatching (s : SourceId) (b : Bool)
  | free (s : SourceId)

/-- What a call does. -/
def SourceCall.run : SourceCall → Call SdEvent PUnit
  | .add_io fd events => do let _ ← sd_event_add_io fd events
  | .add_time clock usec accuracy => do let _ ← sd_event_add_time clock usec accuracy
  | .add_time_relative clock usec accuracy => do
    let _ ← sd_event_add_time_relative clock usec accuracy
  | .add_signal sig => do let _ ← sd_event_add_signal sig
  | .add_child pid options => do let _ ← sd_event_add_child pid options
  | .add_defer => do let _ ← sd_event_add_defer
  | .add_post => do let _ ← sd_event_add_post
  | .add_exit => do let _ ← sd_event_add_exit
  | .add_inotify i mask => do let _ ← sd_event_add_inotify i mask
  | .add_pressure type events locked size => do
    let _ ← event_add_pressure type events locked size
  | .set_enabled s enabled => sd_event_source_set_enabled s enabled
  | .set_priority s priority => sd_event_source_set_priority s priority
  | .set_io_fd s fd => sd_event_source_set_io_fd s fd
  | .set_io_events s events => sd_event_source_set_io_events s events
  | .set_time s usec => sd_event_source_set_time s usec
  | .set_time_relative s usec => sd_event_source_set_time_relative s usec
  | .set_time_accuracy s usec => sd_event_source_set_time_accuracy s usec
  | .set_prepare s callback => sd_event_source_set_prepare s callback
  | .set_exit_on_failure s b => sd_event_source_set_exit_on_failure s b
  | .set_ratelimit s interval burst => sd_event_source_set_ratelimit s interval burst
  | .set_ratelimit_expire_callback s callback =>
    sd_event_source_set_ratelimit_expire_callback s callback
  | .leave_ratelimit s => sd_event_source_leave_ratelimit s
  | .ref s => sd_event_source_ref s
  | .unref s => sd_event_source_unref s
  | .exit => sd_event_exit
  | .enter_ratelimited s => event_source_enter_ratelimited s
  | .ratelimit_expired s => event_source_leave_ratelimit s
  | .set_pending s b => do let _ ← source_set_pending s b
  | .set_dispatching s b => update s fun x => { x with dispatching := b }
  | .free s => source_free s

/-- Rate limits are entered and left by event sources that are in the loop. -/
def SourceCall.Allowed (e : SdEvent) : SourceCall → Prop
  | .enter_ratelimited s => s ∈ e.sources
  | .ratelimit_expired s => s ∈ e.sources
  | _ => True

/-- The call turns an event source on or off, or changes its rate limit. -/
def SourceCall.switches : SourceCall → Bool
  | .set_enabled .. | .set_ratelimit .. | .leave_ratelimit .. | .enter_ratelimited ..
  | .ratelimit_expired .. => true
  | _ => false

/-- The calls on an event loop, in any order, and whatever fails in them. A
    failed assertion ends the program. -/
def source_system : System SdEvent SourceCall where
  init e := e = SdEvent.new
  step e c e' := c.Allowed e ∧ ∃ answers r,
    c.run { e with answers := answers } = (r, e') ∧ r ≠ .abort

/-- Where a call fails that switches an event source, nothing has changed. -/
def SourceCall.Failed (c : SourceCall) (e e' : SdEvent) : Prop :=
  c.switches = true → Unchanged e e'

section run
variable {e e' : SdEvent} {c : SourceCall}

/-- A call whose failure changes nothing. -/
theorem holds_of_unchanged {x : Call SdEvent PUnit} (hf : Fine e)
    (h : Holds x e (fun _ => Fine) (Unchanged e)) :
    Holds x e (fun _ => Fine) fun e' => Fine e' ∧ c.Failed e e' :=
  holds_mono h (fun _ _ h => h) fun _ h => ⟨h.fine hf, fun _ => h⟩

/-- One that switches nothing. -/
theorem holds_of_fine {α : Type} {x : Call SdEvent α} (hc : c.switches = false)
    (h : Holds x e (fun _ => Fine) Fine) :
    Holds (do let _ ← x) e (fun _ => Fine) fun e' => Fine e' ∧ c.Failed e e' := by
  refine holds_bind (holds_mono h (fun _ _ h => h) fun _ h => ⟨h, fun hs => ?_⟩) fun _ _ h => h
  rw [hc] at hs
  cases hs

/-- What a call leaves behind. -/
theorem SourceCall.holds_run (hf : Fine e) (ha : c.Allowed e) :
    Holds c.run e (fun _ => Fine) fun e' => Fine e' ∧ c.Failed e e' := by
  cases c with
  | add_io fd events => exact holds_of_fine rfl (fine_add_io hf fd events)
  | add_time clock usec accuracy => exact holds_of_fine rfl (fine_add_time hf clock usec accuracy)
  | add_time_relative clock usec accuracy =>
    exact holds_of_fine rfl (fine_add_time_relative hf clock usec accuracy)
  | add_signal sig => exact holds_of_fine rfl (fine_add_signal hf sig)
  | add_child pid options => exact holds_of_fine rfl (fine_add_child hf pid options)
  | add_defer => exact holds_of_fine rfl (fine_add_defer hf)
  | add_post => exact holds_of_fine rfl (fine_add_post hf)
  | add_exit => exact holds_of_fine rfl (fine_add_exit hf)
  | add_inotify i mask => exact holds_of_fine rfl (fine_add_inotify hf i mask)
  | add_pressure type events locked size =>
    exact holds_of_fine rfl (fine_add_pressure hf type events locked size)
  | set_enabled s enabled => exact holds_of_unchanged hf (holds_set_enabled hf enabled)
  | set_priority s priority => exact holds_of_unchanged hf (holds_set_priority hf priority)
  | set_io_fd s fd => exact holds_of_unchanged hf (holds_set_io_fd hf fd)
  | set_io_events s events => exact holds_of_unchanged hf (holds_set_io_events hf events)
  | set_time s usec => exact holds_of_unchanged hf (holds_set_time hf usec)
  | set_time_relative s usec => exact holds_of_unchanged hf (holds_set_time_relative hf usec)
  | set_time_accuracy s usec => exact holds_of_unchanged hf (holds_set_time_accuracy hf usec)
  | set_prepare s callback => exact holds_of_unchanged hf (holds_set_prepare hf callback)
  | set_exit_on_failure s b => exact holds_of_unchanged hf (holds_set_exit_on_failure hf b)
  | set_ratelimit s interval burst =>
    exact holds_of_unchanged hf (holds_set_ratelimit hf interval burst)
  | set_ratelimit_expire_callback s callback =>
    exact holds_of_unchanged hf (holds_set_expire_callback hf callback)
  | leave_ratelimit s => exact holds_of_unchanged hf (holds_public_leave_ratelimit hf)
  | ref s => exact holds_of_unchanged hf (holds_ref hf)
  | unref s => exact fine_unref hf
  | exit => exact holds_of_unchanged hf (holds_exit hf)
  | enter_ratelimited s => exact holds_of_unchanged hf (holds_enter_ratelimited hf ha)
  | ratelimit_expired s => exact holds_of_unchanged hf (holds_leave_ratelimit hf ha)
  | set_pending s b =>
    exact holds_of_unchanged hf (holds_unchanged (fun _ _ => keeps_bind (keeps_set_pending s b)
      fun _ => keeps_pure _) hf)
  | set_dispatching s b =>
    exact holds_of_unchanged hf (holds_unchanged (fun _ _ => keeps_update s fun _ _ => rfl) hf)
  | free s => exact fine_free hf

theorem fine_new : Fine SdEvent.new := by
  refine ⟨⟨⟨rfl, .nil, ?_, ?_, fun _ _ => rfl, ?_⟩, ?_, ?_, rfl⟩, ?_⟩
  · intro s hs
    cases hs
  · intro s
    exact iff_of_false Bool.false_ne_true not_mem_nil
  · intro s hs
    cases hs
  · intro s hs
    cases hs
  · intro s hs
    cases hs
  · rintro ⟨s, hs, _⟩
    cases hs

/-- The kernel's next answers do not matter. -/
theorem Fine.answers (hf : Fine e) (answers : List Answer) : Fine { e with answers := answers } := hf

/-- What a step keeps, and what it leaves where it fails. -/
theorem fine_step (hf : Fine e) (h : source_system.step e c e') : Fine e' := by
  obtain ⟨ha, answers, r, hr, hne⟩ := h
  have hrun := SourceCall.holds_run (c := c) (hf.answers answers) ha
  cases r with
  | ok => exact hrun.of_ok hr
  | err => exact (hrun.of_err hr).1
  | abort => exact absurd rfl hne

theorem fine_reachable (h : Reachable source_system e) : Fine e :=
  h.invariant (fun _ hi => hi ▸ fine_new) fun _ _ _ hf hstep => fine_step hf hstep

end run

/-- An event loop that waits for a child to be stopped. -/
def waiting : SdEvent := (SourceCall.run (.add_child 100 WSTOPPED) SdEvent.new).2

theorem waiting_reachable : Reachable source_system waiting :=
  .step (a := .add_child 100 WSTOPPED) (.init rfl) ⟨trivial, [], .ok ⟨⟩, rfl, by simp⟩

end SdCompat.Event
