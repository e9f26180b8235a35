import Mathlib.Data.Multiset.MapFold
import SdCompat.Basic.PrioqHeap
import SdCompat.SdEvent.Books

/-! # Rate limits and the queues of the clocks (sd-event.c)

    An event source that becomes rate limited moves from the queues of its own
    clock, if it is a timer, to those of the boottime clock, and later back
    again. Where that fails it is undone. Here a queue has the space that was
    allocated for it, and never loses it: this is why an event source can
    always be put back.
-/

namespace SdCompat

open Multiset Function Call Prod

/-! ## Section 1: Objects that know their places -/

namespace Prioq

section bears
variable {α : Type} {q q' : Prioq α α} {m : Multiset α} {a : α}

/-- The item of an object that has an index of its own. -/
def own (a : α) : PrioqItem α α := ⟨a, some a⟩

/-- These are the objects in the queue, and each knows its place. -/
structure Bears (q : Prioq α α) (m : Multiset α) : Prop where
  items : (q.items : Multiset (PrioqItem α α)) = m.map own
  indexed : q.Indexed

namespace Bears

theorem mem_items (h : Bears q m) {x : PrioqItem α α} (hx : x ∈ q.items) : ∃ b ∈ m, own b = x := by
  rwa [← mem_coe, h.items, mem_map] at hx

theorem unused (h : Bears q m) (ha : a ∉ m) : q.Unused a := by
  intro x hx hxa
  obtain ⟨b, hb, rfl⟩ := h.mem_items hx
  obtain rfl : b = a := Option.some.inj hxa
  exact ha hb

theorem not_mem (h : Bears q m) (ha : q.Unused a) : a ∉ m := by
  intro hm
  have hx : own a ∈ (q.items : Multiset (PrioqItem α α)) := by
    rw [h.items]
    exact mem_map_of_mem own hm
  exact ha (own a) hx rfl

theorem length (h : Bears q m) : q.items.length = m.card := by
  rw [← coe_card, h.items, card_map]

theorem shuffled (h : Bears q m) (hs : Shuffled q q') :
    Bears q' m ∧ ∀ b, b ∉ m → q'.mem b = q.mem b :=
  ⟨⟨by rw [← h.items, coe_eq_coe.mpr hs.perm], hs.indexed h.indexed⟩,
    fun b hb => hs.frame b (h.unused hb)⟩

/-- The indexes of other objects do not matter. -/
theorem of_mem (h : Bears q m) {mem : α → Option Nat} (hmem : ∀ b ∈ m, mem b = q.mem b) :
    Bears ⟨q.items, mem⟩ m := by
  refine ⟨h.items, ?_⟩
  intro i x p hx hxp
  obtain ⟨b, hb, rfl⟩ := h.mem_items (List.mem_of_getElem? hx)
  obtain rfl : b = p := Option.some.inj hxp
  exact (hmem b hb).trans (h.indexed i _ b hx hxp)

variable [DecidableEq α]

theorem put (h : Bears q m) (ha : a ∉ m) (cmp : α → α → Ordering) :
    Bears (q.put cmp a (some a)) (a ::ₘ m) ∧
      ∀ b, b ∉ a ::ₘ m → (q.put cmp a (some a)).mem b = q.mem b := by
  have hidx : ∀ p, some a = some p → q.Unused p := by
    intro p hp
    cases hp
    exact h.unused ha
  obtain ⟨r, hs, hitems, hindexed, hframe⟩ := put_shuffled cmp a hidx
  have hr : Bears r (a ::ₘ m) := by
    refine ⟨?_, hindexed h.indexed⟩
    rw [hitems, map_cons, ← h.items]
    exact coe_eq_coe.mpr (List.perm_append_singleton _ _)
  refine ⟨(hr.shuffled hs).1, ?_⟩
  intro b hb
  rw [(hr.shuffled hs).2 b hb]
  refine hframe b fun hab => ?_
  exact hb (Option.some.inj hab ▸ mem_cons_self a m)

theorem reshuffle (h : Bears q m) (cmp : α → α → Ordering) : Bears (q.reshuffle cmp a (some a)) m ∧
      ∀ b, b ∉ m → (q.reshuffle cmp a (some a)).mem b = q.mem b := by
  unfold Prioq.reshuffle
  split
  · exact ⟨h, fun _ _ => rfl⟩
  · exact h.shuffled (shuffle_shuffled cmp _ _)

/-- What is in the queue is found by its index. -/
theorem remove (h : Bears q (a ::ₘ m)) (cmp : α → α → Ordering) :
    (q.remove cmp a (some a)).2 = true ∧ Bears (q.remove cmp a (some a)).1 m ∧ a ∉ m ∧
      (q.remove cmp a (some a)).1.mem a = none ∧
      ∀ b, b ∉ a ::ₘ m → (q.remove cmp a (some a)).1.mem b = q.mem b := by
  have hx : own a ∈ (q.items : Multiset (PrioqItem α α)) := by
    rw [h.items]
    exact mem_map_of_mem own (mem_cons_self a m)
  obtain ⟨i, hi⟩ := List.mem_iff_getElem?.mp (mem_coe.mp hx)
  have hmem : q.mem a = some i := h.indexed i (own a) a hi rfl
  have hfind : q.find_item a (some a) = some i := by
    unfold find_item
    simp [hmem, hi, own]
  have hremoved : Removed q (own a) (q.remove_item cmp i) := remove_item_removed hi
  have hremove : q.remove cmp a (some a) = (q.remove_item cmp i, true) := by
    unfold Prioq.remove
    rw [hfind]
  rw [hremove]
  have hr : Bears (q.remove_item cmp i) m := by
    refine ⟨?_, hremoved.indexed h.indexed⟩
    have hperm := coe_eq_coe.mpr hremoved.perm
    rw [h.items, map_cons] at hperm
    exact (cons_inj_right _).mp hperm
  refine ⟨rfl, hr, hr.not_mem (hremoved.unused h.indexed rfl), ?_, ?_⟩
  · exact hremoved.cleared h.indexed a rfl
  · intro b hb
    exact hremoved.frame b (h.unused hb)

end Bears

end bears

end Prioq

namespace Event

open Call

/-! ## Section 2: Queues with space -/

/-- The event loop, with the number of items for which each queue has space. -/
structure Loop where
  event : SdEvent
  n_allocated : Queue → Nat

/-- A part of a call that puts nothing into a queue. -/
def on_event {α : Type} (x : Call SdEvent α) : Call Loop α := fun l =>
  ((x l.event).1, { l with event := (x l.event).2 })

/-- `assert_se` that a call does not fail. -/
def assert_se {σ : Type} (x : Call σ PUnit) : Call σ PUnit := fun s =>
  match x s with
  | (.ok a, s') => (.ok a, s')
  | (_, s') => (.abort, s')

/-- How much space `prioq_put` asks for, with this many items in the queue. -/
def space_for (n : Nat) : Nat := max (n + 1) 16

namespace Loop

/-- `prioq_put`, which allocates only where there is not enough space. -/
def prioq_put (q : Queue) (s : SourceId) : Call Loop PUnit := do
  let l ← get
  let need := space_for (l.event.queue q).length
  when (l.n_allocated q < need) do
    on_event alloc
    modify fun l =>
      { l with n_allocated := fun r => if r = q then 2 * need else l.n_allocated r }
  modify fun l =>
    { l with event := l.event.set_prioq q ((l.event.prioq q).put (l.event.compare q) s (some s)) }

/-- `event_source_time_prioq_put` -/
def event_source_time_prioq_put (s : SourceId) (c : Clock) : Call Loop PUnit := do
  let x ← on_event (source s)
  assert x.type.can_rate_limit
  prioq_put (.earliest c) s
  cleanup (prioq_put (.latest c) s) <| on_event do
    let found ← prioq_remove (.earliest c) s
    assert found
    modify fun e =>
      { e with index := fun i =>
          if i = .earliest_index then Prioq.set_idx (some s) none (e.index i) else e.index i }
  on_event (update_clock c fun d => { d with needs_rearm := true })

/-- What is only done for timers, with their own clock. -/
def if_time (x : Source) (f : Clock → Call Loop PUnit) : Call Loop PUnit :=
  match x.type.clock with
  | some c => f c
  | none => pure ⟨⟩

/-- `event_source_enter_ratelimited` -/
def event_source_enter_ratelimited (s : SourceId) : Call Loop PUnit := do
  let x ← on_event (source s)
  if x.ratelimited then pure ⟨⟩
  else do
    on_event (setup_clock_data .boottime)
    if_time x fun c => on_event (event_source_time_prioq_remove s c)
    cleanup (do
      event_source_time_prioq_put s .boottime
      cleanup (on_event (event_source_offline s x.enabled true))
        (on_event (event_source_time_prioq_remove s .boottime)))
      (if_time x fun c => assert_se (event_source_time_prioq_put s c))
    on_event (event_source_pp_prioq_reshuffle s)

/-- `event_source_leave_ratelimit`, up to the callback. -/
def event_source_leave_ratelimit (s : SourceId) : Call Loop PUnit := do
  let x ← on_event (source s)
  if !x.ratelimited then pure ⟨⟩
  else do
    on_event (event_source_time_prioq_remove s .boottime)
    cleanup (do
      if_time x fun c => event_source_time_prioq_put s c
      cleanup (on_event (event_source_online s x.enabled false))
        (if_time x fun c => on_event (event_source_time_prioq_remove s c)))
      (assert_se (event_source_time_prioq_put s .boottime))
    on_event (event_source_pp_prioq_reshuffle s)
    on_event (update s fun x => { x with rate_limit := ratelimit_reset x.rate_limit })

end Loop

/-! ## Section 3: Where event sources are -/

/-- The clock of a queue. -/
def Queue.clock : Queue → Option Clock
  | .earliest c | .latest c => some c
  | _ => none

/-- The clock in whose queues an event source belongs. -/
def Source.queue_clock (x : Source) : Option Clock :=
  if x.allocated && x.connected then x.time_clock else none

/-- Every event source is once in each of the two queues of the clock it
    belongs to, and knows its places; it is in no other queue of a clock, and
    one that belongs to none has no place. What a queue has, there was space
    for. -/
structure InOrder (l : Loop) : Prop where
  queued : ∀ (q : Queue) (c : Clock), q.clock = some c → ∀ x, x ∈ l.event.queue q ↔
    x.idx = some x.data ∧ (l.event.source x.data).queue_clock = some c
  indexed : ∀ q : Queue, q.clock.isSome → (l.event.prioq q).Indexed
  unqueued : ∀ (q : Queue) (t : SourceId), q.clock.isSome →
    (l.event.source t).queue_clock = none → l.event.index q.index t = none
  space : ∀ q : Queue, q.clock.isSome → l.event.queue q ≠ [] →
    max (l.event.queue q).length 16 ≤ l.n_allocated q

/-- These event sources are in the queues of the clocks. -/
structure Placed (M : Queue → Multiset SourceId)
    (queue : Queue → List (PrioqItem SourceId SourceId))
    (index : QueueIndex → SourceId → Option Nat) : Prop where
  bears : ∀ q : Queue, q.clock.isSome →
    (⟨queue q, index q.index⟩ : Prioq SourceId SourceId).Bears (M q)
  apart : ∀ (q r : Queue) (t : SourceId), q.clock.isSome → r.clock.isSome → q.index = r.index →
    t ∈ M q → t ∈ M r → q = r
  unqueued : ∀ (q : Queue) (t : SourceId), q.clock.isSome →
    (∀ r : Queue, r.clock.isSome → r.index = q.index → t ∉ M r) → index q.index t = none

section placed
variable {M : Queue → Multiset SourceId} {queue : Queue → List (PrioqItem SourceId SourceId)}
  {index : QueueIndex → SourceId → Option Nat} {q : Queue} {s : SourceId}

/-- One queue changes. Its index is shared with those of the other clocks. -/
theorem Placed.set (h : Placed M queue index) (hq : q.clock.isSome) {p : Prioq SourceId SourceId}
    {m : Multiset SourceId} (hp : p.Bears m)
    (hnew : ∀ t ∈ m, t ∈ M q ∨ ∀ r : Queue, r.clock.isSome → r.index = q.index → t ∉ M r)
    (hframe : ∀ t, t ∉ M q → t ∉ m → p.mem t = index q.index t)
    (hgone : ∀ t ∈ M q, t ∉ m → p.mem t = none) :
    Placed (Function.update M q m) (fun r => if r = q then p.items else queue r)
      fun i => if i = q.index then p.mem else index i := by
  -- the other queues with this index have other event sources
  have hother : ∀ r : Queue, r ≠ q → r.clock.isSome → r.index = q.index → ∀ t ∈ M r,
      t ∉ M q ∧ t ∉ m := by
    intro r hne hr hi t ht
    have hout : t ∉ M q := fun htq => hne (h.apart r q t hr hq hi ht htq)
    exact ⟨hout, fun htm => (hnew t htm).elim hout fun hn => hn r hr hi ht⟩
  constructor
  · intro r hr
    by_cases hrq : r = q
    · subst hrq
      simpa using hp
    · simp only [update_of_ne hrq, if_neg hrq]
      refine (h.bears r hr).of_mem fun b hb => ?_
      split
      · next hi =>
        obtain ⟨hbq, hbm⟩ := hother r hrq hr hi b hb
        rw [hframe b hbq hbm, hi]
      · rfl
  · intro r r' t hr hr' hi ht ht'
    by_cases hrq : r = q
    · by_cases hrq' : r' = q
      · rw [hrq, hrq']
      · subst hrq
        rw [update_self] at ht
        rw [update_of_ne hrq'] at ht'
        exact absurd ht (hother r' hrq' hr' hi.symm t ht').2
    · rw [update_of_ne hrq] at ht
      by_cases hrq' : r' = q
      · subst hrq'
        rw [update_self] at ht'
        exact absurd ht' (hother r hrq hr hi t ht).2
      · rw [update_of_ne hrq'] at ht'
        exact h.apart r r' t hr hr' hi ht ht'
  · intro r t hr ht
    split
    · next hi =>
      have htm : t ∉ m := by simpa using ht q hq hi.symm
      by_cases htq : t ∈ M q
      · exact hgone t htq htm
      · rw [hframe t htq htm]
        refine h.unqueued q t hq fun r' hr' hi' => ?_
        by_cases hrq' : r' = q
        · rwa [hrq']
        · simpa [update_of_ne hrq'] using ht r' hr' (hi'.trans hi.symm)
    · next hi =>
      refine h.unqueued r t hr fun r' hr' hi' => ?_
      have hrq' : r' ≠ q := fun heq => hi (heq ▸ hi'.symm)
      simpa [update_of_ne hrq'] using ht r' hr' hi'

/-- An event source that is in no queue is told so again. -/
theorem Placed.clear {index' : QueueIndex → SourceId → Option Nat} (h : Placed M queue index)
    (hs : ∀ q : Queue, q.clock.isSome → s ∉ M q)
    (hi : ∀ i t, index' i t = index i t ∨ t = s ∧ index' i t = none) : Placed M queue index' := by
  refine ⟨?_, h.apart, ?_⟩
  · intro q hq
    refine (h.bears q hq).of_mem fun b hb => (hi _ b).elim id fun hb' => ?_
    exact absurd (hb'.1 ▸ hb) (hs q hq)
  · intro q t hq ht
    exact (hi q.index t).elim (fun h' => h'.trans (h.unqueued q t hq ht)) fun h' => h'.2

/-- Another queue is none of theirs. -/
theorem Placed.other (h : Placed M queue index) (hq : q.clock = none)
    (p : Prioq SourceId SourceId) : Placed M (fun r => if r = q then p.items else queue r)
      fun i => if i = q.index then p.mem else index i := by
  have hne : ∀ r : Queue, r.clock.isSome → r ≠ q ∧ r.index ≠ q.index := by
    intro r hr
    cases r <;> cases q <;> simp_all [Queue.clock, Queue.index]
  refine ⟨?_, h.apart, ?_⟩
  · intro r hr
    simpa only [if_neg (hne r hr).1, if_neg (hne r hr).2] using h.bears r hr
  · intro r t hr ht
    simpa only [if_neg (hne r hr).2] using h.unqueued r t hr ht

end placed

/-! ## Section 4: What leaves event sources where they are -/

/-- What of an event source decides where it belongs. -/
abbrev Kind : Type := Bool × Bool × EventSourceType × Enabled × Bool

def Source.kind (x : Source) : Kind := (x.allocated, x.connected, x.type, x.enabled, x.ratelimited)

/-- These event sources are in the queues, and they are of these kinds. -/
def Lies (M : Queue → Multiset SourceId) (K : SourceId → Kind) (e : SdEvent) : Prop :=
  Placed M e.queue e.index ∧ ∀ t, (e.source t).kind = K t

section frame
variable {M : Queue → Multiset SourceId} {K : SourceId → Kind} {s : SourceId}

theorem lies_ask : Keeps (Lies M K) ask := by
  intro e h
  refine holds_mono holds_ask ?_ fun _ h => h
  rintro a e' ⟨answers, rfl⟩
  exact h

theorem lies_syscall : Keeps (Lies M K) syscall := by
  refine keeps_bind lies_ask fun a => ?_
  split
  · exact keeps_fail _
  · exact keeps_pure _

theorem lies_alloc : Keeps (Lies M K) alloc := by
  refine keeps_bind lies_ask fun a => ?_
  split
  · exact keeps_fail _
  · exact keeps_pure _

theorem lies_source (s : SourceId) : Keeps (Lies M K) (source s) := by
  exact keeps_bind keeps_get fun e => keeps_bind (keeps_assert _) fun _ => keeps_pure _

/-- An event source that is of another kind now. -/
theorem Lies.set_source {e : SdEvent} (h : Lies M K e) (x : Source) :
    Lies M (fun t => if t = s then x.kind else K t) (e.set_source s x) := by
  refine ⟨h.1, fun t => ?_⟩
  show (if t = s then x else e.source t).kind = if t = s then x.kind else K t
  split
  · rfl
  · exact h.2 t

theorem lies_update {f : Source → Source} (s : SourceId) (hf : ∀ x, (f x).kind = x.kind) :
    Keeps (Lies M K) (update s f) := by
  intro e h
  refine holds_update ⟨h.1, fun t => ((h.set_source _).2 t).trans ?_⟩
  show (if t = s then _ else _) = _
  split
  · next ht => rw [hf, ht, h.2]
  · rfl

theorem lies_update_clock (c : Clock) (f : ClockData → ClockData) :
    Keeps (Lies M K) (update_clock c f) := by
  exact keeps_modify fun _ h => h

theorem lies_prioq_reshuffle (q : Queue) (s : SourceId) :
    Keeps (Lies M K) (prioq_reshuffle q s) := by
  refine keeps_modify fun e h => ⟨?_, h.2⟩
  cases hq : q.clock with
  | none => exact h.1.other hq _
  | some c =>
    have hsome : q.clock.isSome := by rw [hq]; rfl
    obtain ⟨hbears, hmem⟩ := (h.1.bears q hsome).reshuffle (e.compare q) (a := s)
    have hset := h.1.set hsome hbears (fun t ht => .inl ht) (fun t ht _ => hmem t ht)
      fun t ht hn => absurd ht hn
    rwa [update_eq_self] at hset

theorem lies_pp_prioq_reshuffle (s : SourceId) :
    Keeps (Lies M K) (event_source_pp_prioq_reshuffle s) := by
  refine keeps_bind (lies_source s) fun x => ?_
  exact keeps_bind (keeps_when (lies_prioq_reshuffle _ _)) fun _ =>
    keeps_when (lies_prioq_reshuffle _ _)

theorem lies_time_prioq_reshuffle (s : SourceId) :
    Keeps (Lies M K) (event_source_time_prioq_reshuffle s) := by
  refine keeps_bind (lies_source s) fun x => ?_
  split
  · exact keeps_pure _
  · exact keeps_bind (lies_prioq_reshuffle _ _) fun _ =>
      keeps_bind (lies_prioq_reshuffle _ _) fun _ => lies_update_clock _ _

theorem lies_prioq_ensure_allocated (q : Queue) : Keeps (Lies M K) (prioq_ensure_allocated q) := by
  refine keeps_bind keeps_get fun e => keeps_ite (keeps_pure _) ?_
  exact keeps_bind lies_alloc fun _ => keeps_modify fun _ h => h

theorem lies_setup_clock_data (c : Clock) : Keeps (Lies M K) (setup_clock_data c) := by
  refine keeps_bind keeps_get fun e => keeps_bind (keeps_when ?_) fun _ => ?_
  · exact keeps_bind lies_syscall fun _ => keeps_bind lies_syscall fun _ => lies_update_clock _ _
  · exact keeps_bind (lies_prioq_ensure_allocated _) fun _ => lies_prioq_ensure_allocated _

/-! ### What epoll watches -/

theorem lies_epoll_ctl_set (s : SourceId) (events : UInt32) :
    Keeps (Lies M K) (epoll_ctl_set s events) := by
  exact keeps_bind lies_syscall fun _ => keeps_modify fun _ h => h

theorem lies_epoll_ctl_del (s : SourceId) : Keeps (Lies M K) (epoll_ctl_del s) := by
  exact keeps_modify fun _ h => h

theorem lies_io_unregister (s : SourceId) : Keeps (Lies M K) (source_io_unregister s) := by
  refine keeps_bind (lies_source s) fun x => keeps_when ?_
  exact keeps_bind (lies_epoll_ctl_del s) fun _ => lies_update s fun _ => rfl

theorem lies_pressure_unregister (s : SourceId) :
    Keeps (Lies M K) (source_pressure_unregister s) := by
  refine keeps_bind (lies_source s) fun x => keeps_when ?_
  exact keeps_bind (lies_epoll_ctl_del s) fun _ => lies_update s fun _ => rfl

theorem lies_io_register (s : SourceId) (enabled : Enabled) (events : UInt32) :
    Keeps (Lies M K) (source_io_register s enabled events) := by
  exact keeps_bind (lies_epoll_ctl_set s _) fun _ => lies_update s fun _ => rfl

theorem lies_pressure_register (s : SourceId) (enabled : Enabled) :
    Keeps (Lies M K) (source_pressure_register s enabled) := by
  refine keeps_bind (lies_source s) fun x => ?_
  exact keeps_bind (lies_epoll_ctl_set s _) fun _ => lies_update s fun _ => rfl

/-! ### Signals -/

theorem lies_set_signal_data (p : Int) (d : Option SignalData) :
    Keeps (Lies M K) (set_signal_data p d) := by
  exact keeps_modify fun _ h => h

theorem lies_make_signal_data (sig : Nat) : Keeps (Lies M K) (event_make_signal_data sig) := by
  refine keeps_bind (keeps_bind keeps_get fun e => ?_) fun p => keeps_bind keeps_get fun e => ?_
  · split
    · exact keeps_bind (lies_source _) fun _ => keeps_pure _
    · exact keeps_pure _
  split
  · refine keeps_ite (keeps_pure _) (keeps_bind lies_syscall fun _ => ?_)
    exact keeps_bind (lies_set_signal_data _ _) fun _ => keeps_pure _
  · refine keeps_bind lies_alloc fun _ => keeps_bind (lies_set_signal_data _ _) fun _ => ?_
    refine keeps_bind (keeps_cleanup ?_ (lies_set_signal_data _ _)) fun _ => keeps_pure _
    exact keeps_bind lies_syscall fun _ => keeps_bind (lies_set_signal_data _ _) fun _ =>
      lies_syscall

theorem lies_unmask_signal_data (p : Int) (sig : Nat) :
    Keeps (Lies M K) (event_unmask_signal_data p sig) := by
  refine keeps_bind keeps_get fun e => ?_
  split
  · exact keeps_pure _
  · refine keeps_ite (keeps_pure _) (keeps_ite ?_ ?_)
    · exact lies_set_signal_data _ _
    · exact lies_set_signal_data _ _

theorem lies_gc_signal_data (p : Int) (sig : Nat) :
    Keeps (Lies M K) (event_gc_signal_data p sig) := by
  refine keeps_bind (keeps_bind keeps_get fun e => keeps_ite (keeps_pure _) ?_) fun b => ?_
  · split
    · exact keeps_bind (lies_source _) fun _ => keeps_pure _
    · exact keeps_pure _
  refine keeps_ite (keeps_pure _) ?_
  refine keeps_bind (lies_unmask_signal_data p sig) fun _ => keeps_bind keeps_get fun e => ?_
  split
  · refine keeps_bind (lies_source _) fun x => ?_
    exact keeps_bind (lies_unmask_signal_data _ _) fun _ => lies_unmask_signal_data _ _
  · exact lies_unmask_signal_data _ _

/-! ### On and off -/

theorem lies_offline_type {x : Source} (hcan : x.type.can_rate_limit = true) :
    Keeps (Lies M K) (event_source_offline_type s x) ∧ NoErr (event_source_offline_type s x) := by
  have hunwatch : ∀ f : Source → Source, NoErr (do epoll_ctl_del s; update s f) :=
    fun f => noerr_bind (noerr_modify _) fun _ => noerr_update s f
  unfold event_source_offline_type
  split
  · exact ⟨lies_io_unregister s, noerr_bind (noerr_source s) fun _ => noerr_when (hunwatch _)⟩
  · exact ⟨lies_gc_signal_data _ _, noerr_gc_signal_data _ _⟩
  · next htype =>
    rw [htype] at hcan
    cases hcan
  · next htype =>
    rw [htype] at hcan
    cases hcan
  · exact ⟨lies_pressure_unregister s, noerr_bind (noerr_source s) fun _ => noerr_when (hunwatch _)⟩
  · exact ⟨lies_pressure_unregister s, noerr_bind (noerr_source s) fun _ => noerr_when (hunwatch _)⟩
  · exact ⟨lies_pressure_unregister s, noerr_bind (noerr_source s) fun _ => noerr_when (hunwatch _)⟩
  · exact ⟨keeps_pure _, noerr_pure _⟩
  · exact ⟨keeps_pure _, noerr_pure _⟩
  · exact ⟨keeps_pure _, noerr_pure _⟩
  · exact ⟨keeps_pure _, noerr_pure _⟩

variable {e : SdEvent} {a c : Bool} {type : EventSourceType} {enabled : Enabled} {limited : Bool}

/-- The event source is rate limited now, or is no longer. -/
theorem lies_set_limited (h : Lies M K e) (hs : K s = (a, c, type, enabled, limited)) (b : Bool)
    {E : SdEvent → Prop} :
    Holds (update s fun x => { x with enabled := enabled, ratelimited := b }) e
      (fun _ => Lies M fun t => if t = s then (a, c, type, enabled, b) else K t) E := by
  have hkind := (h.2 s).trans hs
  simp only [Source.kind, mk.injEq] at hkind
  have hset := h.set_source (s := s)
    { e.source s with enabled := enabled, ratelimited := b }
  rw [Source.kind, hkind.1, hkind.2.1, hkind.2.2.1] at hset
  exact holds_update hset

/-- Going offline for a rate limit does not fail. -/
theorem lies_offline (h : Lies M K e) (hs : K s = (a, c, type, enabled, limited))
    (hcan : type.can_rate_limit = true) : Holds (event_source_offline s enabled true) e
      (fun _ => Lies M fun t => if t = s then (a, c, type, enabled, true) else K t)
      fun _ => False := by
  refine holds_bind holds_source ?_
  rintro x e' ⟨rfl, rfl⟩
  have hkind := (h.2 s).trans hs
  obtain ⟨rfl, rfl, rfl, rfl, rfl⟩ := hkind
  refine holds_assert_bind fun _ => holds_bind (R := fun _ => Lies M K) ?_ fun _ e1 h1 => ?_
  · -- it is enabled as before
    refine holds_when (fun hb => absurd hb ?_) fun _ => h
    cases (e'.source s).enabled <;> simp
  refine holds_bind (lies_set_limited h1 hs true) fun _ e2 h2 => ?_
  obtain ⟨hkeeps, hnoerr⟩ := lies_offline_type (M := M) (s := s) hcan
  refine holds_bind (holds_keeps hkeeps hnoerr h2) fun _ e3 h3 => ?_
  exact holds_keeps (lies_time_prioq_reshuffle s) (noerr_time_prioq_reshuffle s) h3

theorem lies_online_type (hs : K s = (a, c, type, enabled, limited))
    (hcan : type.can_rate_limit = true) : Keeps (Lies M K) (event_source_online_type s enabled) := by
  intro e h
  refine holds_bind holds_source ?_
  rintro x e' ⟨rfl, rfl⟩
  have hkind := (h.2 s).trans hs
  simp only [Source.kind, mk.injEq] at hkind
  split
  · exact lies_io_register s _ _ e' h
  · exact keeps_cleanup (keeps_bind (lies_make_signal_data _) fun _ => keeps_pure _)
      (lies_gc_signal_data _ _) e' h
  · next htype =>
    rw [← hkind.2.2.1, htype] at hcan
    cases hcan
  · exact keeps_when (lies_pressure_register s _) e' h
  · exact keeps_when (lies_pressure_register s _) e' h
  · exact keeps_when (lies_pressure_register s _) e' h
  · exact h
  · exact h
  · exact h
  · exact h
  · exact h

/-- Going online may fail, and the event source is rate limited then as it was. -/
theorem lies_online (h : Lies M K e) (hs : K s = (a, c, type, enabled, limited))
    (hcan : type.can_rate_limit = true) : Holds (event_source_online s enabled false) e
      (fun _ => Lies M fun t => if t = s then (a, c, type, enabled, false) else K t)
      (Lies M K) := by
  refine holds_bind holds_source ?_
  rintro x e' ⟨rfl, rfl⟩
  have hkind := (h.2 s).trans hs
  simp only [Source.kind, mk.injEq] at hkind
  refine holds_assert_bind fun _ => holds_bind (R := fun _ => Lies M K) ?_ fun _ e1 h1 => ?_
  · refine holds_when (fun hb => absurd hb ?_) fun _ => h
    rw [hkind.2.2.2.1]
    cases enabled <;> simp
  split
  · exact lies_set_limited h1 hs false
  refine holds_bind (lies_online_type hs hcan e1 h1) fun _ e2 h2 => ?_
  refine holds_bind (lies_set_limited h2 hs false) fun _ e3 h3 => ?_
  refine holds_bind (holds_when (Q := fun _ => Lies M _) (fun _ => ?_) fun _ => h3) fun _ e4 h4 => ?_
  · exact holds_keeps (lies_prioq_reshuffle _ _) (noerr_prioq_reshuffle _ _) h3
  · exact holds_keeps (lies_time_prioq_reshuffle s) (noerr_time_prioq_reshuffle s) h4

end frame

/-! ## Section 5: Moving an event source -/

/-- The event source is in the queues of this clock, if any, besides the others. -/
def joined (M : Queue → Multiset SourceId) (s : SourceId) (c : Option Clock) :
    Queue → Multiset SourceId :=
  fun q => if q.clock.isSome ∧ q.clock = c then s ::ₘ M q else M q

/-- The queues have these event sources, and the space for them. They had
    space for this many, and still have. -/
structure Fits (M : Queue → Multiset SourceId) (K : SourceId → Kind) (n : Queue → Nat) (l : Loop) :
    Prop where
  lies : Lies M K l.event
  space : ∀ q : Queue, q.clock.isSome → M q ≠ 0 → max (M q).card 16 ≤ l.n_allocated q
  le : ∀ q, n q ≤ l.n_allocated q

section move
variable {M N : Queue → Multiset SourceId} {K K' : SourceId → Kind} {n : Queue → Nat} {l : Loop}
  {s : SourceId} {q : Queue} {c : Clock}

theorem joined_none : joined M s none = M := by
  funext q
  cases q <;> simp [joined, Queue.clock]

theorem joined_some : joined M s (some c) =
    Function.update (Function.update M (.earliest c) (s ::ₘ M (.earliest c)))
      (.latest c) (s ::ₘ M (.latest c)) := by
  funext q
  cases q <;> simp [joined, Queue.clock] <;> grind

theorem le_joined (d : Option Clock) (q : Queue) : M q ≤ joined M s d q := by
  unfold joined
  split
  · exact le_cons_self _ _
  · exact le_rfl

variable {e : SdEvent}

/-- Fewer event sources have the space. -/
theorem Fits.of_le (h : Fits N K n l) (hle : ∀ q, M q ≤ N q) (he : Lies M K' e) :
    Fits M K' n { l with event := e } := by
  refine ⟨he, fun q hq hne => ?_, h.le⟩
  have hN : N q ≠ 0 := fun h0 => hne (le_zero.mp (h0 ▸ hle q))
  have hcard := card_le_card (hle q)
  have hspace := h.space q hq hN
  show max (M q).card 16 ≤ l.n_allocated q
  omega

variable {F : Loop → Prop}

variable {E : SdEvent → Prop}

/-- A part that only takes event sources out. -/
theorem fits_on_event {α : Type} {x : Call SdEvent α} {A : Prop} (h : Fits N K n l)
    (hle : ∀ q, M q ≤ N q) (hx : Ends x l.event (fun _ => Lies M K') E A)
    (hE : ∀ e, E e → F ⟨e, l.n_allocated⟩) : Ends (on_event x) l (fun _ => Fits M K' n) F A := by
  unfold Ends on_event at *
  match hr : x l.event with
  | (.ok a, e) =>
    rw [hr] at hx
    exact h.of_le hle hx
  | (.err _, e) =>
    rw [hr] at hx
    exact hE e hx
  | (.abort, _) =>
    rw [hr] at hx
    exact hx

/-- What is in a queue is taken out. -/
theorem lies_remove (h : Lies M K e) (hq : q.clock.isSome) {m : Multiset SourceId}
    (hm : M q = s ::ₘ m) :
    Ensures (prioq_remove q s) e (fun b => fun e' => b = true ∧ Lies (Function.update M q m) K e')
      fun _ => False := by
  have hbears := h.1.bears q hq
  rw [hm] at hbears
  obtain ⟨hfound, hleft, hout, hnone, hframe⟩ := hbears.remove (e.compare q)
  refine ensures_get_bind (ensures_get_bind (ensures_modify_bind (ensures_pure ⟨hfound, ?_, h.2⟩)))
  refine h.1.set hq hleft (fun t ht => .inl (by simp [hm, ht])) ?_ ?_
  · intro t ht _
    exact hframe t (hm ▸ ht)
  · intro t ht hn
    obtain rfl : t = s := by simpa [hm, hn] using ht
    exact hnone

theorem cleared_index {index : QueueIndex → SourceId → Option Nat} (p : QueueIndex → Prop)
    [DecidablePred p] (i : QueueIndex) (t : SourceId) :
    (if p i then Prioq.set_idx (some s) none (index i) else index i) t = index i t ∨
      t = s ∧ (if p i then Prioq.set_idx (some s) none (index i) else index i) t = none := by
  split
  · unfold Prioq.set_idx
    split
    · next ht => exact .inr ⟨(Option.some.inj ht).symm, rfl⟩
    · exact .inl rfl
  · exact .inl rfl

/-- An event source is taken out of the queues of its clock. -/
theorem lies_time_remove (h : Lies (joined M s (some c)) K e)
    (hM : ∀ q : Queue, q.clock.isSome → s ∉ M q) :
    Ensures (event_source_time_prioq_remove s c) e (fun _ => Lies M K) fun _ => False := by
  rw [joined_some] at h
  refine ensures_bind (lies_remove h (q := .earliest c) rfl (m := M (.earliest c)) (by simp)) ?_
  rintro _ e1 ⟨-, h1⟩
  refine ensures_bind (lies_remove h1 (q := .latest c) rfl (m := M (.latest c)) (by simp)) ?_
  rintro _ e2 ⟨-, h2⟩
  have hlies : Lies M K e2 := by
    convert h2 using 1
    funext q
    simp only [update_apply]
    split
    · next hq => rw [hq]
    · split
      · next hq => rw [hq]
      · rfl
  refine ensures_modify_bind (ensures_modify ⟨hlies.1.clear (s := s) hM fun i t => ?_, hlies.2⟩)
  exact cleared_index (fun i => i = .earliest_index ∨ i = .latest_index) i t

theorem ensures_alloc (h : Lies M K e) : Ensures alloc e (fun _ => Lies M K) (Lies M K) := by
  refine ensures_bind (R := fun _ => Lies M K) ?_ fun a e' h' => ?_
  · unfold Ensures ask
    cases e.answers with
    | nil => exact h
    | cons a answers => exact h
  · split
    · exact h'
    · exact h'

/-- An event source is put in a queue, unless there is no space for it. -/
theorem fits_prioq_put (h : Fits M K n l) (hq : q.clock.isSome)
    (hs : ∀ r : Queue, r.clock.isSome → r.index = q.index → s ∉ M r) :
    Ensures (Loop.prioq_put q s) l (fun _ => Fits (Function.update M q (s ::ₘ M q)) K n)
      fun l' => Fits M K n l' ∧ n q < space_for (M q).card := by
  have hbears := h.lies.1.bears q hq
  have hlen : (l.event.queue q).length = (M q).card := hbears.length
  -- the end of the call, where there is enough space
  have hend : ∀ l' : Loop, Lies M K l'.event → (∀ r, l.n_allocated r ≤ l'.n_allocated r) →
      space_for (M q).card ≤ l'.n_allocated q → Fits (Function.update M q (s ::ₘ M q)) K n
        ⟨l'.event.set_prioq q ((l'.event.prioq q).put (l'.event.compare q) s (some s)),
          l'.n_allocated⟩ := by
    intro l' hl' hle hspace
    obtain ⟨hput, hframe⟩ := (hl'.1.bears q hq).put (hs q hq rfl) (l'.event.compare q)
    refine ⟨⟨hl'.1.set hq hput ?_ ?_ ?_, hl'.2⟩, ?_, fun r => (h.le r).trans (hle r)⟩
    · intro t ht
      exact (mem_cons.mp ht).elim (fun hts => .inr (hts ▸ hs)) .inl
    · intro t _ ht
      exact hframe t ht
    · intro t ht hn
      exact absurd (mem_cons_of_mem ht) hn
    · intro r hr hne
      by_cases hrq : r = q
      · subst hrq
        simpa [space_for] using hspace
      · rw [update_of_ne hrq] at hne ⊢
        exact (h.space r hr hne).trans (hle r)
  refine ensures_get_bind ?_
  rw [hlen]
  refine ensures_bind (R := fun _ l' => Lies M K l'.event ∧
    (∀ r, l.n_allocated r ≤ l'.n_allocated r) ∧ space_for (M q).card ≤ l'.n_allocated q) ?_ ?_
  · refine ensures_when (fun hlt => ?_) fun hge => ?_
    · have hlt : l.n_allocated q < space_for (M q).card := by simpa using hlt
      refine ensures_bind (R := fun _ l' => Lies M K l'.event ∧ l'.n_allocated = l.n_allocated) ?_ ?_
      · have halloc := ensures_alloc h.lies
        unfold Ensures on_event at *
        split at halloc
        · next hr =>
          rw [hr]
          exact ⟨halloc, rfl⟩
        · next hr =>
          rw [hr]
          exact ⟨h.of_le (fun _ => le_rfl) halloc, (h.le q).trans_lt hlt⟩
        · exact halloc.elim
      · rintro _ l' ⟨hl', hn⟩
        refine ensures_modify ⟨hl', fun r => ?_, ?_⟩
        · show _ ≤ if r = q then _ else _
          split
          · next hr =>
            subst hr
            omega
          · rw [hn]
        · show _ ≤ if q = q then _ else _
          rw [if_pos rfl]
          omega
    · exact ⟨h.lies, fun _ => le_rfl, by simpa using hge⟩
  · rintro _ l' ⟨hl', hle, hspace⟩
    exact ensures_modify (hend l' hl' hle hspace)

/-- An event source is put in the queues of a clock, or in neither. That only
    fails where one of them has no space for it. -/
theorem fits_time_put {connected limited : Bool} {type : EventSourceType} {enabled : Enabled}
    (h : Fits M K n l) (hM : ∀ q : Queue, q.clock.isSome → s ∉ M q)
    (hs : K s = (true, connected, type, enabled, limited)) (hcan : type.can_rate_limit = true) :
    Ensures (Loop.event_source_time_prioq_put s c) l (fun _ => Fits (joined M s (some c)) K n)
      fun l' => Fits M K n l' ∧ ∃ q : Queue, q.clock = some c ∧ n q < space_for (M q).card := by
  have hkind := (h.lies.2 s).trans hs
  simp only [Source.kind, mk.injEq] at hkind
  have hsource : on_event (source s) l = (.ok (l.event.source s), l) := by
    unfold on_event source
    simp [hkind.1, assert]
  unfold Loop.event_source_time_prioq_put Ensures
  rw [bind_run_ok hsource]
  refine ensures_assert_bind (by rw [hkind.2.2.1, hcan]) ?_
  refine ensures_bind (ensures_mono (fits_prioq_put h (q := .earliest c) rfl fun r hr _ => hM r hr)
    (fun _ _ h => h) fun l' h' => ⟨h'.1, _, rfl, h'.2⟩) fun _ l1 h1 => ?_
  refine ensures_bind (R := fun _ => Fits (joined M s (some c)) K n) ?_ fun _ l2 h2 => ?_
  · refine ensures_cleanup (F := fun l' =>
      Fits (Function.update M (.earliest c) (s ::ₘ M (.earliest c))) K n l' ∧
        n (.latest c) < space_for (M (.latest c)).card) ?_ ?_
    · have hput := fits_prioq_put h1 (q := .latest c) (s := s) rfl fun r hr hi => by
        rw [update_of_ne (by rintro rfl; cases hi)]
        exact hM r hr
      rwa [Function.update_of_ne (by simp), ← joined_some] at hput
    · -- the first queue is left again
      rintro l' ⟨h', hlt⟩
      have hle : ∀ q, M q ≤ Function.update M (.earliest c) (s ::ₘ M (.earliest c)) q := by
        intro q
        rw [update_apply]
        split
        · next hq =>
          subst hq
          exact le_cons_self _ _
        · exact le_rfl
      refine ensures_mono (E := fun _ => False) (ensures_iff_ends.mpr (fits_on_event h' hle
        (Ensures.ends (E := fun _ => False) ?_) fun _ h => h)) (fun _ _ h => ⟨h, _, rfl, hlt⟩)
        fun _ h => h.elim
      refine ensures_bind (lies_remove h'.lies (q := .earliest c) rfl (update_self ..)) ?_
      rintro b e ⟨rfl, he⟩
      rw [update_idem, update_eq_self] at he
      refine ensures_modify ⟨he.1.clear (s := s) hM fun i t => ?_, he.2⟩
      exact cleared_index (fun i => i = .earliest_index) i t
  · have hclock : Ensures (update_clock c fun d => { d with needs_rearm := true }) l2.event
        (fun _ => Lies (joined M s (some c)) K) fun _ => False := ensures_modify h2.lies
    exact ensures_iff_ends.mpr (fits_on_event h2 (fun _ => le_rfl) hclock.ends fun _ h => h.elim)

/-! ### There and back -/

variable {A : Prop} {connected limited : Bool} {type : EventSourceType} {enabled : Enabled}
  {x : Source} {d : Option Clock}

/-- There is space for one more in the queues of this clock. -/
def Spare (M : Queue → Multiset SourceId) (n : Queue → Nat) (d : Option Clock) : Prop :=
  ∀ q : Queue, q.clock.isSome → q.clock = d → space_for (M q).card ≤ n q

/-- Where an event source was, there is space for it. -/
theorem Fits.spare (h : Fits (joined M s d) K l.n_allocated l) : Spare M l.n_allocated d := by
  intro q hq hd
  have hq' : joined M s d q = s ::ₘ M q := if_pos ⟨hq, hd⟩
  have hspace := h.space q hq
  rw [hq'] at hspace
  simpa [space_for] using hspace (by simp)

theorem ends_put_back (h : Fits M K n l) (hM : ∀ q : Queue, q.clock.isSome → s ∉ M q)
    (hs : K s = (true, connected, type, enabled, limited)) (hcan : type.can_rate_limit = true)
    (hn : Spare M n (some c)) : Ends (assert_se (Loop.event_source_time_prioq_put s c)) l
      (fun _ => Fits (joined M s (some c)) K n) F A := by
  have hput := fits_time_put (c := c) h hM hs hcan
  unfold Ensures at hput
  unfold Ends assert_se
  split at hput
  · next hr => rwa [hr]
  · obtain ⟨-, q, hq, hlt⟩ := hput
    exact absurd (hn q (by rw [hq]; rfl) hq) (Nat.not_le.mpr hlt)
  · exact hput.elim

theorem ends_if_time (hx : x.type = type) {f : Clock → Call Loop PUnit} {Q : Loop → Prop}
    (hsome : ∀ c, type.clock = some c → Ends (f c) l (fun _ => Q) F A)
    (hnone : type.clock = none → Q l) : Ends (Loop.if_time x f) l (fun _ => Q) F A := by
  unfold Loop.if_time
  rw [hx]
  split
  · next c hc => exact hsome c hc
  · next hc => exact hnone hc

theorem ends_source (h : Fits M K n l) (hs : K s = (true, connected, type, enabled, limited)) :
    Ends (on_event (source s)) l
      (fun x l' => x.type = type ∧ x.enabled = enabled ∧ x.ratelimited = limited ∧ l' = l) F A := by
  have hkind := (h.lies.2 s).trans hs
  simp only [Source.kind, mk.injEq] at hkind
  obtain ⟨halloc, -, hkind⟩ := hkind
  unfold Ends on_event source
  simp [halloc, hkind, assert]

/-- One of these parts aborts somewhere. -/
def Aborts (parts : List (Call SdEvent PUnit)) : Prop :=
  ∃ y ∈ parts, ∃ e e', y e = (.abort, e')

/-- The parts that may abort, all of them on the event loop alone. -/
def enter_parts (s : SourceId) (enabled : Enabled) : List (Call SdEvent PUnit) :=
  [setup_clock_data .boottime, event_source_offline s enabled true,
    event_source_pp_prioq_reshuffle s]

def leave_parts (s : SourceId) (enabled : Enabled) : List (Call SdEvent PUnit) :=
  [event_source_online s enabled false, event_source_pp_prioq_reshuffle s,
    update s fun x => { x with rate_limit := ratelimit_reset x.rate_limit }]

theorem aborts_ends {y : Call SdEvent PUnit} {parts : List (Call SdEvent PUnit)}
    {Q : PUnit → SdEvent → Prop} (h : Holds y e Q E) (hy : y ∈ parts) :
    Ends y e Q E (Aborts parts) :=
  h.ends fun e' hr => ⟨y, hy, e, e', hr⟩

theorem ends_enter (h : Fits (joined M s type.clock) K n l)
    (hM : ∀ q : Queue, q.clock.isSome → s ∉ M q)
    (hs : K s = (true, connected, type, enabled, false)) (hcan : type.can_rate_limit = true)
    (hn : Spare M n type.clock) : Ends (Loop.event_source_enter_ratelimited s) l
      (fun _ => Fits (joined M s (some .boottime))
        (fun t => if t = s then (true, connected, type, enabled, true) else K t) n)
      (Fits (joined M s type.clock) K n) (Aborts (enter_parts s enabled)) := by
  refine ends_bind (ends_source h hs) ?_
  rintro x l1 ⟨hxtype, hxenabled, hxlimited, rfl⟩
  rw [if_neg (by simp [hxlimited]), hxenabled]
  refine ends_bind (fits_on_event h (fun _ => le_rfl)
    (aborts_ends (lies_setup_clock_data .boottime l1.event h.lies) (by simp [enter_parts]))
    fun e he => h.of_le (fun _ => le_rfl) he) fun _ l2 h2 => ?_
  refine ends_bind (R := fun _ => Fits M K n) ?_ fun _ l3 h3 => ?_
  · refine ends_if_time hxtype (fun c hc => ?_) fun hc => by rwa [hc, joined_none] at h2
    have hl := h2.lies
    rw [hc] at hl
    exact fits_on_event h2 (le_joined _) (lies_time_remove hl hM).ends fun _ h => h.elim
  refine ends_bind (R := fun _ => Fits (joined M s (some .boottime))
    (fun t => if t = s then (true, connected, type, enabled, true) else K t) n)
    (ends_cleanup (F := Fits M K n) ?_ fun l4 h4 => ?_) fun _ l4 h4 => ?_
  · refine ends_bind (ensures_mono (fits_time_put h3 hM hs hcan) (fun _ _ h => h)
      fun _ h => h.1).ends fun _ l5 h5 => ?_
    refine ends_cleanup (F := fun _ => False) ?_ fun _ h => h.elim
    refine fits_on_event h5 (fun _ => le_rfl)
      (aborts_ends (lies_offline h5.lies hs hcan) (by simp [enter_parts])) fun _ h => h.elim
  · refine ends_if_time hxtype (fun c hc => ?_) fun hc => by rwa [hc, joined_none]
    rw [hc] at hn ⊢
    exact ends_put_back h4 hM hs hcan hn
  · exact fits_on_event h4 (fun _ => le_rfl) (aborts_ends (holds_keeps (lies_pp_prioq_reshuffle s)
      (noerr_pp_prioq_reshuffle s) h4.lies) (by simp [enter_parts])) fun _ h => h

theorem ends_leave (h : Fits (joined M s (some .boottime)) K n l)
    (hM : ∀ q : Queue, q.clock.isSome → s ∉ M q)
    (hs : K s = (true, connected, type, enabled, true)) (hcan : type.can_rate_limit = true)
    (hn : Spare M n (some .boottime)) : Ends (Loop.event_source_leave_ratelimit s) l
      (fun _ => Fits (joined M s type.clock)
        (fun t => if t = s then (true, connected, type, enabled, false) else K t) n)
      (Fits (joined M s (some .boottime)) K n) (Aborts (leave_parts s enabled)) := by
  refine ends_bind (ends_source h hs) ?_
  rintro x l1 ⟨hxtype, hxenabled, hxlimited, rfl⟩
  rw [if_neg (by simp [hxlimited]), hxenabled]
  refine ends_bind (R := fun _ => Fits M K n) (fits_on_event h (le_joined _)
    (lies_time_remove h.lies hM).ends fun _ h => h.elim) fun _ l2 h2 => ?_
  refine ends_bind (R := fun _ => Fits (joined M s type.clock)
    (fun t => if t = s then (true, connected, type, enabled, false) else K t) n)
    (ends_cleanup (F := Fits M K n) ?_ fun l4 h4 => ends_put_back h4 hM hs hcan hn)
    fun _ l4 h4 => ?_
  · refine ends_bind (R := fun _ => Fits (joined M s type.clock) K n) ?_ fun _ l3 h3 => ?_
    · refine ends_if_time hxtype (fun c hc => ?_) fun hc => by rwa [hc, joined_none]
      rw [hc]
      exact (ensures_mono (fits_time_put h2 hM hs hcan) (fun _ _ h => h) fun _ h => h.1).ends
    · refine ends_cleanup (F := Fits (joined M s type.clock) K n) ?_ fun l4 h4 => ?_
      · exact fits_on_event h3 (fun _ => le_rfl)
          (aborts_ends (lies_online h3.lies hs hcan) (by simp [leave_parts]))
          fun e he => h3.of_le (fun _ => le_rfl) he
      · refine ends_if_time hxtype (fun c hc => ?_) fun hc => by rwa [hc, joined_none] at h4
        have hl := h4.lies
        rw [hc] at hl
        exact fits_on_event h4 (le_joined _) (lies_time_remove hl hM).ends fun _ h => h.elim
  · refine ends_bind (fits_on_event h4 (fun _ => le_rfl) (aborts_ends (holds_keeps
      (lies_pp_prioq_reshuffle s) (noerr_pp_prioq_reshuffle s) h4.lies) (by simp [leave_parts]))
      fun _ h => h) fun _ l5 h5 => ?_
    exact fits_on_event h5 (fun _ => le_rfl) (aborts_ends (holds_keeps
      (lies_update s fun _ => rfl) (noerr_update s _) h5.lies) (by simp [leave_parts])) fun _ h => h

/-! ## Section 6: The transitions -/

/-- Where an event source of this kind belongs. -/
def Kind.queue_clock (k : Kind) : Option Clock :=
  if k.1 && k.2.1 then if k.2.2.2.2 then some .boottime else k.2.2.1.clock else none

/-- The event sources of a queue. -/
def SdEvent.members (e : SdEvent) (q : Queue) : Multiset SourceId := (e.queue q).map (·.data)

theorem InOrder.mem_iff (h : InOrder l) (hq : q.clock.isSome) (t : SourceId) :
    t ∈ l.event.members q ↔ (l.event.source t).queue_clock = q.clock := by
  obtain ⟨c, hc⟩ := Option.isSome_iff_exists.mp hq
  unfold SdEvent.members
  rw [mem_coe, List.mem_map, hc]
  constructor
  · rintro ⟨x, hx, rfl⟩
    exact ((h.queued q c hc x).mp hx).2
  · intro ht
    exact ⟨⟨t, some t⟩, (h.queued q c hc _).mpr ⟨rfl, ht⟩, rfl⟩

theorem InOrder.bears (h : InOrder l) (hq : q.clock.isSome) :
    (l.event.prioq q).Bears (l.event.members q) := by
  obtain ⟨c, hc⟩ := Option.isSome_iff_exists.mp hq
  refine ⟨?_, h.indexed q hq⟩
  unfold SdEvent.members
  rw [map_coe, List.map_map]
  have hown : ∀ x ∈ l.event.queue q, (Prioq.own ∘ fun x => x.data) x = x := by
    intro x hx
    obtain ⟨hidx, -⟩ := (h.queued q c hc x).mp hx
    simp [Prioq.own, ← hidx]
  rw [List.map_congr_left hown, List.map_id']
  rfl

/-- Taken by itself, an event source is in the queues of its clock. -/
theorem InOrder.joined (h : InOrder l) (s : SourceId) (hq : q.clock.isSome) :
    joined (fun q => (l.event.members q).erase s) s (l.event.source s).queue_clock q =
      l.event.members q := by
  unfold Event.joined
  split
  · next hs => exact cons_erase ((h.mem_iff hq s).mpr hs.2.symm)
  · next hs =>
    exact erase_of_notMem fun hmem => hs ⟨hq, ((h.mem_iff hq s).mp hmem).symm⟩

theorem InOrder.not_mem (h : InOrder l) (s : SourceId) (q : Queue) (hq : q.clock.isSome) :
    s ∉ (l.event.members q).erase s := by
  by_cases hs : s ∈ l.event.members q
  · have hbears := h.bears hq
    rw [← cons_erase hs] at hbears
    exact (hbears.remove (l.event.compare q)).2.2.1
  · rwa [erase_of_notMem hs]

theorem InOrder.fits (h : InOrder l) (s : SourceId) :
    Fits (Event.joined (fun q => (l.event.members q).erase s) s (l.event.source s).queue_clock)
      (fun t => (l.event.source t).kind) l.n_allocated l := by
  refine ⟨⟨⟨?_, ?_, ?_⟩, fun _ => rfl⟩, ?_, fun _ => le_rfl⟩
  · intro q hq
    rw [h.joined s hq]
    exact h.bears hq
  · intro q r t hq hr hi ht ht'
    rw [h.joined s hq, h.mem_iff hq] at ht
    rw [h.joined s hr, h.mem_iff hr] at ht'
    cases q <;> cases r <;> simp_all [Queue.clock, Queue.index]
  · intro q t hq ht
    refine h.unqueued q t hq (Option.eq_none_iff_forall_ne_some.mpr fun c hc => ?_)
    -- it would be in the queue of that clock with the same index
    obtain ⟨r, hr, hi⟩ : ∃ r : Queue, r.clock = some c ∧ r.index = q.index := by
      cases q with
      | earliest _ => exact ⟨.earliest c, rfl, rfl⟩
      | latest _ => exact ⟨.latest c, rfl, rfl⟩
      | pending => cases hq
      | prepare => cases hq
      | exit => cases hq
    have hr' : r.clock.isSome := by rw [hr]; rfl
    refine ht r hr' hi ?_
    rw [h.joined s hr', h.mem_iff hr', hc, hr]
  · intro q hq hne
    have hlen : (l.event.queue q).length = (l.event.members q).card := (h.bears hq).length
    rw [h.joined s hq] at hne ⊢
    rw [← hlen]
    refine h.space q hq fun hnil => hne ?_
    unfold SdEvent.members
    rw [hnil]
    rfl

/-- The event source has moved, and the others are where they belong. -/
theorem InOrder.moved {l' : Loop} (h : InOrder l)
    (hf : Fits (Event.joined (fun q => (l.event.members q).erase s) s d) K n l')
    (hs : (K s).queue_clock = d) (hothers : ∀ t, t ≠ s → K t = (l.event.source t).kind) :
    InOrder l' := by
  have hmem : ∀ (q : Queue) t, q.clock.isSome →
      (t ∈ Event.joined (fun q => (l.event.members q).erase s) s d q ↔
        (l'.event.source t).queue_clock = q.clock) := by
    intro q t hq
    show _ ↔ (l'.event.source t).kind.queue_clock = q.clock
    rw [hf.lies.2 t]
    unfold Event.joined
    by_cases hts : t = s
    · subst hts
      rw [hs]
      split
      · next hd => simp [hd.2]
      · next hd =>
        have hnot := h.not_mem t q hq
        exact ⟨fun hm => absurd hm hnot, fun hd' => absurd ⟨hq, hd'.symm⟩ hd⟩
    · rw [hothers t hts]
      have hiff := h.mem_iff hq t
      split
      · rw [mem_cons, mem_erase_of_ne hts]
        exact (or_iff_right hts).trans hiff
      · rw [mem_erase_of_ne hts]
        exact hiff
  constructor
  · intro q c hc x
    have hq : q.clock.isSome := by rw [hc]; rfl
    have hbears := hf.lies.1.bears q hq
    rw [← hc, ← hmem q _ hq]
    constructor
    · intro hx
      obtain ⟨b, hb, rfl⟩ := hbears.mem_items hx
      exact ⟨rfl, hb⟩
    · rintro ⟨hidx, hx⟩
      have hown : Prioq.own x.data = x := by simp [Prioq.own, ← hidx]
      have hitems : Prioq.own x.data ∈ (l'.event.queue q : Multiset _) := by
        rw [hbears.items]
        exact mem_map_of_mem _ hx
      rwa [hown, mem_coe] at hitems
  · exact fun q hq => (hf.lies.1.bears q hq).indexed
  · intro q t hq ht
    refine hf.lies.1.unqueued q t hq fun r hr _ hm => ?_
    rw [hmem r t hr, ht] at hm
    rw [← hm] at hr
    cases hr
  · intro q hq hne
    have hlen : (l'.event.queue q).length = _ := (hf.lies.1.bears q hq).length
    rw [hlen]
    refine hf.space q hq fun h0 => hne ?_
    rw [h0] at hlen
    exact List.length_eq_zero_iff.mp hlen

/-- The event source is where it belongs, as are all others: in the queues of
    the boottime clock if it is rate limited, in those of its own clock if it
    is a timer, and otherwise in none. -/
def Settled (s : SourceId) (limited : Bool) (l : Loop) : Prop :=
  InOrder l ∧ (l.event.source s).ratelimited = limited ∧
    (l.event.source s).queue_clock =
      if limited then some .boottime else (l.event.source s).type.clock

end move

/-- An event loop with an I/O source. -/
def io_loop : Loop where
  event := SdEvent.new.set_source 0 { Source.new .io with enabled := .on }
  n_allocated := fun _ => 0

theorem io_loop_in_order : InOrder io_loop := by
  have hnone : ∀ t, (io_loop.event.source t).queue_clock = none := by
    intro t
    show (if t = 0 then _ else _ : Source).queue_clock = none
    split
    · rfl
    · rfl
  refine ⟨fun q c _ x => ?_, fun q _ i x p hx => ?_, fun _ _ _ _ => rfl, fun q _ hne => ?_⟩
  · rw [hnone]
    exact ⟨fun hx => absurd hx List.not_mem_nil, fun hx => nomatch hx.2⟩
  · cases hx
  · exact absurd rfl hne

end Event

end SdCompat
