import SdCompat.Basic.PrioqHeap
import SdCompat.SdBus.ReplyOnce

/-! # Timeouts of calls that are made before the connection

    Until the connection is there, callbacks are queued by the time that is left
    to them. When it is, `bus_start_running` makes points in time out of these,
    in place and without a reshuffle.

    * `Pending`: what is in the queue is in the table, which the loop of
      `bus_start_running` goes over;
    * `start_running_le`: the loop leaves the order as it is;
    * `start_running_heap`: so the queue stays a heap.
-/

open Transition

namespace SdCompat.Bus

open Call List Prioq

variable {bus bus' : BusReplies}

/-! ## Section 1: The order of the queue -/

/-- `timeout_compare` -/
def timeout_compare (bus : BusReplies) (x y : Nat) : Ordering :=
  if (bus.slot x).timeout_usec ≠ 0 ∧ (bus.slot y).timeout_usec = 0 then .lt
  else if (bus.slot x).timeout_usec = 0 ∧ (bus.slot y).timeout_usec ≠ 0 then .gt
  else compare (bus.slot x).timeout_usec (bus.slot y).timeout_usec

/-- `x` may be in front of `y`: no timeout comes last. -/
theorem timeout_compare_ne_gt (x y : Nat) : timeout_compare bus x y ≠ .gt ↔
    (bus.slot y).timeout_usec = 0 ∨ (bus.slot x).timeout_usec ≠ 0 ∧
        (bus.slot x).timeout_usec ≤ (bus.slot y).timeout_usec := by
  unfold timeout_compare
  split
  · next h => simp [h.2]
  · next h =>
    split
    · next h' => simp [h'.1, h'.2]
    · next h' =>
      rw [ne_eq, Nat.compare_eq_gt]
      omega

theorem timeout_compare_swap (x y : Nat) :
    timeout_compare bus x y = (timeout_compare bus y x).swap := by
  unfold timeout_compare
  by_cases hx : (bus.slot x).timeout_usec = 0 <;> by_cases hy : (bus.slot y).timeout_usec = 0
  · simp [hx, hy]
  · simp [hx, hy]
  · simp [hx, hy]
  · simp [hx, hy, Nat.compare_swap]

instance : Std.TransCmp (timeout_compare bus) where
  eq_swap := timeout_compare_swap _ _
  isLE_trans := by
    intro x y z hxy hyz
    rw [Ordering.isLE_iff_ne_gt, ← ne_eq, timeout_compare_ne_gt] at hxy hyz ⊢
    omega

/-- It is the order by which the next timeout is chosen. -/
theorem timeout_before_iff (x y : Nat) :
    timeout_before (bus.slot x) (bus.slot y) = false ↔ timeout_compare bus y x ≠ .gt := by
  rw [timeout_compare_ne_gt]
  unfold timeout_before
  split
  · next h => simp [h.1, h.2]
  · next h =>
    split
    · next h' => simp [h'.1]
    · next h' =>
      rw [decide_eq_false_iff_not]
      omega

/-! ## Section 2: Before the connection -/

/-- The states in which times are relative, and the one before them. -/
def BeforeRunning (state : BusState) : Prop :=
  state = .unset ∨ state = .watch_bind ∨ state = .opening ∨ state = .authenticating

instance (state : BusState) : Decidable (BeforeRunning state) :=
  inferInstanceAs (Decidable (state = .unset ∨ state = .watch_bind ∨ state = .opening ∨
    state = .authenticating))

/-- What happens before the connection is there. -/
def waiting : System BusReplies ReplyAct where
  init := fun bus => replying.init bus ∧ BeforeRunning bus.state
  step := fun bus a bus' => replying.step bus a bus' ∧ BeforeRunning bus'.state

/-- **Invariant**: what is queued has a timeout and is in the table, by the
    cookie in its slot, and so is what has a cookie; and no callback runs. -/
structure Pending (bus : BusReplies) : Prop where
  current : bus.current_slot = none
  queued : ∀ i ∈ bus.reply_callbacks_prioq, i < bus.n_slots ∧
    (bus.slot i).timeout_usec ≠ 0 ∧ ((bus.slot i).cookie, i) ∈ bus.reply_callbacks
  prioq_nodup : bus.reply_callbacks_prioq.Nodup
  tabled : ∀ i < bus.n_slots, (bus.slot i).connected = true → (bus.slot i).cookie ≠ 0 →
    ((bus.slot i).cookie, i) ∈ bus.reply_callbacks
  calls : ∀ call ∈ bus.calls, call.slot < bus.n_slots ∧
    (bus.slot call.slot).cookie = call.cookie

theorem Pending.init (h : replying.init bus) : Pending bus := by
  obtain ⟨-, htable, hqueue, hn, hcurrent, hcalls, -⟩ := h
  constructor
  · exact hcurrent
  · intro i hi
    rw [hqueue] at hi
    cases hi
  · rw [hqueue]
    exact nodup_nil
  · intro i hi
    rw [hn] at hi
    exact absurd hi (Nat.not_lt_zero i)
  · intro call hc
    rw [hcalls] at hc
    cases hc

theorem Pending.with_cookie (c : Nat) (h : Pending bus) : Pending { bus with cookie := c } :=
  ⟨h.current, h.queued, h.prioq_nodup, h.tabled, h.calls⟩

variable {i : Nat}

/-- The table and the queue, when a slot is disconnected. -/
theorem disconnect_parts (hcon : (bus.slot i).connected = true) :
    (bus_slot_disconnect i bus).reply_callbacks = (if (bus.slot i).cookie ≠ 0 then
          bus.reply_callbacks.filter fun e => e.1 != (bus.slot i).cookie else bus.reply_callbacks) ∧
      (bus_slot_disconnect i bus).reply_callbacks_prioq =
        if (bus.slot i).timeout_usec ≠ 0 then bus.reply_callbacks_prioq.erase i
        else bus.reply_callbacks_prioq := by
  unfold bus_slot_disconnect
  rw [if_pos hcon]
  by_cases hcookie : (bus.slot i).cookie ≠ 0
  · rw [if_pos hcookie]
    dsimp only [BusReplies.remove]
    split
    · exact ⟨rfl, rfl⟩
    · exact ⟨rfl, rfl⟩
  · rw [if_neg hcookie]
    dsimp only
    split
    · exact ⟨rfl, rfl⟩
    · exact ⟨rfl, rfl⟩

/-- A slot is disconnected: it is not queued any more, and the others are where
    they were. -/
theorem Pending.disconnect (hk : Keyed bus) (h : Pending bus) (hi : i < bus.n_slots) :
    Pending (bus_slot_disconnect i bus) := by
  by_cases hcon : (bus.slot i).connected = true
  · obtain ⟨hslot, hn, hcalls, -, hcurrent⟩ := disconnect_rest hcon
    obtain ⟨htable, hqueue⟩ := disconnect_parts hcon
    have hsame : ∀ j, ((bus_slot_disconnect i bus).slot j).cookie = (bus.slot j).cookie ∧
        ((bus_slot_disconnect i bus).slot j).timeout_usec = (bus.slot j).timeout_usec := by
      intro j
      rw [hslot]
      by_cases hji : j = i
      · subst hji
        rw [setSlot_same]
        exact ⟨rfl, rfl⟩
      · rw [setSlot_other _ hji]
        exact ⟨rfl, rfl⟩
    -- a key that goes is that of this slot only
    have hstays : ∀ j k, (k, j) ∈ bus.reply_callbacks → j ≠ i →
        (k, j) ∈ (bus_slot_disconnect i bus).reply_callbacks := by
      intro j k hmem hji
      rw [htable]
      split
      · next hcookie =>
        refine mem_filter.mpr ⟨hmem, ?_⟩
        rw [bne_iff_ne]
        intro hkey
        subst hkey
        exact hji (hk.slot_unique hmem (h.tabled i hi hcon hcookie))
      · exact hmem
    have hleft : ∀ j ∈ (bus_slot_disconnect i bus).reply_callbacks_prioq,
        j ∈ bus.reply_callbacks_prioq ∧ j ≠ i := by
      intro j hj
      rw [hqueue] at hj
      split at hj
      · exact (h.prioq_nodup.mem_erase_iff.mp hj).symm
      · next hzero =>
        refine ⟨hj, ?_⟩
        rintro rfl
        exact hzero (h.queued j hj).2.1
    constructor
    · rw [hcurrent]
      exact h.current
    · intro j hj
      obtain ⟨hmem, hji⟩ := hleft j hj
      obtain ⟨hlt, htimeout, hin⟩ := h.queued j hmem
      rw [hn, (hsame j).1, (hsame j).2]
      exact ⟨hlt, htimeout, hstays j _ hin hji⟩
    · rw [hqueue]
      split
      · exact h.prioq_nodup.erase i
      · exact h.prioq_nodup
    · intro j hj hconj hcookie
      rw [hn] at hj
      rw [(hsame j).1] at hcookie ⊢
      have hji : j ≠ i := by
        rintro rfl
        rw [hslot, setSlot_same] at hconj
        cases hconj
      rw [hslot, setSlot_other _ hji] at hconj
      exact hstays j _ (h.tabled j hj hconj hcookie) hji
    · intro call hc
      rw [hcalls] at hc
      rw [hn, (hsame call.slot).1]
      exact h.calls call hc
  · have hnothing : bus_slot_disconnect i bus = bus := if_neg hcon
    rw [hnothing]
    exact h

/-- A slot becomes floating, or stops being so. -/
theorem Pending.set_floating (i : Nat) (floating : Bool) (h : Pending bus) :
    Pending (bus.setSlot i fun s => { s with floating := floating }) := by
  have hsame : ∀ j, ∃ f, (bus.setSlot i fun s => { s with floating := floating }).slot j
      = { bus.slot j with floating := f } := by
    intro j
    by_cases hji : j = i
    · subst hji
      exact ⟨floating, setSlot_same _ _⟩
    · exact ⟨_, setSlot_other _ hji⟩
  constructor
  · exact h.current
  · intro j hj
    obtain ⟨f, hf⟩ := hsame j
    rw [hf]
    exact h.queued j hj
  · exact h.prioq_nodup
  · intro j hj hcon hcookie
    obtain ⟨f, hf⟩ := hsame j
    rw [hf] at hcon hcookie ⊢
    exact h.tabled j hj hcon hcookie
  · intro call hc
    obtain ⟨f, hf⟩ := hsame call.slot
    rw [hf]
    exact h.calls call hc

/-- A slot is allocated: it is nowhere yet. -/
theorem Pending.allocate (floating callback : Bool) (cookie : Nat) (h : Pending bus) :
    Pending (bus_slot_allocate floating callback cookie bus) := by
  have hslot : ∀ i, i < bus.n_slots →
      (bus_slot_allocate floating callback cookie bus).slot i = bus.slot i := by
    intro i hi
    exact if_neg (Nat.ne_of_lt hi)
  constructor
  · exact h.current
  · intro i hi
    obtain ⟨hlt, hrest⟩ := h.queued i hi
    rw [hslot i hlt]
    exact ⟨Nat.lt_succ_of_lt hlt, hrest⟩
  · exact h.prioq_nodup
  · intro i hi hcon hcookie
    rcases Nat.lt_succ_iff_lt_or_eq.mp hi with hlt | rfl
    · rw [hslot i hlt] at hcon hcookie ⊢
      exact h.tabled i hlt hcon hcookie
    · -- the new one has no cookie
      have hlast : (bus_slot_allocate floating callback cookie bus).slot bus.n_slots =
          ⟨callback, 0, 0, floating, true, cookie⟩ := if_pos rfl
      rw [hlast] at hcookie
      exact absurd rfl hcookie
  · intro call hc
    obtain ⟨hlt, hcookie⟩ := h.calls call hc
    rw [hslot _ hlt]
    exact ⟨Nat.lt_succ_of_lt hlt, hcookie⟩

section put
variable {i cookie : Nat} (h : Pending bus) (hi : i < bus.n_slots)
  (hnot : i ∉ bus.reply_callbacks_prioq) (hcalls : ∀ call ∈ bus.calls, call.slot ≠ i)

include h hi hnot

include hcalls in
/-- A new callback goes in the table. -/
theorem Pending.put_table : Pending (bus.tabled cookie i) := by
  have hslot : ∀ j, j ≠ i → (bus.tabled cookie i).slot j = bus.slot j := by
    intro j hji
    show (bus.set_cookie i cookie).slot j = _
    exact setSlot_other _ hji
  have hset : ((bus.tabled cookie i).slot i).cookie = cookie := by
    show ((bus.set_cookie i cookie).slot i).cookie = _
    rw [BusReplies.set_cookie, setSlot_same]
  constructor
  · exact h.current
  · intro j hj
    have hji : j ≠ i := by
      rintro rfl
      exact hnot hj
    obtain ⟨hlt, htimeout, hin⟩ := h.queued j hj
    rw [hslot j hji]
    exact ⟨hlt, htimeout, mem_append_left _ hin⟩
  · exact h.prioq_nodup
  · intro j hj hcon hcookie
    by_cases hji : j = i
    · subst hji
      rw [hset]
      exact mem_append_right _ mem_cons_self
    · rw [hslot j hji] at hcon hcookie ⊢
      exact mem_append_left _ (h.tabled j hj hcon hcookie)
  · intro call hc
    rw [hslot _ (hcalls call hc)]
    exact h.calls call hc

/-- A callback of the table goes in the queue. -/
theorem Pending.put_queue {t : Nat} (ht : t ≠ 0)
    (hin : ((bus.slot i).cookie, i) ∈ bus.reply_callbacks) : Pending (bus.queued t i) := by
  have hcookie : ∀ j, ((bus.queued t i).slot j).cookie = (bus.slot j).cookie ∧
      ((bus.queued t i).slot j).connected = (bus.slot j).connected := by
    intro j
    show ((bus.set_timeout i t).slot j).cookie = _ ∧ ((bus.set_timeout i t).slot j).connected = _
    by_cases hji : j = i
    · subst hji
      rw [BusReplies.set_timeout, setSlot_same]
      exact ⟨rfl, rfl⟩
    · rw [BusReplies.set_timeout, setSlot_other _ hji]
      exact ⟨rfl, rfl⟩
  constructor
  · exact h.current
  · intro j hj
    rw [(hcookie j).1]
    rcases mem_cons.mp hj with rfl | hmem
    · refine ⟨hi, ?_, hin⟩
      show ((bus.set_timeout j t).slot j).timeout_usec ≠ 0
      rw [BusReplies.set_timeout, setSlot_same]
      exact ht
    · obtain ⟨hlt, htimeout, hinj⟩ := h.queued j hmem
      refine ⟨hlt, ?_, hinj⟩
      have hji : j ≠ i := by
        rintro rfl
        exact hnot hmem
      show ((bus.set_timeout i t).slot j).timeout_usec ≠ 0
      rw [BusReplies.set_timeout, setSlot_other _ hji]
      exact htimeout
  · exact nodup_cons.mpr ⟨hnot, h.prioq_nodup⟩
  · intro j hj hcon hne
    rw [(hcookie j).2] at hcon
    rw [(hcookie j).1] at hne ⊢
    exact h.tabled j hj hcon hne
  · intro call hc
    rw [(hcookie call.slot).1]
    exact h.calls call hc

end put

theorem Pending.begin_call {cookie : Nat} (waits : Bool) (h : Pending bus) (hi : i < bus.n_slots)
    (hcookie : (bus.slot i).cookie = cookie) :
    Pending { bus with calls := ⟨i, cookie, waits⟩ :: bus.calls } where
  current := h.current
  queued := h.queued
  prioq_nodup := h.prioq_nodup
  tabled := h.tabled
  calls := by
    intro call hc
    rcases mem_cons.mp hc with rfl | hc
    · exact ⟨hi, hcookie⟩
    · exact h.calls call hc

theorem Pending.call_async (env : CallEnv) (floating callback : Bool) (m : CallMessage)
    (usec : Nat) (hk : Keyed bus) (h : Pending bus) :
    Call.Leaves (sd_bus_call_async env floating callback m usec) bus Pending := by
  apply leaves_call_async bus env floating callback m usec hk h fun c _ => h.with_cookie c
  intro bus m' waits timeout h hk hle _
  have hb := h.allocate floating callback m'.cookie
  have hkb := hk.allocate floating callback m'.cookie
  have hi : bus.n_slots < (bus_slot_allocate floating callback m'.cookie bus).n_slots :=
    Nat.lt_succ_self _
  have hslot : (bus_slot_allocate floating callback m'.cookie bus).slot bus.n_slots =
      ⟨callback, 0, 0, floating, true, m'.cookie⟩ :=
    if_pos rfl
  have hcalls : ∀ call ∈ (bus_slot_allocate floating callback m'.cookie bus).calls,
      call.slot ≠ bus.n_slots := by
    intro call hc
    exact Nat.ne_of_lt (h.calls call hc).1
  have hnot : bus.n_slots ∉
      (bus_slot_allocate floating callback m'.cookie bus).reply_callbacks_prioq := by
    intro hmem
    exact absurd (h.queued _ hmem).1 (Nat.lt_irrefl _)
  have hleb : m'.cookie ≤ (bus_slot_allocate floating callback m'.cookie bus).cookie := hle
  generalize bus_slot_allocate floating callback m'.cookie bus = b at *
  generalize bus.n_slots = i at *
  have htable : Pending (b.tabled m'.cookie i) := hb.put_table hi hnot hcalls
  apply leaves_register env waits timeout hkb hb hleb hi
  · rw [hslot]
  · rw [hslot]
  · exact htable
  · intro t ht
    apply htable.put_queue hi hnot ht
    show (((b.set_cookie i m'.cookie).slot i).cookie, i) ∈ b.reply_callbacks ++ [(m'.cookie, i)]
    rw [BusReplies.set_cookie, setSlot_same]
    exact mem_append_right _ mem_cons_self
  · intro b' hk' h' hi' _
    exact h'.disconnect hk' hi'
  · intro b' w h' hi' _ _ hcookie
    exact h'.begin_call w hi' hcookie

/-- The end of `sd_bus_call_async`: the cookie that is written is there
    already, or the slot is freed. -/
theorem Pending.sent (env : SentEnv) {call : AsyncCall} (hk : Keyed bus) (h : Pending bus)
    (hcall : call ∈ bus.calls) : Call.Leaves (sd_bus_call_async_sent env call) bus Pending := by
  obtain ⟨hi, hcookie⟩ := h.calls call hcall
  have hend : Pending { bus with calls := bus.calls.erase call } :=
    { h with calls := fun c hc => h.calls c (mem_of_mem_erase hc) }
  apply leaves_sent env hk hcall hcookie hend (hend.with_cookie _)
  intro b hkb hb hn _
  exact hb.disconnect hkb (hn ▸ hi)

theorem Pending.step {a : ReplyAct} (hk : Keyed bus) (h : Pending bus)
    (hstate : BeforeRunning bus.state) (hst : waiting.step bus a bus') : Pending bus' := by
  obtain ⟨⟨hen, -, rfl⟩, hafter⟩ := hst
  have hstopped : ¬ (bus.state = .running ∨ bus.state = .hello) ∧ bus.state ≠ .closing := by
    rcases hstate with hs | hs | hs | hs
    all_goals simp [hs]
  cases a with
  | send env m usec =>
    have hsame := (bus_seal_message_spec bus env m usec hk).1
    show Pending (bus_seal_message env m usec bus).2
    rw [hsame]
    exact h.with_cookie _
  | call_async env floating callback m usec => exact h.call_async env floating callback m usec hk
  | sent env call => exact h.sent env hk hen
  | timeout peek now synthetic => exact absurd hen.2.1 hstopped.1
  | reply m synthetic rewind => exact absurd hen.2 hstopped.1
  | closing synthetic => exact absurd hen.2 hstopped.2
  | returns i =>
    have hcurrent : bus.current_slot = some i := hen
    rw [h.current] at hcurrent
    cases hcurrent
  | disconnect i => exact h.disconnect hk hen.1
  | set_floating i floating => exact h.set_floating i floating
  | start_running n bus_client =>
    have hbefore : BeforeRunning (if bus_client then .hello else .running) := hafter
    cases bus_client with
    | true => rcases hbefore with h | h | h | h <;> cases h
    | false => rcases hbefore with h | h | h | h <;> cases h
  | enter state unique_name accept_fd =>
    exact ⟨h.current, h.queued, h.prioq_nodup, h.tabled, h.calls⟩

theorem Pending.reachable (h : Reachable waiting bus) :
    Keyed bus ∧ Pending bus ∧ BeforeRunning bus.state := by
  have hinit : ∀ s, waiting.init s → Keyed s ∧ Pending s ∧ BeforeRunning s.state := by
    intro s hs
    exact ⟨Keyed.init hs.1, Pending.init hs.1, hs.2⟩
  have hstep : ∀ s a s', Keyed s ∧ Pending s ∧ BeforeRunning s.state → waiting.step s a s' →
      Keyed s' ∧ Pending s' ∧ BeforeRunning s'.state := by
    intro s a s' ⟨hk, hp, hstate⟩ hst
    exact ⟨hk.step hst.1, hp.step hk hstate hst, hst.2⟩
  exact Reachable.invariant hinit hstep h

/-! ## Section 3: The timeouts start -/

/-- Saturating or not, what is more stays at least as much. -/
theorem usec_add_mono (n : Nat) {t u : Nat} (ht : t ≠ 0) (htu : t ≤ u) :
    usec_add n t ≤ usec_add n u := by
  unfold usec_add USEC_INFINITY
  split
  · rw [if_pos (by omega)]
  · split
    · omega
    · omega

/-- What is queued gets the time added. -/
theorem Pending.start_running (h : Pending bus) (n : Nat) (bus_client : Bool)
    (hi : i ∈ bus.reply_callbacks_prioq) :
    ((bus_start_running n bus_client bus).slot i).timeout_usec =
      usec_add n (bus.slot i).timeout_usec := by
  obtain ⟨-, htimeout, hin⟩ := h.queued i hi
  have hany : bus.reply_callbacks.any (fun e => e.2 == i) = true :=
    any_eq_true.mpr ⟨_, hin, by simp⟩
  unfold bus_start_running
  dsimp only
  rw [if_pos ⟨htimeout, hany⟩]

/-- What is in front of another callback in the queue stays in front of it. -/
theorem start_running_le (h : Pending bus) (n : Nat) (bus_client : Bool) {j : Nat}
    (hi : i ∈ bus.reply_callbacks_prioq) (hj : j ∈ bus.reply_callbacks_prioq)
    (hle : timeout_compare bus i j ≠ .gt) :
    timeout_compare (bus_start_running n bus_client bus) i j ≠ .gt := by
  have hne := (h.queued i hi).2.1
  rw [timeout_compare_ne_gt] at hle ⊢
  rw [h.start_running n bus_client hi, h.start_running n bus_client hj]
  rcases hle with hzero | ⟨-, hle⟩
  · exact absurd hzero (h.queued j hj).2.1
  · exact .inr ⟨usec_add_ne_zero n hne, usec_add_mono n hne hle⟩

variable {q : Prioq Nat Nat}

/-- Callbacks that are put in the queue, in this order. -/
def queue_of (bus : BusReplies) (slots : List Nat) : Prioq Nat Nat :=
  slots.foldl (fun q i => q.put (timeout_compare bus) i (some i)) ⟨[], fun _ => none⟩

/-- They are in it, as a heap. -/
theorem queue_of_heap (bus : BusReplies) (slots : List Nat) :
    ((queue_of bus slots).items.map PrioqItem.data).Perm slots ∧
      HeapOrder.Ordered (le (timeout_compare bus)) (queue_of bus slots).items := by
  induction slots using reverseRecOn with
  | nil =>
    refine ⟨.refl _, ?_⟩
    intro c _ x y hx
    simp [queue_of] at hx
  | append_singleton slots i ih =>
    have hput : queue_of bus (slots ++ [i]) =
        (queue_of bus slots).put (timeout_compare bus) i (some i) := by
      unfold queue_of
      rw [foldl_append]
      rfl
    rw [hput]
    refine ⟨?_, put_ordered ih.2⟩
    exact ((put_perm.map PrioqItem.data).trans (ih.1.cons i)).trans
      (perm_append_singleton i slots).symm

/-- The heap that the queue is stays one. -/
theorem Pending.start_running_ordered (h : Pending bus) (n : Nat) (bus_client : Bool)
    (hq : (q.items.map PrioqItem.data).Perm bus.reply_callbacks_prioq)
    (hheap : HeapOrder.Ordered (le (timeout_compare bus)) q.items) :
    HeapOrder.Ordered (le (timeout_compare (bus_start_running n bus_client bus))) q.items := by
  have hin : ∀ {k : Nat} {x : PrioqItem Nat Nat}, q.items[k]? = some x →
      x.data ∈ bus.reply_callbacks_prioq := by
    intro k x hx
    exact hq.subset (mem_map_of_mem (mem_of_getElem? hx))
  intro c hc x y hx hy
  exact start_running_le h n bus_client (hin hx) (hin hy) (hheap c hc x y hx hy)

/-- What is at the front of a heap may be looked at next. -/
theorem isPeek_of_heap (hq : (q.items.map PrioqItem.data).Perm bus.reply_callbacks_prioq)
    (hheap : HeapOrder.Ordered (le (timeout_compare bus)) q.items) : IsPeek bus q.peek := by
  unfold Prioq.peek
  cases hitems : q.items with
  | nil =>
    rw [hitems] at hq
    exact hq.nil_eq.symm
  | cons x rest =>
    have hroot := hheap.root Prioq.le_refl Prioq.le_trans
    rw [hitems] at hroot hq
    refine ⟨hq.subset mem_cons_self, ?_⟩
    intro j hj
    obtain ⟨y, hy, rfl⟩ := mem_map.mp (hq.symm.subset hj)
    obtain ⟨k, hk, rfl⟩ := mem_iff_getElem.mp hy
    rw [timeout_before_iff]
    exact hroot k x _ rfl (getElem?_eq_getElem hk)

/-- **Start of operation**: the time is added to what every queued callback has
    left, saturating, and a queue that is a heap, as it is when the callbacks
    were put in it in any order, still is one; what is at its front has its time
    first. -/
theorem start_running_heap (h : Reachable waiting bus) (n : Nat) (bus_client : Bool) :
    (∀ i ∈ bus.reply_callbacks_prioq,
      ((bus_start_running n bus_client bus).slot i).timeout_usec =
        usec_add n (bus.slot i).timeout_usec) ∧
    (∀ q : Prioq Nat Nat, (q.items.map PrioqItem.data).Perm bus.reply_callbacks_prioq →
      HeapOrder.Ordered (le (timeout_compare bus)) q.items →
        HeapOrder.Ordered (le (timeout_compare (bus_start_running n bus_client bus)))
          q.items ∧
        IsPeek (bus_start_running n bus_client bus) q.peek) ∧
    ∀ slots : List Nat, slots.Perm bus.reply_callbacks_prioq →
      HeapOrder.Ordered (le (timeout_compare (bus_start_running n bus_client bus)))
          (queue_of bus slots).items ∧
        IsPeek (bus_start_running n bus_client bus) (queue_of bus slots).peek := by
  obtain ⟨-, hpending, -⟩ := Pending.reachable h
  have hany : ∀ q : Prioq Nat Nat, (q.items.map PrioqItem.data).Perm bus.reply_callbacks_prioq →
      HeapOrder.Ordered (le (timeout_compare bus)) q.items →
        HeapOrder.Ordered (le (timeout_compare (bus_start_running n bus_client bus)))
          q.items ∧
        IsPeek (bus_start_running n bus_client bus) q.peek := by
    intro q hq hheap
    have hafter := hpending.start_running_ordered n bus_client hq hheap
    exact ⟨hafter, isPeek_of_heap hq hafter⟩
  refine ⟨fun i hi => hpending.start_running n bus_client hi, hany, ?_⟩
  intro slots hslots
  obtain ⟨hperm, hheap⟩ := queue_of_heap bus slots
  exact hany _ (hperm.trans hslots) hheap

/-- Two calls before the connection, of which the second has less time. -/
def waitingActs : List ReplyAct :=
  [.call_async (.good 0) true true (newCall 0) 50, .sent .good ⟨0, 1, false⟩,
   .call_async (.good 0) true true (newCall 0) 25, .sent .good ⟨1, 2, false⟩]

theorem start_running_heap_two :
    (queue_of (waitingActs.foldl ReplyAct.apply opening) [0, 1]).peek = some 1 ∧
    HeapOrder.Ordered
      (le (timeout_compare
        (bus_start_running 100 true (waitingActs.foldl ReplyAct.apply opening))))
      (queue_of (waitingActs.foldl ReplyAct.apply opening) [0, 1]).items := by
  have hopening : Reachable waiting opening :=
    .init ⟨fresh_init .opening, .inr (.inr (.inl rfl))⟩
  have hallowed : allowed (fun bus a => BeforeRunning (a.apply bus).state) opening waitingActs
      = true := by decide +kernel
  have hreach : Reachable waiting (waitingActs.foldl ReplyAct.apply opening) := by
    have hstep : ∀ s a s', Reachable waiting s →
        (replying.restrict fun bus a => BeforeRunning (a.apply bus).state).step s a s' →
        Reachable waiting s' := by
      intro s a s' hs ⟨hbefore, hst⟩
      exact .step hs ⟨hst, hst.2.2 ▸ hbefore⟩
    exact Run.invariant hstep (allowed_run hallowed) hopening
  exact ⟨by decide +kernel,
    ((start_running_heap hreach 100 true).2.2 [0, 1] (by decide +kernel)).1⟩

end SdCompat.Bus
