import Mathlib.Data.List.Nodup
import SdCompat.SdBus.ReplyCookies

/-! # Reply callbacks run once

    Where a callback is: in the table as long as it has a cookie, in the queue
    as long as it has a timeout. Whatever runs it takes it out of both first.
-/

open Transition

namespace SdCompat.Bus

open Call List Nat

variable {bus bus' : BusReplies}

/-! ## Section 1: The invariant -/

theorem setSlot_same (i : Nat) (f : ReplySlot → ReplySlot) :
    (bus.setSlot i f).slot i = f (bus.slot i) :=
  if_pos rfl

variable {i : Nat}

theorem setSlot_other {j : Nat} (f : ReplySlot → ReplySlot) (h : j ≠ i) :
    (bus.setSlot i f).slot j = bus.slot j :=
  if_neg h

/-- **Invariant**: a callback is in the queue iff it has a timeout, in the
    table iff it has a cookie, which then is that of its call. A call in
    progress still has its callback in the table. What has been run is in
    neither. -/
structure Consistent (bus : BusReplies) : Prop where
  queued : ∀ i, i ∈ bus.reply_callbacks_prioq ↔
    i < bus.n_slots ∧ (bus.slot i).connected = true ∧ (bus.slot i).timeout_usec ≠ 0
  prioq_nodup : bus.reply_callbacks_prioq.Nodup
  tabled : ∀ k i, (k, i) ∈ bus.reply_callbacks ↔
    i < bus.n_slots ∧ (bus.slot i).connected = true ∧ (bus.slot i).cookie = k ∧ k ≠ 0
  own : ∀ i < bus.n_slots, (bus.slot i).cookie ≠ 0 → (bus.slot i).cookie = (bus.slot i).call
  calls : ∀ call ∈ bus.calls, call.slot < bus.n_slots ∧
    (bus.slot call.slot).connected = true ∧ (bus.slot call.slot).cookie = call.cookie ∧
    call.cookie ≠ 0
  calls_nodup : (bus.calls.map AsyncCall.slot).Nodup
  invoked : ∀ v ∈ bus.invoked, v.slot < bus.n_slots ∧ (bus.slot v.slot).cookie = 0 ∧
    (bus.slot v.slot).timeout_usec = 0 ∧
    (v.synthetic = true ∨ v.reply_cookie = (bus.slot v.slot).call)
  once : (bus.invoked.map Invocation.slot).Nodup
  current : ∀ c, bus.current_slot = some c → ∃ v ∈ bus.invoked, v.slot = c

/-- Two callbacks in the table do not share a key. -/
theorem Keyed.slot_unique {k j : Nat} (h : Keyed bus) (hi : (k, i) ∈ bus.reply_callbacks)
    (hj : (k, j) ∈ bus.reply_callbacks) : i = j := by
  have := inj_on_of_nodup_map h.nodup hi hj rfl
  exact congrArg Prod.snd this

/-- What is neither the table nor the queue, when a slot is disconnected. -/
theorem disconnect_rest (hcon : (bus.slot i).connected = true) :
    (bus_slot_disconnect i bus).slot =
        (bus.setSlot i fun s => { s with connected := false }).slot ∧
      (bus_slot_disconnect i bus).n_slots = bus.n_slots ∧
      (bus_slot_disconnect i bus).calls = bus.calls ∧
      (bus_slot_disconnect i bus).invoked = bus.invoked ∧
      (bus_slot_disconnect i bus).current_slot = bus.current_slot := by
  unfold bus_slot_disconnect
  rw [if_pos hcon]
  dsimp only
  split
  · split
    · exact ⟨rfl, rfl, rfl, rfl, rfl⟩
    · exact ⟨rfl, rfl, rfl, rfl, rfl⟩
  · split
    · exact ⟨rfl, rfl, rfl, rfl, rfl⟩
    · exact ⟨rfl, rfl, rfl, rfl, rfl⟩

section steps
variable (hk : Keyed bus) (h : Consistent bus)

include hk h

variable {c : Nat}

/-- To remove the cookie of a callback is to remove the callback. -/
theorem Consistent.mem_remove (hc : c < bus.n_slots) (hcon : (bus.slot c).connected = true)
    (k i : Nat) : (k, i) ∈ (bus.remove (bus.slot c).cookie).reply_callbacks ↔
      (k, i) ∈ bus.reply_callbacks ∧ i ≠ c := by
  have hfilter : (k, i) ∈ (bus.remove (bus.slot c).cookie).reply_callbacks ↔
      (k, i) ∈ bus.reply_callbacks ∧ k ≠ (bus.slot c).cookie := by
    unfold BusReplies.remove
    simp
  rw [hfilter]
  constructor
  · intro ⟨hmem, hne⟩
    refine ⟨hmem, ?_⟩
    intro hic
    subst hic
    exact hne ((h.tabled k i).mp hmem).2.2.1.symm
  · intro ⟨hmem, hne⟩
    refine ⟨hmem, ?_⟩
    intro hkc
    have hnz := ((h.tabled k i).mp hmem).2.2.2
    have hmemc : (k, c) ∈ bus.reply_callbacks :=
      (h.tabled k c).mpr ⟨hc, hcon, hkc.symm, hnz⟩
    exact hne (hk.slot_unique hmem hmemc)

/-- A callback is taken out of the table. -/
theorem Consistent.drop_cookie (hc : c < bus.n_slots) (hcon : (bus.slot c).connected = true)
    (hcalls : ∀ call ∈ bus.calls, call.slot ≠ c) :
    Consistent ((bus.remove (bus.slot c).cookie).set_cookie c 0) := by
  have hslot : ∀ i, i ≠ c →
      ((bus.remove (bus.slot c).cookie).set_cookie c 0).slot i = bus.slot i := by
    intro i hne
    exact setSlot_other _ hne
  have hsame : ((bus.remove (bus.slot c).cookie).set_cookie c 0).slot c =
      { bus.slot c with cookie := 0 } :=
    setSlot_same _ _
  constructor
  · intro i
    by_cases hic : i = c
    · subst hic
      rw [hsame]
      exact h.queued i
    · rw [hslot i hic]
      exact h.queued i
  · exact h.prioq_nodup
  · intro k i
    show (k, i) ∈ (bus.remove (bus.slot c).cookie).reply_callbacks ↔ _
    rw [h.mem_remove hk hc hcon]
    by_cases hic : i = c
    · subst hic
      rw [hsame]
      constructor
      · intro ⟨_, hne⟩
        exact absurd rfl hne
      · intro ⟨_, _, hzero, hne⟩
        exact absurd hzero.symm hne
    · rw [hslot i hic]
      constructor
      · intro ⟨hmem, _⟩
        exact (h.tabled k i).mp hmem
      · intro hi
        exact ⟨(h.tabled k i).mpr hi, hic⟩
  · intro i hi
    by_cases hic : i = c
    · subst hic
      rw [hsame]
      intro hne
      exact absurd rfl hne
    · rw [hslot i hic]
      exact h.own i hi
  · intro call hcall
    rw [hslot _ (hcalls call hcall)]
    exact h.calls call hcall
  · exact h.calls_nodup
  · intro v hv
    by_cases hic : v.slot = c
    · rw [hic, hsame]
      have := h.invoked v hv
      rw [hic] at this
      exact ⟨this.1, rfl, this.2.2⟩
    · rw [hslot _ hic]
      exact h.invoked v hv
  · exact h.once
  · exact h.current

omit hk in
/-- A callback is taken out of the queue. -/
theorem Consistent.drop_timeout (c : Nat) : Consistent ((bus.dequeue c).set_timeout c 0) := by
  have hslot : ∀ i, i ≠ c → ((bus.dequeue c).set_timeout c 0).slot i = bus.slot i := by
    intro i hne
    exact setSlot_other _ hne
  have hsame : ((bus.dequeue c).set_timeout c 0).slot c =
      { bus.slot c with timeout_usec := 0 } :=
    setSlot_same _ _
  constructor
  · intro i
    show i ∈ bus.reply_callbacks_prioq.erase c ↔ _
    rw [h.prioq_nodup.mem_erase_iff]
    by_cases hic : i = c
    · subst hic
      rw [hsame]
      constructor
      · intro ⟨hne, _⟩
        exact absurd rfl hne
      · intro ⟨_, _, hne⟩
        exact absurd rfl hne
    · rw [hslot i hic]
      constructor
      · intro ⟨_, hmem⟩
        exact (h.queued i).mp hmem
      · intro hi
        exact ⟨hic, (h.queued i).mpr hi⟩
  · exact h.prioq_nodup.erase c
  · intro k i
    by_cases hic : i = c
    · subst hic
      rw [hsame]
      exact h.tabled k i
    · rw [hslot i hic]
      exact h.tabled k i
  · intro i hi
    by_cases hic : i = c
    · subst hic
      rw [hsame]
      exact h.own i hi
    · rw [hslot i hic]
      exact h.own i hi
  · intro call hcall
    by_cases hic : call.slot = c
    · rw [hic, hsame]
      have := h.calls call hcall
      rw [hic] at this
      exact this
    · rw [hslot _ hic]
      exact h.calls call hcall
  · exact h.calls_nodup
  · intro v hv
    by_cases hic : v.slot = c
    · rw [hic, hsame]
      have := h.invoked v hv
      rw [hic] at this
      exact ⟨this.1, this.2.1, rfl, this.2.2.2⟩
    · rw [hslot _ hic]
      exact h.invoked v hv
  · exact h.once
  · exact h.current

omit hk in
/-- A callback that has neither cookie nor timeout is run for the first time. -/
theorem Consistent.run {reply_cookie : Nat} {synthetic : Bool} (hc : c < bus.n_slots)
    (hcookie : (bus.slot c).cookie = 0) (htimeout : (bus.slot c).timeout_usec = 0)
    (hnot : ∀ v ∈ bus.invoked, v.slot ≠ c)
    (hreply : synthetic = true ∨ reply_cookie = (bus.slot c).call) :
    Consistent { bus with
      current_slot := some c, invoked := bus.invoked ++ [⟨c, reply_cookie, synthetic⟩] } :=
  { h with
    invoked := by
      intro v hv
      rcases mem_append.mp hv with hv | hv
      · exact h.invoked v hv
      · rw [mem_singleton.mp hv]
        exact ⟨hc, hcookie, htimeout, hreply⟩
    once := by
      rw [map_append, nodup_append]
      refine ⟨h.once, pairwise_singleton _ _, ?_⟩
      intro a ha b hb hab
      obtain ⟨v, hv, rfl⟩ := mem_map.mp ha
      apply hnot v hv
      rw [hab]
      exact mem_singleton.mp hb
    current := by
      intro c' hc'
      cases hc'
      exact ⟨_, mem_append_right _ (mem_singleton.mpr rfl), rfl⟩ }

/-- A slot is disconnected. -/
theorem Consistent.disconnect {i : Nat} (hi : i < bus.n_slots)
    (hcalls : ∀ call ∈ bus.calls, call.slot ≠ i) : Consistent (bus_slot_disconnect i bus) := by
  by_cases hcon : (bus.slot i).connected = true
  · -- neither in the table nor in the queue
    have htable : ∀ k j, (k, j) ∈ (bus_slot_disconnect i bus).reply_callbacks ↔
        (k, j) ∈ bus.reply_callbacks ∧ j ≠ i := by
      intro k j
      by_cases hcookie : (bus.slot i).cookie ≠ 0
      · rw [← h.mem_remove hk hi hcon]
        unfold bus_slot_disconnect
        rw [if_pos hcon, if_pos hcookie]
        dsimp only
        split
        · rfl
        · rfl
      · have hsame : (bus_slot_disconnect i bus).reply_callbacks = bus.reply_callbacks := by
          unfold bus_slot_disconnect
          rw [if_pos hcon, if_neg hcookie]
          dsimp only
          split
          · rfl
          · rfl
        rw [hsame]
        constructor
        · intro hmem
          refine ⟨hmem, ?_⟩
          intro hji
          subst hji
          obtain ⟨-, -, hk', hne⟩ := (h.tabled k j).mp hmem
          apply hcookie
          rw [hk']
          exact hne
        · exact And.left
    have hqueue : (bus_slot_disconnect i bus).reply_callbacks_prioq =
        bus.reply_callbacks_prioq.erase i := by
      have hno : (bus.slot i).timeout_usec = 0 →
          bus.reply_callbacks_prioq.erase i = bus.reply_callbacks_prioq := by
        intro hzero
        apply erase_of_not_mem
        intro hmem
        exact ((h.queued i).mp hmem).2.2 hzero
      unfold bus_slot_disconnect
      rw [if_pos hcon]
      dsimp only
      split
      · split
        · rfl
        · next hzero => exact (hno (not_not.mp hzero)).symm
      · split
        · rfl
        · next hzero => exact (hno (not_not.mp hzero)).symm
    obtain ⟨hslots, hn, hc, hv, hcur⟩ := disconnect_rest hcon
    have hslot : ∀ j, j ≠ i → (bus_slot_disconnect i bus).slot j = bus.slot j := by
      intro j hne
      rw [hslots]
      exact setSlot_other _ hne
    have hsame : (bus_slot_disconnect i bus).slot i = { bus.slot i with connected := false } := by
      rw [hslots]
      exact setSlot_same _ _
    constructor
    · intro j
      rw [hqueue, hn, h.prioq_nodup.mem_erase_iff, h.queued]
      by_cases hji : j = i
      · subst hji
        simp [hsame]
      · rw [hslot j hji]
        simp [hji]
    · rw [hqueue]
      exact h.prioq_nodup.erase i
    · intro k j
      rw [htable, hn, h.tabled]
      by_cases hji : j = i
      · subst hji
        simp [hsame]
      · rw [hslot j hji]
        simp [hji]
    · intro j hj
      rw [hn] at hj
      by_cases hji : j = i
      · subst hji
        rw [hsame]
        exact h.own j hj
      · rw [hslot j hji]
        exact h.own j hj
    · intro call hcall
      rw [hc] at hcall
      rw [hn, hslot _ (hcalls call hcall)]
      exact h.calls call hcall
    · rw [hc]
      exact h.calls_nodup
    · intro v hvm
      rw [hv] at hvm
      rw [hn]
      by_cases hji : v.slot = i
      · rw [hji, hsame]
        have := h.invoked v hvm
        rw [hji] at this
        exact this
      · rw [hslot _ hji]
        exact h.invoked v hvm
    · rw [hv]
      exact h.once
    · rw [hv, hcur]
      exact h.current
  · have hsame : bus_slot_disconnect i bus = bus := by
      unfold bus_slot_disconnect
      rw [if_neg hcon]
    rw [hsame]
    exact h

omit hk in
theorem Consistent.drop_timeout_if (c : Nat) :
    Consistent (if (bus.slot c).timeout_usec ≠ 0 then (bus.dequeue c).set_timeout c 0
      else bus) := by
  split
  · exact h.drop_timeout c
  · exact h

omit hk in
/-- What has a cookie or a timeout has not been run. -/
theorem Consistent.not_invoked (hc : (bus.slot c).cookie ≠ 0 ∨ (bus.slot c).timeout_usec ≠ 0) :
    ∀ v ∈ bus.invoked, v.slot ≠ c := by
  intro v hv hvc
  obtain ⟨-, hcookie, htimeout, -⟩ := h.invoked v hv
  rw [hvc] at hcookie htimeout
  rcases hc with hc | hc
  · exact hc hcookie
  · exact hc htimeout

/-! ## Section 2: Running a callback -/

omit hk in
theorem Consistent.set_floating (i : Nat) (floating : Bool) :
    Consistent (bus.setSlot i fun s => { s with floating := floating }) := by
  have hslot : ∀ j, ∃ f, (bus.setSlot i fun s => { s with floating := floating }).slot j =
      { bus.slot j with floating := f } := by
    intro j
    by_cases hji : j = i
    · subst hji
      exact ⟨floating, setSlot_same _ _⟩
    · exact ⟨(bus.slot j).floating, setSlot_other _ hji⟩
  constructor
  · intro j
    obtain ⟨f, hs⟩ := hslot j
    rw [hs]
    exact h.queued j
  · exact h.prioq_nodup
  · intro k j
    obtain ⟨f, hs⟩ := hslot j
    rw [hs]
    exact h.tabled k j
  · intro j hj
    obtain ⟨f, hs⟩ := hslot j
    rw [hs]
    exact h.own j hj
  · intro call hc
    obtain ⟨f, hs⟩ := hslot call.slot
    rw [hs]
    exact h.calls call hc
  · exact h.calls_nodup
  · intro v hv
    obtain ⟨f, hs⟩ := hslot v.slot
    rw [hs]
    exact h.invoked v hv
  · exact h.once
  · exact h.current

/-- A callback without timeout is taken out of the table and given an error. -/
theorem Consistent.fail_callback {cookie : Nat} (hc : c < bus.n_slots)
    (hcon : (bus.slot c).connected = true) (hcookie : (bus.slot c).cookie = cookie)
    (htimeout : (bus.slot c).timeout_usec = 0) (hcalls : ∀ call ∈ bus.calls, call.slot ≠ c)
    (hnot : ∀ v ∈ bus.invoked, v.slot ≠ c) :
    Leaves (invoke c cookie true) ((bus.remove cookie).set_cookie c 0) Consistent := by
  have htable := h.drop_cookie hk hc hcon hcalls
  rw [hcookie] at htable
  have hslot : ((bus.remove cookie).set_cookie c 0).slot c = { bus.slot c with cookie := 0 } :=
    setSlot_same _ _
  apply invoke_leaves htable
  apply htable.run hc
  · rw [hslot]
  · rw [hslot]
    exact htimeout
  · exact hnot
  · exact Or.inl rfl

/-- A timeout runs the callback that is first in the queue, unless its call is
    still in progress. -/
theorem Consistent.process_timeout {peek : Option Nat} (now : Nat) (synthetic : Outcome PUnit)
    (hpeek : IsPeek bus peek) (hcalls : ∀ call ∈ bus.calls, peek ≠ some call.slot) :
    Leaves (process_timeout peek now synthetic) bus Consistent := by
  match peek with
  | none => exact h
  | some c =>
    obtain ⟨hc, hcon, htimeout⟩ := (h.queued c).mp hpeek.1
    have hnot := h.not_invoked (Or.inr htimeout)
    apply leaves_get_bind
    split
    · exact h
    · apply leaves_lift_bind h
      intro _ _
      apply leaves_modify_bind
      apply leaves_modify_bind
      -- out of the queue first, and out of the table next
      have hslot : ((bus.dequeue c).set_timeout c 0).slot c =
          { bus.slot c with timeout_usec := 0 } :=
        setSlot_same _ _
      have hkeyed := hk.fewer ((Fewer.refl.dequeue c).set_timeout c 0)
      apply (h.drop_timeout c).fail_callback hkeyed hc
      · rw [hslot]
        exact hcon
      · rw [hslot]
      · rw [hslot]
      · intro call hcall heq
        exact hcalls call hcall (congrArg some heq.symm)
      · exact hnot

/-- A reply runs the callback of the call it answers. -/
theorem Consistent.process_reply (m : SdBusMessage) (synthetic rewind : Outcome PUnit)
    (hcalls : ∀ call ∈ bus.calls, (m.reply_cookie, call.slot) ∉ bus.reply_callbacks) :
    Leaves (process_reply m synthetic rewind) bus Consistent := by
  apply leaves_get_bind
  split
  · exact h
  split
  · exact h
  split
  · exact h
  · next k c hfind =>
    have hkey : k = m.reply_cookie := by
      have := find?_some hfind
      simpa using this
    have hmem : (m.reply_cookie, c) ∈ bus.reply_callbacks := by
      rw [← hkey]
      exact mem_of_find?_eq_some hfind
    obtain ⟨hc, hcon, hcookie, hne⟩ := (h.tabled _ c).mp hmem
    have hcookie_ne : (bus.slot c).cookie ≠ 0 := by
      rw [hcookie]
      exact hne
    have hnot := h.not_invoked (Or.inl hcookie_ne)
    have hcall : m.reply_cookie = (bus.slot c).call := by
      rw [← hcookie]
      exact h.own c hc hcookie_ne
    have hother : ∀ call ∈ bus.calls, call.slot ≠ c := by
      intro call hcall heq
      apply hcalls call hcall
      rw [heq]
      exact hmem
    have htable := h.drop_cookie hk hc hcon hother
    rw [hcookie] at htable
    apply leaves_modify_bind
    apply leaves_lift_bind htable
    intro _ _
    apply leaves_modify_bind
    have hqueue := htable.drop_timeout_if c
    have hslot : ((bus.remove m.reply_cookie).set_cookie c 0).slot c =
        { bus.slot c with cookie := 0 } :=
      setSlot_same _ _
    apply invoke_leaves hqueue
    split
    · have hsame : ((((bus.remove m.reply_cookie).set_cookie c 0).dequeue c).set_timeout c
          0).slot c = { bus.slot c with cookie := 0, timeout_usec := 0 } := by
        rw [BusReplies.set_timeout, setSlot_same]
        show { ((bus.remove m.reply_cookie).set_cookie c 0).slot c with timeout_usec := 0 } = _
        rw [hslot]
      apply (htable.drop_timeout c).run hc
      · rw [hsame]
      · rw [hsame]
      · exact hnot
      · right
        rw [hsame]
        exact hcall
    · next hzero =>
      apply htable.run hc
      · rw [hslot]
      · exact not_not.mp hzero
      · exact hnot
      · right
        rw [hslot]
        exact hcall

/-- The end of the connection runs the first callback of the table. -/
theorem Consistent.process_closing (synthetic : Outcome PUnit) (hcalls : ∀ call ∈ bus.calls,
      bus.reply_callbacks.head?.map Prod.snd ≠ some call.slot) :
    Leaves (process_closing synthetic) bus Consistent := by
  apply leaves_get_bind
  split
  · exact h
  · next k c hhead =>
    obtain ⟨hc, hcon, hcookie, hne⟩ := (h.tabled k c).mp (mem_of_head? hhead)
    have hcookie_ne : (bus.slot c).cookie ≠ 0 := by
      rw [hcookie]
      exact hne
    have hnot := h.not_invoked (Or.inl hcookie_ne)
    have hother : ∀ call ∈ bus.calls, call.slot ≠ c := by
      intro call hcall heq
      apply hcalls call hcall
      rw [hhead, heq]
      rfl
    apply leaves_lift_bind h
    intro _ _
    apply leaves_modify_bind
    apply leaves_modify_bind
    have hkeyed := hk.fewer (Fewer.refl.drop_timeout c)
    have hqueue := h.drop_timeout_if c
    split at hqueue
    · next htimeout =>
      rw [if_pos htimeout] at hkeyed ⊢
      have hslot : ((bus.dequeue c).set_timeout c 0).slot c =
          { bus.slot c with timeout_usec := 0 } :=
        setSlot_same _ _
      apply hqueue.fail_callback hkeyed hc
      · rw [hslot]
        exact hcon
      · rw [hslot]
      · rw [hslot]
      · exact hother
      · exact hnot
    · next hzero =>
      rw [if_neg hzero]
      exact h.fail_callback hk hc hcon rfl (not_not.mp hzero) hother hnot

/-- A callback that has returned; its slot goes if it is floating. -/
theorem Consistent.callback_returns {i : Nat} (hi : bus.current_slot = some i) :
    Consistent (callback_returns i bus) := by
  have hnone : Consistent { bus with current_slot := none } :=
    { h with
      current := by
        intro c hc
        cases hc }
  obtain ⟨v, hv, rfl⟩ := h.current i hi
  obtain ⟨hlt, hcookie, -, -⟩ := h.invoked v hv
  unfold SdCompat.Bus.callback_returns
  dsimp only
  split
  · have hkeyed : Keyed { bus with current_slot := none } :=
      ⟨hk.cookie_le, hk.keys_le, hk.nodup, hk.call, hk.calls_le⟩
    apply hnone.disconnect hkeyed hlt
    intro call hcall heq
    obtain ⟨-, -, hsame, hne⟩ := h.calls call hcall
    rw [heq, hcookie] at hsame
    exact hne hsame.symm
  · exact hnone

end steps

/-! ## Section 3: Making a call -/

theorem Consistent.with_cookie (c : Nat) (h : Consistent bus) :
    Consistent { bus with cookie := c } :=
  ⟨h.queued, h.prioq_nodup, h.tabled, h.own, h.calls, h.calls_nodup, h.invoked, h.once, h.current⟩

/-- A slot is allocated: it is nowhere yet. -/
theorem Consistent.allocate (floating callback : Bool) (cookie : Nat) (h : Consistent bus) :
    Consistent (bus_slot_allocate floating callback cookie bus) := by
  have hslot : ∀ i, i < bus.n_slots →
      (bus_slot_allocate floating callback cookie bus).slot i = bus.slot i := by
    intro i hi
    exact if_neg (Nat.ne_of_lt hi)
  have hlast : (bus_slot_allocate floating callback cookie bus).slot bus.n_slots =
      ⟨callback, 0, 0, floating, true, cookie⟩ :=
    if_pos rfl
  have hlt : ∀ i, i < bus.n_slots + 1 → i < bus.n_slots ∨ i = bus.n_slots := by
    omega
  constructor
  · intro i
    show i ∈ bus.reply_callbacks_prioq ↔ i < bus.n_slots + 1 ∧ _
    rw [h.queued]
    constructor
    · intro ⟨hi, hrest⟩
      rw [hslot i hi]
      exact ⟨lt_succ_of_lt hi, hrest⟩
    · intro ⟨hi, hcon, htimeout⟩
      rcases hlt i hi with hi | rfl
      · rw [hslot i hi] at hcon htimeout
        exact ⟨hi, hcon, htimeout⟩
      · rw [hlast] at htimeout
        exact absurd rfl htimeout
  · exact h.prioq_nodup
  · intro k i
    show (k, i) ∈ bus.reply_callbacks ↔ i < bus.n_slots + 1 ∧ _
    rw [h.tabled]
    constructor
    · intro ⟨hi, hrest⟩
      rw [hslot i hi]
      exact ⟨lt_succ_of_lt hi, hrest⟩
    · intro ⟨hi, hcon, hcookie, hne⟩
      rcases hlt i hi with hi | rfl
      · rw [hslot i hi] at hcon hcookie
        exact ⟨hi, hcon, hcookie, hne⟩
      · rw [hlast] at hcookie
        exact absurd hcookie.symm hne
  · intro i hi
    rcases hlt i hi with hi | rfl
    · rw [hslot i hi]
      exact h.own i hi
    · rw [hlast]
      intro hne
      exact absurd rfl hne
  · intro call hcall
    have := h.calls call hcall
    rw [hslot _ this.1]
    exact ⟨lt_succ_of_lt this.1, this.2⟩
  · exact h.calls_nodup
  · intro v hv
    have := h.invoked v hv
    rw [hslot _ this.1]
    exact ⟨lt_succ_of_lt this.1, this.2⟩
  · exact h.once
  · exact h.current

/-- An entry of the table, with the cookie in its slot. -/
def BusReplies.tabled (cookie i : Nat) (bus : BusReplies) : BusReplies :=
  { bus.set_cookie i cookie with reply_callbacks := bus.reply_callbacks ++ [(cookie, i)] }

/-- An entry of the queue, with the timeout in its slot. -/
def BusReplies.queued (timeout_usec i : Nat) (bus : BusReplies) : BusReplies :=
  { bus.set_timeout i timeout_usec with
    reply_callbacks_prioq := i :: bus.reply_callbacks_prioq }

variable (bus) in
/-- Where `reply_callback_put` comes to an end. -/
theorem reply_callback_put_cases (env : CallEnv) (i cookie timeout : Nat) :
    (∃ e, reply_callback_put env i cookie timeout bus =
      (.err e, (bus.set_cookie i cookie).set_cookie i 0)) ∨ (bus.contains cookie = false ∧
      ((∃ e, reply_callback_put env i cookie timeout bus = (.err e, bus.tabled cookie i)) ∨
        reply_callback_put env i cookie timeout bus = (.ok ⟨⟩, bus.tabled cookie i) ∨
        ∃ t, t ≠ 0 ∧ reply_callback_put env i cookie timeout bus =
          (.ok ⟨⟩, (bus.tabled cookie i).queued t i))) := by
  unfold reply_callback_put
  rw [modify_bind_run, get_bind_run]
  by_cases hor : ((bus.set_cookie i cookie).contains cookie || !env.table_mem) = true
  · rw [if_pos hor]
    left
    exact ⟨_, rfl⟩
  · rw [if_neg hor]
    right
    rw [Bool.or_eq_true, not_or] at hor
    refine ⟨Bool.eq_false_iff.mpr hor.1, ?_⟩
    by_cases htimeout : calc_elapse (bus.set_cookie i cookie).state env.now timeout = 0
    · rw [if_pos htimeout]
      right
      left
      rfl
    · rw [if_neg htimeout]
      by_cases hmem : env.entry_mem = true
      · rw [if_pos hmem]
        right
        right
        exact ⟨_, htimeout, rfl⟩
      · rw [if_neg hmem]
        left
        exact ⟨_, rfl⟩

/-- Nothing is left of a cookie that was set back. -/
theorem set_cookie_back (cookie : Nat) (h : (bus.slot i).cookie = 0) :
    (bus.set_cookie i cookie).set_cookie i 0 = bus := by
  have hslot : ((bus.set_cookie i cookie).set_cookie i 0).slot = bus.slot := by
    funext j
    by_cases hji : j = i
    · subst hji
      rw [BusReplies.set_cookie, setSlot_same, BusReplies.set_cookie, setSlot_same, ← h]
    · rw [BusReplies.set_cookie, setSlot_other _ hji, BusReplies.set_cookie,
        setSlot_other _ hji]
  show { bus with slot := ((bus.set_cookie i cookie).set_cookie i 0).slot } = bus
  rw [hslot]

variable {cookie : Nat}

variable (bus) in
/-- Nothing changes where the cookie is there already. -/
theorem set_cookie_same (h : (bus.slot i).cookie = cookie) : bus.set_cookie i cookie = bus := by
  have hslot : (bus.set_cookie i cookie).slot = bus.slot := by
    funext j
    by_cases hji : j = i
    · subst hji
      rw [BusReplies.set_cookie, setSlot_same, ← h]
    · rw [BusReplies.set_cookie, setSlot_other _ hji]
  show { bus with slot := (bus.set_cookie i cookie).slot } = bus
  rw [hslot]

variable {P : BusReplies → Prop}

/-- What `sd_bus_call_async` leaves behind, from the slot on. -/
theorem leaves_register (env : CallEnv) (waits : BusReplies → Bool) (timeout : Nat) (hk : Keyed bus)
    (h : P bus) (hle : cookie ≤ bus.cookie) (hi : i < bus.n_slots) (hzero : (bus.slot i).cookie = 0)
    (hcall : (bus.slot i).call = cookie) (htable : P (bus.tabled cookie i))
    (hqueue : ∀ t, t ≠ 0 → P ((bus.tabled cookie i).queued t i))
    (hdisconnect : ∀ b, Keyed b → P b → i < b.n_slots → b.calls = bus.calls → P (bus_slot_disconnect i b))
    (hbegin : ∀ b w, P b → i < b.n_slots → b.calls = bus.calls → (b.slot i).connected = (bus.slot i).connected → (b.slot i).cookie = cookie → P { b with calls := ⟨i, cookie, w⟩ :: b.calls }) :
    Leaves (register env waits cookie timeout i) bus P := by
  unfold Leaves register
  rw [bind_run]
  unfold or_free
  have hset : (bus.tabled cookie i).slot i = { bus.slot i with cookie := cookie } := by
    show (bus.set_cookie i cookie).slot i = _
    exact setSlot_same _ _
  rcases reply_callback_put_cases bus env i cookie timeout with ⟨e, hr⟩ | ⟨hnew, hcases⟩
  · rw [hr, set_cookie_back _ hzero]
    exact hdisconnect bus hk h hi rfl
  rcases hcases with ⟨e, hr⟩ | hr | ⟨t, ht, hr⟩
  · rw [hr]
    have hkt : Keyed (bus.tabled cookie i) := by
      have hfewer := hk.fewer (Fewer.refl.set_cookie i cookie)
      apply hfewer.put hnew hle hi
      rw [BusReplies.set_cookie, setSlot_same, hcall]
    exact hdisconnect _ hkt htable hi rfl
  · rw [hr]
    apply hbegin _ _ htable hi rfl
    · rw [hset]
    · rw [hset]
  · rw [hr]
    have hset' : ((bus.tabled cookie i).queued t i).slot i =
        { bus.slot i with cookie := cookie, timeout_usec := t } := by
      show ((bus.tabled cookie i).set_timeout i t).slot i = _
      rw [BusReplies.set_timeout, setSlot_same, hset]
    apply hbegin _ _ (hqueue t ht) hi rfl
    · rw [hset']
    · rw [hset']

variable {call : AsyncCall}

/-- What the end of `sd_bus_call_async` leaves behind, where the cookie that is
    written is there already. -/
theorem leaves_sent (env : SentEnv) (hk : Keyed bus) (hcall : call ∈ bus.calls)
    (hcookie : (bus.slot call.slot).cookie = call.cookie)
    (hend : P { bus with calls := bus.calls.erase call })
    (hraise : P { bus with calls := bus.calls.erase call, cookie := max bus.cookie call.cookie })
    (hdisconnect : ∀ b, Keyed b → P b → b.n_slots = bus.n_slots → b.calls = bus.calls.erase call → P (bus_slot_disconnect call.slot b)) :
    Leaves (sd_bus_call_async_sent env call) bus P := by
  have hfree := hdisconnect _ hk.erase hend rfl rfl
  have hfree' := hdisconnect _ (hk.erase_raise hcall) hraise rfl rfl
  apply leaves_modify_bind
  unfold Leaves or_free
  match env.can_send with
  | .err e => exact hfree
  | .abort => exact hend
  | .ok _ =>
    rw [lift_bind_run_ok rfl, modify_bind_run]
    match env.sent with
    | .err e => exact hfree'
    | .abort => exact hraise
    | .ok _ =>
      rw [lift_bind_run_ok rfl, modify_run]
      have hsame := set_cookie_same { bus with
        calls := bus.calls.erase call, cookie := max bus.cookie call.cookie } hcookie
      rw [hsame]
      exact hraise

section put
variable (h : Consistent bus) {i : Nat} (hi : i < bus.n_slots)
  (hcon : (bus.slot i).connected = true) (hcalls : ∀ call ∈ bus.calls, call.slot ≠ i)
  (hnot : ∀ v ∈ bus.invoked, v.slot ≠ i)

include h hi hcon hnot

variable {cookie : Nat}

include hcalls in
/-- A new callback goes in the table. -/
theorem Consistent.put_table (hzero : (bus.slot i).cookie = 0) (hcall : (bus.slot i).call = cookie)
    (hne : cookie ≠ 0) : Consistent (bus.tabled cookie i) := by
  have hslot : ∀ j, j ≠ i → (bus.tabled cookie i).slot j = bus.slot j := by
    intro j hji
    show (bus.set_cookie i cookie).slot j = _
    exact setSlot_other _ hji
  have hsame : (bus.tabled cookie i).slot i = { bus.slot i with cookie := cookie } := by
    show (bus.set_cookie i cookie).slot i = _
    exact setSlot_same _ _
  constructor
  · intro j
    by_cases hji : j = i
    · subst hji
      rw [hsame]
      exact h.queued j
    · rw [hslot j hji]
      exact h.queued j
  · exact h.prioq_nodup
  · intro k j
    show (k, j) ∈ bus.reply_callbacks ++ [(cookie, i)] ↔ _
    rw [mem_append, mem_singleton, h.tabled]
    by_cases hji : j = i
    · subst hji
      rw [hsame]
      constructor
      · intro hor
        rcases hor with ⟨-, -, hk, hk0⟩ | heq
        · rw [hzero] at hk
          exact absurd hk.symm hk0
        · cases heq
          exact ⟨hi, hcon, rfl, hne⟩
      · intro ⟨_, _, hk, _⟩
        right
        rw [← hk]
    · rw [hslot j hji]
      constructor
      · intro hor
        rcases hor with hold | heq
        · exact hold
        · cases heq
          exact absurd rfl hji
      · exact Or.inl
  · intro j hj
    by_cases hji : j = i
    · subst hji
      rw [hsame]
      intro _
      exact hcall.symm
    · rw [hslot j hji]
      exact h.own j hj
  · intro call hc
    rw [hslot _ (hcalls call hc)]
    exact h.calls call hc
  · exact h.calls_nodup
  · intro v hv
    rw [hslot _ (hnot v hv)]
    exact h.invoked v hv
  · exact h.once
  · exact h.current

/-- A callback with a timeout goes in the queue. -/
theorem Consistent.put_queue {timeout_usec : Nat} (hzero : (bus.slot i).timeout_usec = 0)
    (hne : timeout_usec ≠ 0) : Consistent (bus.queued timeout_usec i) := by
  have hslot : ∀ j, j ≠ i → (bus.queued timeout_usec i).slot j = bus.slot j := by
    intro j hji
    show (bus.set_timeout i timeout_usec).slot j = _
    exact setSlot_other _ hji
  have hsame : (bus.queued timeout_usec i).slot i =
      { bus.slot i with timeout_usec := timeout_usec } := by
    show (bus.set_timeout i timeout_usec).slot i = _
    exact setSlot_same _ _
  constructor
  · intro j
    show j ∈ i :: bus.reply_callbacks_prioq ↔ _
    rw [mem_cons, h.queued]
    by_cases hji : j = i
    · subst hji
      rw [hsame]
      constructor
      · intro _
        exact ⟨hi, hcon, hne⟩
      · intro _
        exact Or.inl rfl
    · rw [hslot j hji]
      constructor
      · intro hor
        exact hor.resolve_left hji
      · exact Or.inr
  · apply nodup_cons.mpr
    refine ⟨?_, h.prioq_nodup⟩
    intro hmem
    exact ((h.queued i).mp hmem).2.2 hzero
  · intro k j
    by_cases hji : j = i
    · subst hji
      rw [hsame]
      exact h.tabled k j
    · rw [hslot j hji]
      exact h.tabled k j
  · intro j hj
    by_cases hji : j = i
    · subst hji
      rw [hsame]
      exact h.own j hj
    · rw [hslot j hji]
      exact h.own j hj
  · intro call hc
    by_cases hji : call.slot = i
    · have := h.calls call hc
      rw [hji] at this ⊢
      rw [hsame]
      exact this
    · rw [hslot _ hji]
      exact h.calls call hc
  · exact h.calls_nodup
  · intro v hv
    rw [hslot _ (hnot v hv)]
    exact h.invoked v hv
  · exact h.once
  · exact h.current

omit hnot hi in
include hcalls in
/-- The call is in progress. -/
theorem Consistent.begin_call (waits : Bool) (hi : i < bus.n_slots)
    (hcookie : (bus.slot i).cookie = cookie) (hne : cookie ≠ 0) :
    Consistent { bus with calls := ⟨i, cookie, waits⟩ :: bus.calls } :=
  { h with
    calls := by
      intro call hc
      rcases mem_cons.mp hc with rfl | hc
      · exact ⟨hi, hcon, hcookie, hne⟩
      · exact h.calls call hc
    calls_nodup := by
      apply nodup_cons.mpr
      refine ⟨?_, h.calls_nodup⟩
      intro hmem
      obtain ⟨call, hc, heq⟩ := mem_map.mp hmem
      exact hcalls call hc heq }

end put

/-- `sd_bus_call_async`, for a message that has no cookie yet or another one
    than 0. -/
theorem Consistent.call_async (env : CallEnv) (floating callback : Bool) {m : CallMessage}
    (usec : Nat) (hk : Keyed bus) (h : Consistent bus) (hm : m.sealed = true → m.cookie ≠ 0) :
    Leaves (sd_bus_call_async env floating callback m usec) bus Consistent := by
  apply leaves_call_async bus env floating callback m usec hk h fun c _ => h.with_cookie c
  intro bus m' waits timeout h hk hle hzero
  have hne : m'.cookie ≠ 0 := by
    intro h0
    obtain ⟨hs, hc⟩ := hzero h0
    exact hm hs hc
  have hb := h.allocate floating callback m'.cookie
  have hkb := hk.allocate floating callback m'.cookie
  have hi : bus.n_slots < (bus_slot_allocate floating callback m'.cookie bus).n_slots :=
    lt_succ_self _
  have hslot : (bus_slot_allocate floating callback m'.cookie bus).slot bus.n_slots =
      ⟨callback, 0, 0, floating, true, m'.cookie⟩ :=
    if_pos rfl
  have hcalls : ∀ call ∈ (bus_slot_allocate floating callback m'.cookie bus).calls,
      call.slot ≠ bus.n_slots := by
    intro call hc
    exact Nat.ne_of_lt (h.calls call hc).1
  have hnot : ∀ v ∈ (bus_slot_allocate floating callback m'.cookie bus).invoked,
      v.slot ≠ bus.n_slots := by
    intro v hv
    exact Nat.ne_of_lt (h.invoked v hv).1
  have hleb : m'.cookie ≤ (bus_slot_allocate floating callback m'.cookie bus).cookie := hle
  generalize bus_slot_allocate floating callback m'.cookie bus = b at *
  generalize bus.n_slots = i at *
  have hcon : (b.slot i).connected = true := by rw [hslot]
  have hset : (b.tabled m'.cookie i).slot i = { b.slot i with cookie := m'.cookie } := by
    show (b.set_cookie i m'.cookie).slot i = _
    exact setSlot_same _ _
  have htable : Consistent (b.tabled m'.cookie i) := by
    apply hb.put_table hi hcon hcalls hnot
    · rw [hslot]
    · rw [hslot]
    · exact hne
  apply leaves_register env waits timeout hkb hb hleb hi
  · rw [hslot]
  · rw [hslot]
  · exact htable
  · intro t ht
    apply htable.put_queue hi _ hnot _ ht
    · rw [hset]
      exact hcon
    · rw [hset, hslot]
  · intro b' hk' h' hi' hsame
    exact h'.disconnect hk' hi' (hsame ▸ hcalls)
  · intro b' w h' hi' hsame hconnected hcookie
    apply h'.begin_call _ (hsame ▸ hcalls) w hi' hcookie hne
    rw [hconnected, hcon]

/-- The end of `sd_bus_call_async`: the callback has not been taken out of the
    table. -/
theorem Consistent.sent (env : SentEnv) (hk : Keyed bus) (h : Consistent bus)
    (hcall : call ∈ bus.calls) : Leaves (sd_bus_call_async_sent env call) bus Consistent := by
  obtain ⟨hi, hcon, hcookie, hne⟩ := h.calls call hcall
  have hperm := (perm_cons_erase hcall).map AsyncCall.slot
  obtain ⟨hother, hnodup⟩ := nodup_cons.mp (hperm.nodup h.calls_nodup)
  have hend : Consistent { bus with calls := bus.calls.erase call } :=
    { h with
      calls := fun c hc => h.calls c (mem_of_mem_erase hc)
      calls_nodup := hnodup }
  have hcalls : ∀ c ∈ bus.calls.erase call, c.slot ≠ call.slot := by
    intro c hc heq
    apply hother
    rw [← heq]
    exact mem_map_of_mem hc
  apply leaves_sent env hk hcall hcookie hend (hend.with_cookie _)
  intro b hkb hb hn hsame
  exact hb.disconnect hkb (hn ▸ hi) (hsame ▸ hcalls)

theorem usec_add_ne_zero (n : Nat) {t : Nat} (ht : t ≠ 0) : usec_add n t ≠ 0 := by
  unfold usec_add
  split
  · decide
  · omega

/-- The timeouts start, and none is 0 after that that was not before. -/
theorem Consistent.start_running (n : Nat) (bus_client : Bool) (h : Consistent bus) :
    Consistent (bus_start_running n bus_client bus) := by
  have hslot : ∀ i, ∃ t, (t = 0 ↔ (bus.slot i).timeout_usec = 0) ∧
      (bus_start_running n bus_client bus).slot i = { bus.slot i with timeout_usec := t } := by
    intro i
    unfold bus_start_running
    dsimp only
    split
    · next hcond =>
      refine ⟨_, ?_, rfl⟩
      constructor
      · intro hzero
        exact absurd hzero (usec_add_ne_zero n hcond.1)
      · intro hzero
        exact absurd hzero hcond.1
    · exact ⟨_, Iff.rfl, rfl⟩
  constructor
  · intro i
    obtain ⟨t, ht, hs⟩ := hslot i
    rw [hs, ne_eq, ht]
    exact h.queued i
  · exact h.prioq_nodup
  · intro k i
    obtain ⟨t, -, hs⟩ := hslot i
    rw [hs]
    exact h.tabled k i
  · intro i hi
    obtain ⟨t, -, hs⟩ := hslot i
    rw [hs]
    exact h.own i hi
  · intro call hc
    obtain ⟨t, -, hs⟩ := hslot call.slot
    rw [hs]
    exact h.calls call hc
  · exact h.calls_nodup
  · intro v hv
    obtain ⟨t, ht, hs⟩ := hslot v.slot
    obtain ⟨hlt, hcookie, htimeout, hreply⟩ := h.invoked v hv
    rw [hs]
    exact ⟨hlt, hcookie, ht.mpr htimeout, hreply⟩
  · exact h.once
  · exact h.current

/-! ## Section 4: Runs -/

/-- No callback is taken out of the table or the queue while its own call is
    still in `sd_bus_send`, and no call is made with a message that was sealed
    with the cookie 0. -/
def ReplyAct.clean (bus : BusReplies) : ReplyAct → Prop
  | .call_async _ _ _ m _ => m.sealed = true → m.cookie ≠ 0
  | .timeout peek _ _ => ∀ call ∈ bus.calls, peek ≠ some call.slot
  | .reply m _ _ => ∀ call ∈ bus.calls, (m.reply_cookie, call.slot) ∉ bus.reply_callbacks
  | .closing _ => ∀ call ∈ bus.calls, bus.reply_callbacks.head?.map Prod.snd ≠ some call.slot
  | .send _ _ _ | .sent _ _ | .returns _ | .disconnect _ | .set_floating _ _
  | .start_running _ _ | .enter _ _ _ => True

theorem Consistent.init (h : replying.init bus) : Consistent bus := by
  obtain ⟨-, htable, hqueue, hn, hcurrent, hcalls, hinvoked⟩ := h
  constructor
  · intro i
    rw [hqueue, hn]
    simp
  · rw [hqueue]
    exact nodup_nil
  · intro k i
    rw [htable, hn]
    simp
  · intro i hi
    rw [hn] at hi
    exact absurd hi (not_lt_zero i)
  · intro call hc
    rw [hcalls] at hc
    cases hc
  · rw [hcalls]
    exact nodup_nil
  · intro v hv
    rw [hinvoked] at hv
    cases hv
  · rw [hinvoked]
    exact nodup_nil
  · intro c hc
    rw [hcurrent] at hc
    cases hc

theorem Consistent.step {a : ReplyAct} (hk : Keyed bus) (h : Consistent bus)
    (hst : (replying.restrict fun bus a => a.clean bus).step bus a bus') : Consistent bus' := by
  obtain ⟨hclean, hen, -, rfl⟩ := hst
  cases a with
  | send env m usec =>
    have hsame := (bus_seal_message_spec bus env m usec hk).1
    show Consistent (bus_seal_message env m usec bus).2
    rw [hsame]
    exact h.with_cookie _
  | call_async env floating callback m usec =>
    exact h.call_async env floating callback usec hk hclean
  | sent env call => exact h.sent env hk hen
  | timeout peek now synthetic => exact h.process_timeout hk now synthetic hen.2.2 hclean
  | reply m synthetic rewind => exact h.process_reply hk m synthetic rewind hclean
  | closing synthetic => exact h.process_closing hk synthetic hclean
  | returns i => exact h.callback_returns hk hen
  | disconnect i => exact h.disconnect hk hen.1 hen.2
  | set_floating i floating => exact h.set_floating i floating
  | start_running n bus_client => exact h.start_running n bus_client
  | enter state unique_name accept_fd =>
    exact ⟨h.queued, h.prioq_nodup, h.tabled, h.own, h.calls, h.calls_nodup, h.invoked, h.once,
      h.current⟩

/-- **Reply callbacks**: along every clean run, a callback is run once at most,
    with the reply to its own call or with an error made here, and in every
    state it is in the queue iff it has a timeout and in the table iff it has a
    cookie. -/
theorem reply_callbacks_once (h : Reachable (replying.restrict fun bus a => a.clean bus) bus) :
    (bus.invoked.map Invocation.slot).Nodup ∧
    (∀ v ∈ bus.invoked, v.synthetic = true ∨ v.reply_cookie = (bus.slot v.slot).call) ∧
    ∀ i < bus.n_slots, (bus.slot i).connected = true →
      (i ∈ bus.reply_callbacks_prioq ↔ (bus.slot i).timeout_usec ≠ 0) ∧
      ((∃ k, (k, i) ∈ bus.reply_callbacks) ↔ (bus.slot i).cookie ≠ 0) := by
  have hinit : ∀ s, (replying.restrict fun bus a => a.clean bus).init s →
      Keyed s ∧ Consistent s := by
    intro s hs
    exact ⟨Keyed.init hs, Consistent.init hs⟩
  have hstep : ∀ s a s', Keyed s ∧ Consistent s →
      (replying.restrict fun bus a => a.clean bus).step s a s' → Keyed s' ∧ Consistent s' := by
    intro s a s' hs hst
    exact ⟨hs.1.step hst.2, hs.2.step hs.1 hst⟩
  obtain ⟨-, hcon⟩ := Reachable.invariant hinit hstep h
  refine ⟨hcon.once, fun v hv => (hcon.invoked v hv).2.2.2, ?_⟩
  intro i hi hc
  constructor
  · rw [hcon.queued]
    constructor
    · intro hq
      exact hq.2.2
    · intro hne
      exact ⟨hi, hc, hne⟩
  · constructor
    · intro ⟨k, hk⟩
      obtain ⟨-, -, hcookie, hne⟩ := (hcon.tabled k i).mp hk
      rw [hcookie]
      exact hne
    · intro hne
      exact ⟨_, (hcon.tabled _ i).mpr ⟨hi, hc, rfl, hne⟩⟩

instance (bus : BusReplies) (a : ReplyAct) : Decidable (a.clean bus) :=
  match a with
  | .call_async _ _ _ m _ => inferInstanceAs (Decidable (m.sealed = true → m.cookie ≠ 0))
  | .timeout peek _ _ => inferInstanceAs (Decidable (∀ call ∈ bus.calls, peek ≠ some call.slot))
  | .reply m _ _ => inferInstanceAs (Decidable
      (∀ call ∈ bus.calls, (m.reply_cookie, call.slot) ∉ bus.reply_callbacks))
  | .closing _ => inferInstanceAs (Decidable
      (∀ call ∈ bus.calls, bus.reply_callbacks.head?.map Prod.snd ≠ some call.slot))
  | .send _ _ _ | .sent _ _ | .returns _ | .disconnect _ | .set_floating _ _
  | .start_running _ _ | .enter _ _ _ => inferInstanceAs (Decidable True)

/-- A call as it is made, with so many descriptors. -/
def newCall (n_fds : Nat) : CallMessage where
  type := SD_BUS_MESSAGE_METHOD_CALL
  no_reply_expected := false
  n_fds := n_fds
  sealed := false
  cookie := 0
  timeout := 0
  cookie_le := zero_le _

/-- A reply without a body. -/
def plainReturn (reply_cookie : Nat) : SdBusMessage :=
  { sd_bus_message_new SD_BUS_MESSAGE_METHOD_RETURN true false with reply_cookie := reply_cookie }

/-- A bus comes up, with `Hello`; of two calls one is answered, the other has
    its time; the third is there when the connection ends. -/
def replyActs : List ReplyAct :=
  [.call_async (.good 0) true true (newCall 0) 0, .sent .good ⟨0, 1, false⟩,
   .start_running 100 true,
   .reply (plainReturn 1) (.ok ⟨⟩) (.ok ⟨⟩), .enter .running none true, .returns 0,
   .call_async (.good 200) false true (newCall 0) 50, .sent .good ⟨1, 2, false⟩,
   .call_async (.good 210) true true (newCall 0) 50, .sent .good ⟨2, 3, false⟩,
   .call_async (.good 220) true true (newCall 0) 50, .sent .good ⟨3, 4, false⟩,
   .reply (plainReturn 3) (.ok ⟨⟩) (.ok ⟨⟩), .returns 2,
   .timeout (some 1) 250 (.ok ⟨⟩), .returns 1,
   .enter .closing none true, .closing (.ok ⟨⟩), .returns 3]

def opening : BusReplies := { BusReplies.fresh with state := .opening }

theorem reply_callbacks_once_acts :
    (replyActs.foldl ReplyAct.apply opening).invoked =
      [⟨0, 1, false⟩, ⟨2, 3, false⟩, ⟨1, 2, true⟩, ⟨3, 4, true⟩] ∧
    ((replyActs.foldl ReplyAct.apply opening).invoked.map Invocation.slot).Nodup := by
  have hallowed : allowed (fun bus a => a.clean bus) opening replyActs = true := by
    decide +kernel
  have hopening : Reachable (replying.restrict fun bus a => a.clean bus) opening :=
    .init (fresh_init .opening)
  exact ⟨by decide +kernel,
    (reply_callbacks_once ((allowed_run hallowed).reachable hopening)).1⟩

/-- A call with a descriptor is made while the bus comes up. It has its time
    while `sd_bus_send` waits, and only then is it sent. -/
def timedOutActs : List ReplyAct :=
  [.call_async (.good 0) true true (newCall 0) 0, .sent .good ⟨0, 1, false⟩,
   .call_async (.good 0) false true (newCall 1) 1,
   .start_running 100 true,
   .timeout (some 1) 200 (.ok ⟨⟩), .returns 1,
   .reply (plainReturn 1) (.ok ⟨⟩) (.ok ⟨⟩), .enter .running none true, .returns 0,
   .sent .good ⟨1, 2, true⟩]

/-- Its callback has a cookie then, and is not in the table; that of a call
    with the cookie 0 is in the table. -/
theorem reply_callback_astray :
    (∃ bus, Reachable replying bus ∧ 1 < bus.n_slots ∧ (bus.slot 1).connected = true ∧
      (bus.slot 1).cookie = 2 ∧ ¬ ∃ k, (k, 1) ∈ bus.reply_callbacks) ∧
    ∃ bus, Reachable replying bus ∧ 0 < bus.n_slots ∧ (bus.slot 0).connected = true ∧
      (bus.slot 0).cookie = 0 ∧ ∃ k, (k, 0) ∈ bus.reply_callbacks := by
  constructor
  · have hallowed : allowed (fun _ _ => True) opening timedOutActs = true := by decide +kernel
    have hopening : Reachable (replying.restrict fun _ _ => True) opening :=
      .init (fresh_init .opening)
    refine ⟨timedOutActs.foldl ReplyAct.apply opening,
      ((allowed_run hallowed).reachable hopening).of_restrict, by decide +kernel,
      by decide +kernel, by decide +kernel, ?_⟩
    have hempty : (timedOutActs.foldl ReplyAct.apply opening).reply_callbacks = [] := by
      decide +kernel
    intro ⟨k, hk⟩
    cases hk
  · have hallowed : allowed (fun _ _ => True) .fresh [.call_async (.good 100) false true
        (sealedCall 0 (zero_le _)) 0, .sent .good ⟨0, 0, false⟩] = true := by decide +kernel
    have hfresh : Reachable (replying.restrict fun _ _ => True) .fresh :=
      .init (fresh_init .running)
    exact ⟨_, ((allowed_run hallowed).reachable hfresh).of_restrict, by decide +kernel,
      by decide +kernel, by decide +kernel, 0, by decide +kernel⟩

end SdCompat.Bus
