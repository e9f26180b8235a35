import SdCompat.SdBus.ReplyCallback

/-! # Cookies of outstanding calls

    Before the cookies have cycled, no key of the table is above the counter;
    afterwards the counter has the highest bit, and every new cookie is looked
    up in the table.
-/

open Transition

namespace SdCompat.Bus

open Call List Nat

variable {bus bus' : BusReplies}

/-! ## Section 1: The search -/

theorem COOKIE_CYCLED_eq : COOKIE_CYCLED = 2147483648 := by decide

variable {c : Nat}

/-- A cookie from the upper half is followed by another one. -/
theorem cookie_inc_cycled (h : COOKIE_CYCLED ≤ c) :
    COOKIE_CYCLED ≤ cookie_inc c ∧ cookie_inc c ≤ UINT32_MAX := by
  rw [COOKIE_CYCLED_eq] at *
  unfold cookie_inc UINT32_MAX
  rw [COOKIE_CYCLED_eq]
  split
  · omega
  · omega

theorem cookie_inc_le (c : Nat) : cookie_inc c ≤ UINT32_MAX := by
  unfold cookie_inc
  rw [COOKIE_CYCLED_eq]
  unfold UINT32_MAX
  split
  · omega
  · omega

/-- `FLAGS_SET(new_cookie, COOKIE_CYCLED)` -/
theorem testBit_cycled (h : c ≤ UINT32_MAX) : c.testBit 31 = true ↔ COOKIE_CYCLED ≤ c := by
  rw [COOKIE_CYCLED_eq, testBit_eq_decide_div_mod_eq]
  unfold UINT32_MAX at h
  simp only [decide_eq_true_eq]
  omega

/-- The `n`-th cookie after `c`. -/
def nth_cookie (c n : Nat) : Nat :=
  COOKIE_CYCLED + (c - COOKIE_CYCLED + n) % COOKIE_CYCLED

theorem nth_cookie_zero (h : COOKIE_CYCLED ≤ c) (hle : c ≤ UINT32_MAX) : nth_cookie c 0 = c := by
  unfold nth_cookie
  rw [COOKIE_CYCLED_eq] at *
  unfold UINT32_MAX at hle
  omega

theorem nth_cookie_inc {n : Nat} (h : COOKIE_CYCLED ≤ c) (hle : c ≤ UINT32_MAX) :
    nth_cookie (cookie_inc c) n = nth_cookie c (n + 1) := by
  unfold nth_cookie cookie_inc
  rw [COOKIE_CYCLED_eq] at *
  unfold UINT32_MAX at *
  split
  · omega
  · omega

variable (bus) in
/-- What the search finds is not in the table; where it finds nothing, every
    cookie it has looked at is. -/
theorem next_cookie_search_spec (n : Nat) (h : COOKIE_CYCLED ≤ c) (hle : c ≤ UINT32_MAX) :
    match next_cookie_search bus n c with
    | some k => COOKIE_CYCLED ≤ k ∧ k ≤ UINT32_MAX ∧ bus.contains k = false
    | none => ∀ i < n, bus.contains (nth_cookie c i) = true := by
  induction n generalizing c with
  | zero =>
    intro i hi
    omega
  | succ n ih =>
    unfold next_cookie_search
    by_cases hc : bus.contains c = true
    · rw [if_pos hc]
      obtain ⟨hinc, hincle⟩ := cookie_inc_cycled h
      have hrest := ih hinc hincle
      match hs : next_cookie_search bus n (cookie_inc c) with
      | some k =>
        rw [hs] at hrest
        exact hrest
      | none =>
        rw [hs] at hrest
        intro i hi
        match i with
        | 0 =>
          rw [nth_cookie_zero h hle]
          exact hc
        | i + 1 =>
          rw [← nth_cookie_inc h hle]
          exact hrest i (by omega)
    · rw [if_neg hc]
      exact ⟨h, hle, Bool.eq_false_iff.mpr hc⟩

/-- A round of `COOKIE_CYCLED` cookies comes by every cookie of the upper
    half. -/
theorem nth_cookie_surj {k : Nat} (hk : COOKIE_CYCLED ≤ k) (hkle : k ≤ UINT32_MAX) :
    ∃ i < COOKIE_CYCLED, nth_cookie c i = k := by
  unfold nth_cookie
  rw [COOKIE_CYCLED_eq] at *
  unfold UINT32_MAX at hkle
  refine ⟨(k - 2147483648 + 2147483648 - (c - 2147483648) % 2147483648) % 2147483648, ?_, ?_⟩
  · omega
  · omega

/-! ## Section 2: The invariant -/

variable {cookie : Nat}

theorem contains_iff : bus.contains cookie = true ↔ ∃ e ∈ bus.reply_callbacks, e.1 = cookie := by
  unfold BusReplies.contains
  simp

/-- **Invariant**: keys are distinct, they are the cookies of the calls, and
    none is above the counter as long as the cookies have not cycled. -/
structure Keyed (bus : BusReplies) : Prop where
  cookie_le : bus.cookie ≤ UINT32_MAX
  keys_le : bus.cookie < COOKIE_CYCLED → ∀ e ∈ bus.reply_callbacks, e.1 ≤ bus.cookie
  nodup : (bus.reply_callbacks.map Prod.fst).Nodup
  call : ∀ e ∈ bus.reply_callbacks, e.2 < bus.n_slots ∧ (bus.slot e.2).call = e.1
  calls_le : ∀ call ∈ bus.calls, call.cookie ≤ UINT32_MAX

/-- **`next_cookie`**: a new cookie that is not in the table, or every cookie
    of the upper half is. -/
theorem next_cookie_spec (h : Keyed bus) :
    match next_cookie bus with
    | (.ok _, bus') => bus' = { bus with cookie := bus'.cookie } ∧ bus'.cookie ≠ 0 ∧
        bus'.cookie ≤ UINT32_MAX ∧ bus.contains bus'.cookie = false ∧
        (bus'.cookie < COOKIE_CYCLED → bus.cookie < bus'.cookie)
    | (.err e, bus') => bus' = bus ∧ e = .EBUSY ∧
        ∀ k, COOKIE_CYCLED ≤ k → k ≤ UINT32_MAX → bus.contains k = true
    | (.abort, _) => False := by
  unfold next_cookie
  rw [get_bind_run]
  have hle := cookie_inc_le bus.cookie
  by_cases hbit : (cookie_inc bus.cookie).testBit 31 = true
  · rw [if_pos hbit]
    have hcycled := (testBit_cycled hle).mp hbit
    have hspec := next_cookie_search_spec bus COOKIE_CYCLED hcycled hle
    match hs : next_cookie_search bus COOKIE_CYCLED (cookie_inc bus.cookie) with
    | some k =>
      rw [hs] at hspec
      obtain ⟨hk, hkle, hnot⟩ := hspec
      refine ⟨rfl, ?_, hkle, hnot, ?_⟩
      · rw [COOKIE_CYCLED_eq] at hk
        show k ≠ 0
        omega
      · intro hlt
        have hlt : k < COOKIE_CYCLED := hlt
        omega
    | none =>
      rw [hs] at hspec
      refine ⟨rfl, rfl, ?_⟩
      intro k hk hkle
      obtain ⟨i, hi, rfl⟩ := nth_cookie_surj (c := cookie_inc bus.cookie) hk hkle
      exact hspec i hi
  · rw [if_neg hbit]
    have hlow : cookie_inc bus.cookie < COOKIE_CYCLED := by
      by_contra hge
      exact hbit ((testBit_cycled hle).mpr (by omega))
    -- the optimization: nothing in the table is that high
    have hinc : cookie_inc bus.cookie = bus.cookie + 1 := by
      unfold cookie_inc at hlow ⊢
      split at hlow
      · omega
      · next hlt => rw [if_neg hlt]
    refine ⟨rfl, ?_, hle, ?_, ?_⟩
    · show cookie_inc bus.cookie ≠ 0
      omega
    · show bus.contains (cookie_inc bus.cookie) = false
      apply Bool.eq_false_iff.mpr
      intro hc
      obtain ⟨e, he, heq⟩ := contains_iff.mp hc
      have := h.keys_le (by omega) e he
      omega
    · intro _
      show bus.cookie < cookie_inc bus.cookie
      omega

/-! ## Section 3: Steps that only take entries away -/

variable (bus bus') in
/-- There are fewer entries, and the rest has not changed. -/
structure Fewer : Prop where
  cookie : bus'.cookie = bus.cookie
  table : bus'.reply_callbacks.Sublist bus.reply_callbacks
  call : ∀ i, (bus'.slot i).call = (bus.slot i).call
  n_slots : bus'.n_slots = bus.n_slots
  calls : bus'.calls = bus.calls

theorem Fewer.refl : Fewer bus bus := ⟨rfl, .refl _, fun _ => rfl, rfl, rfl⟩

/-- A slot has changed, its own call has not. -/
theorem Fewer.setSlot (i : Nat) {f : ReplySlot → ReplySlot} (hf : ∀ s, (f s).call = s.call)
    (h : Fewer bus bus') : Fewer bus (bus'.setSlot i f) where
  cookie := h.cookie
  table := h.table
  call := by
    intro j
    rw [← h.call j]
    show (if j = i then f (bus'.slot j) else bus'.slot j).call = _
    split
    · exact hf _
    · rfl
  n_slots := h.n_slots
  calls := h.calls

theorem Fewer.set_cookie (i cookie : Nat) (h : Fewer bus bus') :
    Fewer bus (bus'.set_cookie i cookie) :=
  h.setSlot i fun _ => rfl

theorem Fewer.set_timeout (i timeout_usec : Nat) (h : Fewer bus bus') :
    Fewer bus (bus'.set_timeout i timeout_usec) :=
  h.setSlot i fun _ => rfl

theorem Fewer.remove (cookie : Nat) (h : Fewer bus bus') : Fewer bus (bus'.remove cookie) where
  cookie := h.cookie
  table := filter_sublist.trans h.table
  call := h.call
  n_slots := h.n_slots
  calls := h.calls

theorem Fewer.dequeue (i : Nat) (h : Fewer bus bus') : Fewer bus (bus'.dequeue i) where
  cookie := h.cookie
  table := h.table
  call := h.call
  n_slots := h.n_slots
  calls := h.calls

theorem Fewer.disconnect (i : Nat) (h : Fewer bus bus') : Fewer bus (bus_slot_disconnect i bus') := by
  unfold bus_slot_disconnect
  split
  · apply Fewer.setSlot
    · intro s
      rfl
    · split
      · have hremove := h.remove (bus'.slot i).cookie
        split
        · exact hremove.dequeue i
        · exact hremove
      · split
        · exact h.dequeue i
        · exact h
  · exact h

variable {P : BusReplies → Prop}

/-- What a call leaves behind, when its slot is freed where it fails. -/
theorem leaves_or_free {α : Type} (i : Nat) {x : Call BusReplies α} (h : Leaves x bus P)
    (hfree : ∀ b, P b → P (bus_slot_disconnect i b)) : Leaves (or_free i x) bus P := by
  unfold Leaves or_free at *
  match hr : x bus with
  | (.ok a, b) =>
    rw [hr] at h
    exact h
  | (.err e, b) =>
    rw [hr] at h
    exact hfree b h
  | (.abort, b) =>
    rw [hr] at h
    exact h

variable {i : Nat}

theorem invoke_leaves {reply_cookie : Nat} {synthetic : Bool} (h : P bus)
    (hrun : P { bus with current_slot := some i, invoked := bus.invoked ++ [⟨i, reply_cookie, synthetic⟩] }) :
    Leaves (invoke i reply_cookie synthetic) bus P := by
  apply leaves_get_bind
  split
  · exact hrun
  · exact h

theorem Fewer.invoke (i reply_cookie : Nat) (synthetic : Bool) (h : Fewer bus bus') :
    Leaves (invoke i reply_cookie synthetic) bus' (Fewer bus) :=
  invoke_leaves h ⟨h.cookie, h.table, h.call, h.n_slots, h.calls⟩

/-- The queue entry of a callback, if it has one, is removed. -/
theorem Fewer.drop_timeout (c : Nat) (h : Fewer bus bus') :
    Fewer bus (if (bus'.slot c).timeout_usec ≠ 0 then (bus'.dequeue c).set_timeout c 0
      else bus') := by
  split
  · exact (h.dequeue c).set_timeout c 0
  · exact h

theorem process_timeout_fewer (peek : Option Nat) (now : Nat) (synthetic : Outcome PUnit) :
    Leaves (process_timeout peek now synthetic) bus (Fewer bus) := by
  match peek with
  | none => exact Fewer.refl
  | some c =>
    apply leaves_get_bind
    split
    · exact Fewer.refl
    · apply leaves_lift_bind Fewer.refl
      intro _ _
      apply Fewer.invoke
      apply Fewer.set_cookie
      apply Fewer.remove
      exact (Fewer.refl.dequeue c).set_timeout c 0

theorem process_reply_fewer (m : SdBusMessage) (synthetic rewind : Outcome PUnit) :
    Leaves (process_reply m synthetic rewind) bus (Fewer bus) := by
  apply leaves_get_bind
  split
  · exact Fewer.refl
  split
  · exact Fewer.refl
  split
  · exact Fewer.refl
  · next c _ =>
    have hrefl : Fewer bus bus := Fewer.refl
    have hcookie := (hrefl.remove m.reply_cookie).set_cookie c 0
    apply leaves_lift_bind hcookie
    intro _ _
    apply Fewer.invoke
    exact hcookie.drop_timeout c

theorem process_closing_fewer (synthetic : Outcome PUnit) :
    Leaves (process_closing synthetic) bus (Fewer bus) := by
  apply leaves_get_bind
  split
  · exact Fewer.refl
  · next c _ =>
    apply leaves_lift_bind Fewer.refl
    intro _ _
    apply Fewer.invoke
    apply Fewer.set_cookie
    apply Fewer.remove
    exact Fewer.refl.drop_timeout c

theorem callback_returns_fewer (i : Nat) : Fewer bus (callback_returns i bus) := by
  have h : Fewer bus { bus with current_slot := none } := ⟨rfl, .refl _, fun _ => rfl, rfl, rfl⟩
  unfold callback_returns
  dsimp only
  split
  · exact h.disconnect i
  · exact h

theorem start_running_fewer (n : Nat) (bus_client : Bool) :
    Fewer bus (bus_start_running n bus_client bus) where
  cookie := rfl
  table := .refl _
  call := by
    intro i
    unfold bus_start_running
    dsimp only
    split
    · rfl
    · rfl
  n_slots := rfl
  calls := rfl

theorem Keyed.fewer (h : Keyed bus) (hf : Fewer bus bus') : Keyed bus' where
  cookie_le := by
    rw [hf.cookie]
    exact h.cookie_le
  keys_le := by
    intro hlt e he
    rw [hf.cookie] at hlt ⊢
    exact h.keys_le hlt e (hf.table.subset he)
  nodup := (hf.table.map Prod.fst).nodup h.nodup
  call := by
    intro e he
    rw [hf.n_slots, hf.call]
    exact h.call e (hf.table.subset he)
  calls_le := by
    rw [hf.calls]
    exact h.calls_le

/-! ## Section 4: Steps that add entries -/

/-- The counter goes on. -/
theorem Keyed.raise (h : Keyed bus) (hc : c ≤ UINT32_MAX) (hle : c < COOKIE_CYCLED → bus.cookie ≤ c) :
    Keyed { bus with cookie := c } where
  cookie_le := hc
  keys_le := by
    intro hlt e he
    have hlt : c < COOKIE_CYCLED := hlt
    have := h.keys_le (by omega) e he
    show e.1 ≤ c
    omega
  nodup := h.nodup
  call := h.call
  calls_le := h.calls_le

variable (bus) in
/-- `bus_seal_message`: the counter is at the cookie of the message, or
    further. -/
theorem bus_seal_message_spec (env : CallEnv) (m : CallMessage) (usec : Nat) (h : Keyed bus) :
    (bus_seal_message env m usec bus).2 =
      { bus with cookie := (bus_seal_message env m usec bus).2.cookie } ∧
    Keyed (bus_seal_message env m usec bus).2 ∧
    ∀ m', (bus_seal_message env m usec bus).1 = .ok m' →
      m'.cookie ≤ (bus_seal_message env m usec bus).2.cookie ∧
      (m'.cookie = 0 → m.sealed = true ∧ m.cookie = 0) := by
  unfold bus_seal_message
  by_cases hs : m.sealed = true
  · rw [if_pos hs]
    refine ⟨rfl, ?_, ?_⟩
    · apply h.raise
      · have := h.cookie_le
        have := m.cookie_le
        omega
      · intro _
        exact le_max_left ..
    · intro m' hm
      cases hm
      exact ⟨le_max_right .., fun h0 => ⟨hs, h0⟩⟩
  rw [if_neg hs]
  match env.set_sender with
  | .err _ =>
    refine ⟨rfl, h, ?_⟩
    intro m' hm
    cases hm
  | .abort =>
    refine ⟨rfl, h, ?_⟩
    intro m' hm
    cases hm
  | .ok _ =>
    rw [lift_bind_run_ok rfl, bind_run]
    have hnext := next_cookie_spec h
    match hr : next_cookie bus with
    | (.abort, b) =>
      rw [hr] at hnext
      exact hnext.elim
    | (.err e, b) =>
      rw [hr] at hnext
      obtain ⟨rfl, -, -⟩ := hnext
      refine ⟨rfl, h, ?_⟩
      intro m' hm
      cases hm
    | (.ok _, b) =>
      rw [hr] at hnext
      obtain ⟨hsame, hne, hle, -, hlt⟩ := hnext
      have hkeyed : Keyed b := by
        rw [hsame]
        apply h.raise hle
        intro hcycled
        exact le_of_lt (hlt hcycled)
      refine ⟨hsame, hkeyed, ?_⟩
      intro m' hm
      have hm : message_seal env m b.cookie _ = .ok m' := hm
      unfold message_seal at hm
      match he : env.seal_ok with
      | .err _ =>
        rw [he] at hm
        cases hm
      | .abort =>
        rw [he] at hm
        cases hm
      | .ok _ =>
        rw [he] at hm
        rw [dif_pos hle] at hm
        cases hm
        exact ⟨le_refl _, fun h0 => absurd h0 hne⟩

/-- A slot is allocated. -/
theorem Keyed.allocate (floating callback : Bool) (cookie : Nat) (h : Keyed bus) :
    Keyed (bus_slot_allocate floating callback cookie bus) where
  cookie_le := h.cookie_le
  keys_le := h.keys_le
  nodup := h.nodup
  call := by
    intro e he
    obtain ⟨hlt, hcall⟩ := h.call e he
    refine ⟨Nat.lt_succ_of_lt hlt, ?_⟩
    show (if e.2 = bus.n_slots then _ else bus.slot e.2).call = e.1
    rw [if_neg (Nat.ne_of_lt hlt)]
    exact hcall
  calls_le := h.calls_le

/-- A call is put in the table, where no other has its cookie. -/
theorem Keyed.put (h : Keyed bus) (hnot : bus.contains cookie = false) (hle : cookie ≤ bus.cookie)
    (hi : i < bus.n_slots) (hcall : (bus.slot i).call = cookie) :
    Keyed { bus with reply_callbacks := bus.reply_callbacks ++ [(cookie, i)] } where
  cookie_le := h.cookie_le
  keys_le := by
    intro hlt e he
    rcases mem_append.mp he with he | he
    · exact h.keys_le hlt e he
    · rw [mem_singleton.mp he]
      exact hle
  nodup := by
    rw [map_append, nodup_append]
    refine ⟨h.nodup, pairwise_singleton _ _, ?_⟩
    intro a ha b hb hab
    have hb : b = cookie := mem_singleton.mp hb
    obtain ⟨e, he, rfl⟩ := mem_map.mp ha
    have hin : bus.contains cookie = true := contains_iff.mpr ⟨e, he, hab.trans hb⟩
    rw [hnot] at hin
    cases hin
  call := by
    intro e he
    rcases mem_append.mp he with he | he
    · exact h.call e he
    · rw [mem_singleton.mp he]
      exact ⟨hi, hcall⟩
  calls_le := h.calls_le

theorem reply_callback_put_keyed (env : CallEnv) (timeout : Nat) (h : Keyed bus)
    (hle : cookie ≤ bus.cookie) (hi : i < bus.n_slots) (hcall : (bus.slot i).call = cookie) :
    Leaves (reply_callback_put env i cookie timeout) bus Keyed := by
  have hrefl : Fewer bus bus := Fewer.refl
  have hset := hrefl.set_cookie i cookie
  apply leaves_modify_bind
  apply leaves_get_bind
  split
  · apply leaves_modify_bind
    exact h.fewer (hset.set_cookie i 0)
  · next hor =>
    rw [Bool.or_eq_true, not_or] at hor
    have hput := (h.fewer hset).put (Bool.eq_false_iff.mpr hor.1) hle hi
      ((hset.call i).trans hcall)
    apply leaves_modify_bind
    split
    · exact hput
    split
    · apply leaves_modify
      have htimeout := hput.fewer (Fewer.refl.set_timeout i
        (calc_elapse (bus.set_cookie i cookie).state env.now timeout))
      exact ⟨htimeout.cookie_le, htimeout.keys_le, htimeout.nodup, htimeout.call, htimeout.calls_le⟩
    · exact hput

/-- `sd_bus_call_async`, from the slot on. -/
def register (env : CallEnv) (waits : BusReplies → Bool) (cookie timeout i : Nat) :
    Call BusReplies PUnit := do
  or_free i (reply_callback_put env i cookie timeout)
  modify fun b => { b with calls := ⟨i, cookie, waits b⟩ :: b.calls }

variable (bus) in
/-- What `sd_bus_call_async` leaves behind, by what it does from the slot on. -/
theorem leaves_call_async (env : CallEnv) (floating callback : Bool) (m : CallMessage)
    (usec : Nat) (hk : Keyed bus) (h : P bus)
    (hcookie : ∀ c, Keyed { bus with cookie := c } → P { bus with cookie := c })
    (hregister : ∀ b (m' : CallMessage) waits timeout, P b → Keyed b → m'.cookie ≤ b.cookie →
      (m'.cookie = 0 → m.sealed = true ∧ m.cookie = 0) →
        Leaves (register env waits m'.cookie timeout b.n_slots)
          (bus_slot_allocate floating callback m'.cookie b) P) :
    Leaves (sd_bus_call_async env floating callback m usec) bus P := by
  apply leaves_check_bind h
  intro _
  apply leaves_check_bind h
  intro _
  apply leaves_check_bind h
  intro _
  apply leaves_check_bind h
  intro _
  obtain ⟨hsame, hkeyed, hok⟩ := bus_seal_message_spec bus env m usec hk
  have hsealed : P (bus_seal_message env m usec bus).2 := by
    rw [hsame] at hkeyed ⊢
    exact hcookie _ hkeyed
  apply leaves_bind hsealed
  intro m' b hr hb
  rw [hr] at hok hkeyed
  obtain ⟨hle, hzero⟩ := hok m' rfl
  apply leaves_lift_bind hb
  intro timeout _
  apply leaves_check_bind hb
  intro _
  exact hregister b m' (fun b => m'.n_fds ≠ 0 ∧ b.state ≠ .running) _ hb hkeyed hle hzero

theorem sd_bus_call_async_keyed (env : CallEnv) (floating callback : Bool) (m : CallMessage)
    (usec : Nat) (h : Keyed bus) :
    Leaves (sd_bus_call_async env floating callback m usec) bus Keyed := by
  apply leaves_call_async bus env floating callback m usec h h fun _ hb => hb
  intro b m' waits timeout hb _ hle _
  have hput := reply_callback_put_keyed env timeout (hb.allocate floating callback m'.cookie) hle
    (lt_succ_self b.n_slots) (by simp [bus_slot_allocate])
  apply leaves_bind (leaves_or_free b.n_slots hput fun b' hb' => hb'.fewer (Fewer.refl.disconnect _))
  intro _ b' _ hb'
  refine ⟨hb'.cookie_le, hb'.keys_le, hb'.nodup, hb'.call, ?_⟩
  intro call hcall
  rcases mem_cons.mp hcall with rfl | hcall
  · exact le_trans hle hb.cookie_le
  · exact hb'.calls_le call hcall

section sent
variable {call : AsyncCall}

/-- A call that is in progress no longer. -/
theorem Keyed.erase (h : Keyed bus) : Keyed { bus with calls := bus.calls.erase call } :=
  ⟨h.cookie_le, h.keys_le, h.nodup, h.call, fun c hc => h.calls_le c (mem_of_mem_erase hc)⟩

theorem Keyed.erase_raise (h : Keyed bus) (hcall : call ∈ bus.calls) : Keyed { bus with
    calls := bus.calls.erase call, cookie := max bus.cookie call.cookie } := by
  apply h.erase.raise
  · have := h.cookie_le
    have := h.calls_le call hcall
    omega
  · intro _
    exact le_max_left ..

theorem sd_bus_call_async_sent_keyed (env : SentEnv) (h : Keyed bus) (hcall : call ∈ bus.calls) :
    Leaves (sd_bus_call_async_sent env call) bus Keyed := by
  apply leaves_or_free
  · apply leaves_lift_bind h.erase
    intro _ _
    apply leaves_lift_bind (h.erase_raise hcall)
    intro _ _
    exact (h.erase_raise hcall).fewer (Fewer.refl.set_cookie _ _)
  · intro b hb
    exact hb.fewer (Fewer.refl.disconnect _)

end sent

/-! ## Section 5: Runs -/

theorem Keyed.init (h : replying.init bus) : Keyed bus := by
  obtain ⟨hcookie, htable, -, -, -, hcalls, -⟩ := h
  refine ⟨?_, ?_, ?_, ?_, ?_⟩
  · rw [hcookie]
    exact zero_le _
  · intro _ e he
    rw [htable] at he
    cases he
  · rw [htable]
    exact nodup_nil
  · intro e he
    rw [htable] at he
    cases he
  · intro call hcall
    rw [hcalls] at hcall
    cases hcall

theorem Keyed.step {a : ReplyAct} (h : Keyed bus) (hst : replying.step bus a bus') :
    Keyed bus' := by
  obtain ⟨hen, -, rfl⟩ := hst
  cases a with
  | send env m usec => exact (bus_seal_message_spec bus env m usec h).2.1
  | call_async env floating callback m usec =>
    exact sd_bus_call_async_keyed env floating callback m usec h
  | sent env call => exact sd_bus_call_async_sent_keyed env h hen
  | timeout peek now synthetic => exact h.fewer (process_timeout_fewer peek now synthetic)
  | reply m synthetic rewind => exact h.fewer (process_reply_fewer m synthetic rewind)
  | closing synthetic => exact h.fewer (process_closing_fewer synthetic)
  | returns i => exact h.fewer (callback_returns_fewer i)
  | disconnect i => exact h.fewer (Fewer.refl.disconnect i)
  | set_floating i floating =>
    have hset : Fewer bus (bus.setSlot i fun s => { s with floating := floating }) :=
      Fewer.setSlot i (fun _ => rfl) Fewer.refl
    exact h.fewer hset
  | start_running n bus_client => exact h.fewer (start_running_fewer n bus_client)
  | enter state unique_name accept_fd =>
    exact ⟨h.cookie_le, h.keys_le, h.nodup, h.call, h.calls_le⟩

theorem Keyed.reachable (h : Reachable replying bus) : Keyed bus :=
  Reachable.invariant (fun _ => Keyed.init) (fun _ _ _ => Keyed.step) h

/-- A callback that a reply runs is that of the call with its cookie. -/
theorem process_reply_routes (m : SdBusMessage) (synthetic rewind : Outcome PUnit)
    (h : Keyed bus) {v : Invocation} (hv : v ∈ (process_reply m synthetic rewind bus).2.invoked) :
    v ∈ bus.invoked ∨ ((m.reply_cookie, v.slot) ∈ bus.reply_callbacks ∧
        (bus.slot v.slot).call = m.reply_cookie) := by
  refine (?_ : Leaves (process_reply m synthetic rewind) bus fun b =>
    v ∈ b.invoked → v ∈ bus.invoked ∨ _) hv
  apply leaves_get_bind
  split
  · exact Or.inl
  split
  · exact Or.inl
  split
  · exact Or.inl
  · next k c hfind =>
    have hk : k = m.reply_cookie := by
      have := find?_some hfind
      simpa using this
    have hmem : (m.reply_cookie, c) ∈ bus.reply_callbacks := by
      rw [← hk]
      exact mem_of_find?_eq_some hfind
    apply leaves_modify_bind
    apply leaves_lift_bind Or.inl
    intro _ _
    apply leaves_modify_bind
    have hsame : ∀ b : BusReplies,
        (if (b.slot c).timeout_usec ≠ 0 then (b.dequeue c).set_timeout c 0 else b).invoked =
          b.invoked := by
      intro b
      split
      · rfl
      · rfl
    apply invoke_leaves
    · intro hv
      rw [hsame] at hv
      exact Or.inl hv
    · intro hv
      rcases mem_append.mp hv with hv | hv
      · left
        rw [hsame] at hv
        exact hv
      · right
        rw [mem_singleton.mp hv]
        exact ⟨hmem, (h.call _ hmem).2⟩

/-- **Cookies of outstanding calls**: in every reachable state, a cookie that
    `next_cookie` yields is none of the table; it yields one unless every cookie
    of the upper half is in use. No two calls in the table have the same
    cookie, and a reply runs the callback of the call that has its cookie. -/
theorem cookies_unique (h : Reachable replying bus) :
    (∀ bus', next_cookie bus = (.ok ⟨⟩, bus') →
      bus'.cookie ≠ 0 ∧ bus'.cookie < 2 ^ 32 ∧
        ∀ e ∈ bus'.reply_callbacks, e.1 ≠ bus'.cookie) ∧
    ((∃ bus', next_cookie bus = (.ok ⟨⟩, bus')) ∨
      next_cookie bus = (.err .EBUSY, bus) ∧
        ∀ k, 2 ^ 31 ≤ k → k < 2 ^ 32 → ∃ e ∈ bus.reply_callbacks, e.1 = k) ∧
    (bus.reply_callbacks.map fun e => (bus.slot e.2).call).Nodup ∧
    (∀ e ∈ bus.reply_callbacks, (bus.slot e.2).call = e.1) ∧
    ∀ m synthetic rewind, ∀ v ∈ (process_reply m synthetic rewind bus).2.invoked,
      v ∉ bus.invoked → (bus.slot v.slot).call = m.reply_cookie := by
  have hkeyed := Keyed.reachable h
  have hnext := next_cookie_spec hkeyed
  refine ⟨?_, ?_, ?_, fun e he => (hkeyed.call e he).2, ?_⟩
  · intro bus' hr
    rw [hr] at hnext
    obtain ⟨hsame, hne, hle, hnot, -⟩ := hnext
    unfold UINT32_MAX at hle
    refine ⟨hne, by omega, ?_⟩
    intro e he heq
    have hin : e ∈ bus.reply_callbacks := by
      rw [hsame] at he
      exact he
    rw [contains_iff.mpr ⟨e, hin, heq⟩] at hnot
    cases hnot
  · match hr : next_cookie bus with
    | (.ok _, bus') => exact Or.inl ⟨bus', rfl⟩
    | (.err e, bus') =>
      rw [hr] at hnext
      obtain ⟨rfl, rfl, hall⟩ := hnext
      right
      refine ⟨rfl, ?_⟩
      intro k hk hlt
      apply contains_iff.mp
      apply hall k
      · rw [COOKIE_CYCLED_eq]
        exact hk
      · unfold UINT32_MAX
        omega
    | (.abort, bus') =>
      rw [hr] at hnext
      exact hnext.elim
  · have hcalls : (bus.reply_callbacks.map fun e => (bus.slot e.2).call) =
        bus.reply_callbacks.map Prod.fst :=
      map_congr_left fun e he => (hkeyed.call e he).2
    rw [hcalls]
    exact hkeyed.nodup
  · intro m synthetic rewind v hv hnew
    rcases process_reply_routes m synthetic rewind hkeyed hv with hold | ⟨-, hcall⟩
    · exact absurd hold hnew
    · exact hcall

/-- A bus that runs and has made no call. -/
def BusReplies.fresh : BusReplies where
  state := .running
  unique_name := some [0x3a, 0x31, 0x2e, 0x31]
  accept_fd := true
  cookie := 0
  reply_callbacks := []
  reply_callbacks_prioq := []
  slot := fun _ => ⟨false, 0, 0, false, false, 0⟩
  n_slots := 0
  current_slot := none
  calls := []
  invoked := []

/-- Surroundings where nothing fails. -/
def CallEnv.good (now : Nat) : CallEnv where
  prioq_mem := true
  slot_mem := true
  table_mem := true
  entry_mem := true
  method_call_timeout := 25000000
  set_sender := .ok ⟨⟩
  seal_ok := .ok ⟨⟩
  remarshal := .ok none
  now := now

def SentEnv.good : SentEnv where
  can_send := .ok ⟨⟩
  sent := .ok ⟨⟩

/-- A call that was sealed with a cookie of the caller. -/
def sealedCall (cookie : Nat) (h : cookie ≤ UINT32_MAX) : CallMessage where
  type := SD_BUS_MESSAGE_METHOD_CALL
  no_reply_expected := false
  n_fds := 0
  sealed := true
  cookie := cookie
  timeout := 5
  cookie_le := h

/-- A call is in the table under the first cookie of the upper half, and then
    the counter comes to its end. -/
def cycledActs : List ReplyAct :=
  [.call_async (.good 100) true true (sealedCall 0x80000000 (by decide)) 0,
   .sent .good ⟨0, 0x80000000, false⟩,
   .send (.good 100) (sealedCall 0xffffffff (by decide)) 0]

def cycled : BusReplies := cycledActs.foldl ReplyAct.apply .fresh

theorem fresh_init (state : BusState) : replying.init { BusReplies.fresh with state := state } :=
  ⟨rfl, rfl, rfl, rfl, rfl, rfl, rfl⟩

theorem cycled_reachable : Reachable replying cycled := by
  have hallowed : allowed (fun _ _ => True) .fresh cycledActs = true := by decide +kernel
  have hfresh : Reachable (replying.restrict fun _ _ => True) .fresh := .init (fresh_init .running)
  exact ((allowed_run hallowed).reachable hfresh).of_restrict

theorem cookies_unique_cycled :
    cycled.cookie = 0xffffffff ∧ cycled.reply_callbacks = [(0x80000000, 0)] ∧
    (next_cookie cycled).2.cookie = 0x80000001 ∧
    ∀ bus', next_cookie cycled = (.ok ⟨⟩, bus') →
      bus'.cookie ≠ 0 ∧ bus'.cookie < 2 ^ 32 ∧
        ∀ e ∈ bus'.reply_callbacks, e.1 ≠ bus'.cookie :=
  ⟨by decide +kernel, by decide +kernel, by decide +kernel, (cookies_unique cycled_reachable).1⟩

end SdCompat.Bus
