import SdCompat.SdBus.MessageReadBack

/-! # The cursor of a message that is read

    `sd_bus_message_read_array`, and what the calls that read leave behind
    where they return an error or find nothing: the cursor they started from.
-/

open Bytes

namespace SdCompat.Bus

open Call SdBusMessage

/-! ## Section 1: Arrays of trivial types -/

/-- `message_quit_container` -/
def message_quit_container : Call SdBusMessage PUnit := do
  let m ← get
  assert m.sealed
  match m.containers with
  | [] => abort
  | c :: rest => do
    assert (decide (c.before ≤ m.rindex))
    modify fun m => { m with rindex := c.before, containers := rest }
    modify fun m => m.update_last fun c => { c with index := c.saved_index }

/-- The pointer to the bytes of an array; `none` stands for the aligned pointer
    that is handed out for an empty one. -/
def array_pointer (align sz : Nat) : Call SdBusMessage (Option BodyRange) := do
  if sz = 0 then pure none
  else do
    let q ← peek_body (← get).rindex align sz
    set_rindex q.stop
    pure (some q)

/-- The bytes of the array that has been entered, and the way out of it. -/
def array_bytes (align : Nat) : Call SdBusMessage (Option BodyRange × Nat) := do
  let m ← get
  match m.last_container.array_size with
  | none => abort
  | some a => do
    let sz := m.bswap ⟨a, 4⟩
    let p ← array_pointer align sz
    sd_bus_message_exit_container
    pure (p, sz)

/-- `sd_bus_message_read_array`; `none` where it returns zero. -/
def sd_bus_message_read_array (env : ReadEnv) (type : UInt8) :
    Call SdBusMessage (Option (Option BodyRange × Nat)) := do
  let m ← get
  check m.sealed .EPERM
  check (bus_type_is_trivial type) .EINVAL
  check (decide (m.endian = BUS_NATIVE_ENDIAN)) .EOPNOTSUPP
  if !(← sd_bus_message_enter_container env SD_BUS_TYPE_ARRAY (some [type])) then pure none
  else
    match bus_type_get_alignment type with
    | none => fail .EINVAL
    | some align => do
      let r ← cleanup (array_bytes align) message_quit_container
      pure (some r)

/-! ## Section 2: The cursor -/

/-- The cursor: the read index, and the containers with their indices. Where
    `message_quit_container` goes back to is not a part of it: every function
    that enters a container sets it anew. -/
def SdBusMessage.cursor (m : SdBusMessage) :
    Nat × BusMessageContainer × List BusMessageContainer :=
  (m.rindex, { m.root_container with saved_index := 0 },
    m.containers.map fun c => { c with saved_index := 0 })

section cursor
variable {m : SdBusMessage}

/-- To remember the index does not move the cursor. -/
theorem cursor_advanced_zero (saved : Nat) : (advanced 0 saved m.rindex m).cursor = m.cursor := by
  unfold cursor advanced update_last
  cases hc : m.containers with
  | nil => simp
  | cons c cs => simp

/-- A call that changes nothing. -/
theorem holds_of_state {α : Type} {x : Call SdBusMessage α} (h : (x m).2 = m) :
    x.Holds m (fun _ m' => m' = m) (fun m' => m' = m) := by
  unfold Holds
  match hx : x m with
  | (.ok a, m') =>
    rw [hx] at h
    exact h
  | (.err e, m') =>
    rw [hx] at h
    exact h
  | (.abort, m') => trivial

/-- The reader has moved on, in the signature and to some offset. -/
def MovedOn (m m' : SdBusMessage) : Prop :=
  ∃ k rindex, m' = advanced k m.last_container.saved_index rindex m

/-- The read index is set, and the signature index goes on. -/
theorem holds_moves_on {rindex k : Nat} :
    (set_rindex rindex >>= fun _ => skip_index k).Holds m (fun _ m' => MovedOn m m')
      (fun m' => m' = m) := by
  unfold Holds set_rindex
  rw [modify_bind_run, skip_index_run k]
  exact ⟨k, rindex, rfl⟩

theorem bus_message_enter_array_holds (contents : List UInt8) :
    (bus_message_enter_array contents).Holds m (fun _ m' => MovedOn m m') (fun m' => m' = m) := by
  refine holds_get_bind (holds_check_bind rfl fun _ => holds_check_bind rfl fun _ => ?_)
  refine holds_bind (holds_of_state (peek_body_state m ..)) ?_
  rintro q m' rfl
  refine holds_check_bind rfl fun _ => ?_
  split
  · exact holds_fail rfl
  · refine holds_bind (holds_of_state (peek_body_state m' ..)) ?_
    rintro e m rfl
    unfold Holds set_rindex
    rw [modify_bind_run, bind_run_ok (skip_index_run _)]
    exact ⟨_, _, rfl⟩

theorem bus_message_enter_variant_holds (contents : List UInt8) :
    (bus_message_enter_variant contents).Holds m (fun _ m' => MovedOn m m') (fun m' => m' = m) := by
  refine holds_get_bind (holds_check_bind rfl fun _ => holds_check_bind rfl fun _ =>
    holds_check_bind rfl fun _ => ?_)
  refine holds_bind (holds_of_state (peek_signature_state m _)) ?_
  rintro q m' rfl
  exact holds_check_bind rfl fun _ => holds_moves_on

theorem enter_members_holds (first : UInt8) (contents : List UInt8) (last : UInt8) :
    (enter_members first contents last).Holds m (fun _ m' => MovedOn m m') (fun m' => m' = m) := by
  refine holds_get_bind (holds_check_bind rfl fun _ => ?_)
  refine holds_bind (holds_of_state (peek_body_state m ..)) ?_
  rintro q m' rfl
  exact holds_moves_on

/-- Entering a container moves on in the one around it, or changes nothing. -/
theorem bus_message_enter_holds (type : UInt8) (contents : List UInt8) :
    (bus_message_enter type contents).Holds m
      (fun r m' => if r.isSome then MovedOn m m' else m' = m) (fun m' => m' = m) := by
  unfold bus_message_enter
  split
  · exact holds_bind (bus_message_enter_array_holds contents) fun _ _ h => holds_pure h
  split
  · exact holds_bind (bus_message_enter_variant_holds contents) fun _ _ h => holds_pure h
  split
  · refine holds_bind (R := fun _ => MovedOn m) ?_ fun _ _ h => holds_pure h
    exact holds_check_bind rfl fun _ => enter_members_holds ..
  split
  · refine holds_bind (R := fun r m' => if r then MovedOn m m' else m' = m) ?_ ?_
    · refine holds_get_bind (holds_check_bind rfl fun _ => holds_check_bind rfl fun _ => ?_)
      split
      · exact holds_pure rfl
      · exact holds_bind (enter_members_holds ..) fun _ _ h => holds_pure h
    · intro r m' h
      cases r with
      | true => exact holds_pure h
      | false => exact holds_pure h
  · exact holds_fail rfl

/-- The message with a container entered. -/
def HasEntered (m m' : SdBusMessage) : Prop :=
  ∃ k rindex type contents size,
    m' = entered (advanced k m.last_container.index rindex m) type contents m.rindex size

/-- The container is pushed once it is entered. -/
theorem enter_container_holds (env : ReadEnv) (type : UInt8) (contents : Option (List UInt8)) :
    (enter_container env type contents).Holds m
      (fun r m' => if r then HasEntered m m' else m'.cursor = m.cursor)
      (fun m' => m'.cursor = m.cursor) := by
  refine holds_get_bind (holds_check_bind rfl fun _ => holds_check_bind rfl fun _ =>
    holds_check_bind rfl fun _ => ?_)
  refine holds_bind (R := fun _ m' => m' = m) ?_ ?_
  · refine holds_mono (holds_of_state (message_end_of_array_state m _)) (fun _ _ h => h) ?_
    rintro m' rfl
    rfl
  rintro r m' rfl
  split
  · exact holds_pure rfl
  cases contents with
  | none => exact holds_abort
  | some contents =>
    refine holds_check_bind rfl fun _ => holds_modify_bind ?_
    -- the index is remembered in the container around
    have hsave : (m'.update_last fun c => { c with saved_index := c.index }) =
        advanced 0 m'.last_container.index m'.rindex m' := by
      unfold advanced update_last last_container
      cases m'.containers with
      | nil => simp
      | cons c cs => simp
    rw [hsave]
    refine holds_bind (R := fun r m2 => if r.isSome then
      MovedOn (advanced 0 m'.last_container.index m'.rindex m') m2
      else m2.cursor = m'.cursor) ?_ ?_
    · refine holds_mono (bus_message_enter_holds type contents) ?_ ?_
      · intro r m2 h
        split
        · next hr => simpa [hr] using h
        · next hr =>
          rw [if_neg hr] at h
          rw [h, cursor_advanced_zero]
      · rintro m2 rfl
        exact cursor_advanced_zero _
    · intro r m2 h
      cases r with
      | none => exact holds_pure h
      | some size =>
        obtain ⟨k, rindex, rfl⟩ : MovedOn _ m2 := h
        refine ⟨k, rindex, type, contents, size, ?_⟩
        rw [advanced_last, advanced_advanced, Nat.zero_add]
        rfl

/-- What comes next is looked at without moving. -/
theorem sd_bus_message_peek_type_holds (env : ReadEnv) (want : Bool) :
    (sd_bus_message_peek_type env want).Holds m (fun _ m' => m' = m) (fun m' => m' = m) := by
  have hcopy : ∀ (type : UInt8) (contents : List UInt8),
      (peeked_signature env type contents).Holds m (fun _ m' => m' = m) (fun m' => m' = m) :=
    fun type contents => holds_check_bind rfl fun _ => holds_pure rfl
  have hfail : ∀ e : Errno, (fail e : Call SdBusMessage (Option PeekedType)).Holds m
      (fun _ m' => m' = m) (fun m' => m' = m) := fun e => holds_fail rfl
  have hpure : ∀ p : Option PeekedType, (pure p : Call SdBusMessage (Option PeekedType)).Holds m
      (fun _ m' => m' = m) (fun m' => m' = m) := fun p => holds_pure rfl
  refine holds_get_bind (holds_check_bind rfl fun _ => ?_)
  split
  · exact hpure none
  refine holds_bind (holds_of_state (message_end_of_array_state m _)) ?_
  rintro r m' rfl
  split
  · exact hpure none
  split
  · exact hpure none
  split
  · exact hpure _
  split
  · split
    · exact hpure _
    · split
      · exact hfail _
      · split
        · exact holds_abort
        · exact hcopy ..
  split
  · dsimp only
    split
    · exact hpure _
    · split
      · exact hfail _
      · split
        · exact holds_abort
        · exact hcopy ..
  split
  · split
    · exact hpure _
    · refine holds_bind (holds_of_state (peek_signature_state m' _)) ?_
      rintro q m rfl
      exact holds_get_bind (holds_pure rfl)
  · exact hfail _

theorem sd_bus_message_enter_container_holds (env : ReadEnv) (type : UInt8)
    (contents : Option (List UInt8)) : (sd_bus_message_enter_container env type contents).Holds m
      (fun r m' => if r then HasEntered m m' else m'.cursor = m.cursor)
      (fun m' => m'.cursor = m.cursor) := by
  refine holds_get_bind (holds_check_bind rfl fun _ => holds_check_bind rfl fun _ => ?_)
  split
  · refine holds_bind (R := fun _ m' => m' = m) ?_ ?_
    · refine holds_bind (R := fun _ m' => m' = m) (holds_mono
        (sd_bus_message_peek_type_holds ..) (fun _ _ h => h) fun _ h => h ▸ rfl) ?_
      rintro p m' rfl
      cases p with
      | none => exact holds_check_bind rfl fun _ => holds_pure rfl
      | some p => exact holds_check_bind rfl fun _ => holds_pure rfl
    · rintro ⟨type, contents⟩ m' rfl
      exact enter_container_holds ..
  · exact enter_container_holds ..

variable {c : BusMessageContainer}

theorem message_quit_container_holds {rest : List BusMessageContainer} {E : SdBusMessage → Prop}
    (hc : m.containers = c :: rest) :
    message_quit_container.Holds m
      (fun _ m' => m' = ({ m with rindex := c.before, containers := rest }).update_last
        fun c => { c with index := c.saved_index }) E := by
  refine holds_get_bind (holds_assert_bind fun _ => ?_)
  rw [hc]
  exact holds_assert_bind fun _ => holds_modify_bind (holds_modify rfl)

/-- Leaving the container brings the cursor back. -/
theorem cursor_of_left {m₁ m₂ : SdBusMessage} (h : HasEntered m m₁)
    (hm : m₂.root_container = m₁.root_container) (hc : c :: m₂.containers = m₁.containers)
    (hr : m₂.rindex = c.before) :
    (m₂.update_last fun c => { c with index := c.saved_index }).cursor = m.cursor := by
  obtain ⟨k, rindex, type, contents, size, rfl⟩ := h
  obtain ⟨hbefore, hrest⟩ := List.cons.inj hc
  rw [hbefore] at hr
  unfold advanced update_last last_container at *
  cases hm' : m.containers with
  | nil =>
    rw [hrest]
    unfold cursor
    rw [hm, hr, hm']
    rfl
  | cons c' cs =>
    rw [hrest]
    unfold cursor
    rw [hm, hr, hm']
    rfl

theorem sd_bus_message_exit_container_holds :
    sd_bus_message_exit_container.Holds m (fun _ _ => True) (fun m' => m' = m) := by
  refine holds_get_bind (holds_check_bind rfl fun _ => ?_)
  split
  · exact holds_fail rfl
  split
  · exact holds_check_bind rfl fun _ => trivial
  · split
    · exact holds_abort
    · exact holds_check_bind rfl fun _ => trivial

/-- The same containers are entered. -/
def SameContainers (m m' : SdBusMessage) : Prop :=
  m'.root_container = m.root_container ∧ m'.containers = m.containers

theorem array_bytes_holds (align : Nat) :
    (array_bytes align).Holds m (fun _ _ => True) (SameContainers m) := by
  refine holds_get_bind ?_
  split
  · exact holds_abort
  refine holds_bind (R := fun _ => SameContainers m) ?_ ?_
  · unfold array_pointer
    split
    · exact holds_pure ⟨rfl, rfl⟩
    · refine holds_get_bind ?_
      refine holds_bind (R := fun _ m' => m' = m) (holds_mono
        (holds_of_state (peek_body_state m ..)) (fun _ _ h => h) fun _ h => h ▸ ⟨rfl, rfl⟩) ?_
      rintro q m' rfl
      exact holds_modify_bind (holds_pure ⟨rfl, rfl⟩)
  · intro p m' h
    refine holds_bind (R := fun _ _ => True) ?_ fun _ _ _ => holds_pure trivial
    exact holds_mono sd_bus_message_exit_container_holds (fun _ _ h => h) fun _ he => he ▸ h

/-- Where reading the array fails, the container that was entered is left. -/
theorem sd_bus_message_read_array_holds (env : ReadEnv) (type : UInt8) :
    (sd_bus_message_read_array env type).Holds m
      (fun r m' => r = none → m'.cursor = m.cursor) (fun m' => m'.cursor = m.cursor) := by
  refine holds_get_bind (holds_check_bind rfl fun _ => holds_check_bind rfl fun ht =>
    holds_check_bind rfl fun _ => ?_)
  refine holds_bind (sd_bus_message_enter_container_holds env _ _) ?_
  intro r m1 h
  cases r with
  | false => exact holds_pure fun _ => h
  | true =>
    have hbasic : bus_type_is_basic type = true := by
      unfold bus_type_is_basic bus_type_is_trivial at *
      rw [List.contains_append, ht]
      rfl
    obtain ⟨align, ha⟩ := Option.ne_none_iff_exists'.mp (alignment_of_basic hbasic)
    rw [Bool.not_true, ha]
    refine holds_bind (R := fun _ _ => True) (holds_cleanup (array_bytes_holds align) ?_)
      fun _ _ _ => holds_pure fun hr => by cases hr
    rintro m2 ⟨hroot, hsame⟩
    obtain ⟨c, rest, hc⟩ : ∃ c rest, m1.containers = c :: rest := by
      obtain ⟨k, rindex, type, contents, size, rfl⟩ := h
      exact ⟨_, _, rfl⟩
    refine holds_mono (message_quit_container_holds (E := fun _ => False) (hsame.trans hc)) ?_
      fun _ he => he.elim
    rintro _ m3 rfl
    exact cursor_of_left (c := c) h hroot hc.symm rfl

theorem sd_bus_message_read_basic_holds (type : UInt8) :
    (sd_bus_message_read_basic type).Holds m (fun r m' => r = none → m' = m)
      (fun m' => m' = m) := by
  have hrun := sd_bus_message_read_basic_state m type
  unfold Holds
  match hx : sd_bus_message_read_basic type m with
  | (.ok none, m') =>
    rw [hx] at hrun
    rcases hrun with h | ⟨q, v, h⟩
    · exact fun _ => h
    · cases h
  | (.ok (some _), m') => exact fun h => by cases h
  | (.err e, m') =>
    rw [hx] at hrun
    rcases hrun with h | ⟨q, v, h⟩
    · exact h
    · cases h
  | (.abort, m') => trivial

end cursor

/-! ## Section 3: All calls -/

/-- The calls that move the cursor. -/
inductive CursorCall where
  | read_basic (type : UInt8)
  | enter_container (env : ReadEnv) (type : UInt8) (contents : Option (List UInt8))
  | exit_container
  | peek_type (env : ReadEnv) (want : Bool)
  | read_array (env : ReadEnv) (type : UInt8)

/-- The call, and whether what it returns is positive. -/
def CursorCall.run : CursorCall → Call SdBusMessage Bool
  | read_basic type => do pure (← sd_bus_message_read_basic type).isSome
  | enter_container env type contents => sd_bus_message_enter_container env type contents
  | exit_container => do
    sd_bus_message_exit_container
    pure true
  | peek_type env want => do pure (← sd_bus_message_peek_type env want).isSome
  | read_array env type => do pure (← sd_bus_message_read_array env type).isSome

/-- **Read cursor atomicity**: a call that returns zero or an error leaves the
    cursor where it was, whatever the message. -/
theorem cursor_atomic (call : CursorCall) (m : SdBusMessage) :
    (∀ m', call.run m = (.ok false, m') → m'.cursor = m.cursor) ∧
      ∀ e m', call.run m = (.err e, m') → m'.cursor = m.cursor := by
  have hrun : call.run.Holds m (fun r m' => r = false → m'.cursor = m.cursor)
      (fun m' => m'.cursor = m.cursor) := by
    cases call with
    | read_basic type =>
      refine holds_bind (R := fun r m' => r = none → m' = m) (holds_mono
        (sd_bus_message_read_basic_holds type) (fun _ _ h => h) fun _ h => h ▸ rfl) ?_
      intro r m' h
      refine holds_pure fun hr => ?_
      rw [h (by simpa using hr)]
    | enter_container env type contents =>
      refine holds_mono (sd_bus_message_enter_container_holds env type contents) ?_
        fun _ h => h
      rintro r m' h rfl
      exact h
    | exit_container =>
      exact holds_bind (R := fun _ _ => True) (holds_mono
        sd_bus_message_exit_container_holds (fun _ _ h => h) fun _ h => h ▸ rfl)
        fun _ _ _ => holds_pure fun hr => by cases hr
    | peek_type env want =>
      refine holds_bind (R := fun _ m' => m' = m) (holds_mono
        (sd_bus_message_peek_type_holds env want) (fun _ _ h => h) fun _ h => h ▸ rfl) ?_
      rintro r m' rfl
      exact holds_pure fun _ => rfl
    | read_array env type =>
      refine holds_bind (R := fun r m' => r = none → m'.cursor = m.cursor)
        (sd_bus_message_read_array_holds env type) ?_
      intro r m' h
      exact holds_pure fun hr => h (by simpa using hr)
  exact ⟨fun m' h => hrun.of_ok h rfl, fun e m' h => hrun.of_err h⟩

end SdCompat.Bus
