import SdCompat.SdBus.MessageAppend

/-! # What a failed append leaves behind

    Opening a container and making space for a string either succeed, or
    poison the message, or leave it as it was. Appending a basic value does
    too, but for one case: the signature of the message is extended before the
    value is looked at.
-/

open Bytes

namespace SdCompat.Bus

open Call Bool SdBusMessage

/-! ## Section 1: What is to be as before -/

/-- The root signature, the signature and the index of every open container,
    the body size, the number of containers and the number of descriptors are
    as before. -/
structure Unchanged (m m' : SdBusMessage) : Prop where
  root : (m'.root_container.signature, m'.root_container.index) =
    (m.root_container.signature, m.root_container.index)
  containers : m'.containers.map (fun c => (c.signature, c.index)) =
    m.containers.map (fun c => (c.signature, c.index))
  body_size : m'.body.length = m.body.length
  n_fds : m'.fds.length = m.fds.length

theorem Unchanged.refl (m : SdBusMessage) : Unchanged m m := ⟨rfl, rfl, rfl, rfl⟩

/-- The message is poisoned, or it is as it was. -/
def Intact (m m' : SdBusMessage) : Prop := m'.poisoned = true ∨ Unchanged m m'

theorem Intact.refl (m : SdBusMessage) : Intact m m := .inr (.refl m)

/-- Only the index saved for an aborted container has changed. -/
theorem Unchanged.save_index (m : SdBusMessage) :
    Unchanged m (m.update_last fun c => { c with saved_index := c.index }) := by
  unfold update_last
  split
  · exact ⟨rfl, rfl, rfl, rfl⟩
  · next h => exact ⟨rfl, by simp [h], rfl, rfl⟩

/-! ## Section 2: The steps of an append -/

variable {m₀ : SdBusMessage}

/-- Extending the body fails only by poisoning the message. -/
theorem extend_body_errs (mem : Bool) (align : Nat) (data : List UInt8) (m : SdBusMessage) :
    (extend_body mem align data).Errs m (Intact m₀) := by
  rcases message_extend_body_cases mem align data m with ⟨m', h, hp⟩ | ⟨h, -⟩
  · refine errs_bind (fun e s' he => ?_) (fun a s' ha => ?_)
    · rw [h] at he
      cases he
    · rw [h] at ha
      cases ha
      exact errs_fail _ (.inl hp)
  · refine errs_bind (fun e s' he => ?_) (fun a s' ha => ?_)
    · rw [h] at he
      cases he
    · rw [h] at ha
      cases ha
      exact errs_pure _

/-- Extending the signature fails only by poisoning the message. -/
theorem extend_signature_errs (env : AppendEnv) (t : List UInt8) (m : SdBusMessage) :
    (extend_signature env t).Errs m (Intact m₀) := by
  unfold extend_signature
  split
  · exact errs_modify _
  · exact errs_modify_bind (errs_fail _ (.inl rfl))

/-- The first character of a complete type has an alignment. -/
theorem alignment_of_signature_is_single {contents : List UInt8} {allow : Bool}
    (h : signature_is_single contents allow = true) :
    bus_type_get_alignment (contents.headD 0) ≠ none := by
  unfold signature_is_single signature_fuel at h
  match contents with
  | [] => simp [signature_element_length_internal] at h
  | c :: s =>
    show bus_type_get_alignment c ≠ none
    by_cases hb : bus_type_is_basic c
    · exact alignment_of_basic hb
    rw [signature_element_length_internal] at h
    split at h
    · cases h
    · next t ht =>
      split_ifs at ht with hv ha _ hs _ hd
      · have : c = SD_BUS_TYPE_VARIANT := by simpa [hb] using hv
        rw [this]
        decide
      · rw [ha]
        decide
      · rw [hs]
        decide
      · have : c = SD_BUS_TYPE_DICT_ENTRY_BEGIN := by
          simp only [and_eq_true, beq_iff_eq] at hd
          exact hd.1
        rw [this]
        decide

variable {m : SdBusMessage}

/-- Before the body is extended there are checks, on a message that is still
    intact, and the extension of the signature. -/
theorem next_in_signature_errs (env : AppendEnv) (c : BusMessageContainer) (same : Bool)
    (t : List UInt8) (h : Intact m₀ m) : (next_in_signature env c same t).Errs m (Intact m₀) := by
  unfold next_in_signature
  split
  · unfold check
    split
    · exact errs_pure _
    · exact errs_fail _ h
  · exact errs_check_bind h fun _ => extend_signature_errs env t m

/-! ## Section 3: Containers and space for strings -/

section open_
variable {m₀ m : SdBusMessage} (env : AppendEnv) (c : BusMessageContainer) (contents : List UInt8)

theorem bus_message_open_array_errs (h : Intact m₀ m) :
    (bus_message_open_array env c contents).Errs m (Intact m₀) := by
  refine errs_check_bind h fun hs => ?_
  refine errs_bind (next_in_signature_errs env c _ _ h) fun _ m1 _ => ?_
  split
  · next ha => exact absurd ha (alignment_of_signature_is_single hs)
  · refine errs_bind (extend_body_errs _ _ _ _) fun a m2 _ => ?_
    refine errs_bind (extend_body_errs _ _ _ _) fun _ m3 _ => ?_
    exact errs_modify_bind (errs_pure _)

theorem bus_message_open_variant_errs (h : Intact m₀ m) :
    (bus_message_open_variant env c contents).Errs m (Intact m₀) := by
  refine errs_check_bind h fun _ => errs_check_bind h fun _ => ?_
  refine errs_bind (next_in_signature_errs env c _ _ h) fun _ m1 _ => ?_
  refine errs_bind (extend_body_errs _ _ _ _) fun a m2 _ => ?_
  exact errs_modify_bind (errs_pure _)

theorem bus_message_open_struct_errs (h : Intact m₀ m) :
    (bus_message_open_struct env c contents).Errs m (Intact m₀) := by
  refine errs_check_bind h fun _ => ?_
  refine errs_bind (next_in_signature_errs env c _ _ h) fun _ m1 _ => ?_
  refine errs_bind (extend_body_errs _ _ _ _) fun a m2 _ => ?_
  exact errs_modify_bind (errs_pure _)

theorem bus_message_open_dict_entry_errs (h : Intact m₀ m) :
    (bus_message_open_dict_entry env c contents).Errs m (Intact m₀) := by
  refine errs_check_bind h fun _ => errs_check_bind h fun _ => ?_
  refine errs_check_bind h fun _ => ?_
  exact errs_bind (extend_body_errs _ _ _ _) fun a m2 _ => errs_pure _

theorem bus_message_open_errs (type : UInt8) (h : Intact m₀ m) :
    (bus_message_open env c type contents).Errs m (Intact m₀) := by
  unfold bus_message_open
  split_ifs
  · exact bus_message_open_array_errs env c contents h
  · exact bus_message_open_variant_errs env c contents h
  · exact bus_message_open_struct_errs env c contents h
  · exact bus_message_open_dict_entry_errs env c contents h
  · exact errs_fail _ h

end open_

section
variable (env : AppendEnv)
include env

/-- Opening a container fails only with the message poisoned or as it was. -/
theorem sd_bus_message_open_container_errs (type : UInt8) (contents : List UInt8) (m : SdBusMessage) :
    (sd_bus_message_open_container env type contents).Errs m (Intact m) := by
  have h := Intact.refl m
  refine errs_get_bind (errs_check_bind h fun _ => errs_check_bind h fun _ => ?_)
  split
  · exact errs_modify_bind (errs_fail _ (.inl rfl))
  · refine errs_modify_bind (errs_bind ?_ fun a m1 _ => errs_modify _)
    exact bus_message_open_errs env _ contents type (.inr (Unchanged.save_index m))

/-- So does making space for a string. -/
theorem sd_bus_message_append_string_space_errs (s : List UInt8) (m : SdBusMessage) :
    (sd_bus_message_append_string_space env s).Errs m (Intact m) := by
  have h := Intact.refl m
  refine errs_get_bind (errs_check_bind h fun _ => errs_check_bind h fun _ => ?_)
  refine errs_bind (next_in_signature_errs env _ _ _ h) fun _ m1 _ => ?_
  exact errs_bind (extend_body_errs _ _ _ _) fun a m2 _ => errs_modify _

/-! ## Section 4: Basic values -/

/-- The value is refused: by its validation, or because the descriptor cannot
    be passed on or duplicated. -/
def BasicArg.refused (env : AppendEnv) (m : SdBusMessage) : BasicArg → Bool
  | .string p => !utf8_is_valid (p.getD [])
  | .object_path p => !(p.any object_path_is_valid)
  | .signature p => !signature_is_valid (p.getD []) true
  | .unix_fd none => true
  | .unix_fd (some fd) =>
    fd < 0 || !m.allow_fds || (match env.dup with
      | .error _ => true
      | .ok _ => false)
  | _ => false

/-- A descriptor that is refused is reported before anything is changed. -/
theorem message_push_fd_refused (fd : Int) (h : (BasicArg.unix_fd (some fd)).refused env m = true) :
    ∃ e, message_push_fd env fd m = (.err e, m) := by
  unfold message_push_fd
  by_cases hn : fd < 0
  · exact ⟨.EINVAL, by rw [if_pos hn]; rfl⟩
  rw [if_neg hn]
  by_cases ha : m.allow_fds
  · cases hd : env.dup with
    | error e => exact ⟨e, by simp [ha]⟩
    | ok copy => simp [BasicArg.refused, hn, ha, hd] at h
  · exact ⟨.EOPNOTSUPP, by simp [ha]⟩

theorem message_push_fd_errs (fd : Int)
    (h : (BasicArg.unix_fd (some fd)).refused env m = true → Intact m₀ m) :
    (message_push_fd env fd).Errs m (Intact m₀) := by
  unfold message_push_fd
  by_cases hn : fd < 0
  · rw [if_pos hn]
    exact errs_fail _ (h (by simp [BasicArg.refused, hn]))
  rw [if_neg hn]
  apply errs_get_bind
  by_cases ha : m.allow_fds
  · simp only [ha, Bool.not_true, Bool.false_eq_true, if_false]
    cases hd : env.dup with
    | error e => exact errs_fail _ (h (by simp [BasicArg.refused, hd]))
    | ok copy =>
      dsimp only
      split
      · exact errs_modify_bind (errs_fail _ (.inl rfl))
      · exact errs_pure _
  · simp only [ha, if_true]
    exact errs_fail _ (h (by simp [BasicArg.refused, ha]))

/-- A value that is refused is reported with the message as it is then. -/
theorem basic_data_refused (a : BasicArg) (h : a.refused env m = true) :
    ∃ e, basic_data env a m = (.err e, m) := by
  cases a with
  | string p =>
    have h' : (!utf8_is_valid (p.getD [])) = true := h
    exact ⟨.EINVAL, by simp only [basic_data, h']; rfl⟩
  | object_path p =>
    cases p with
    | none => exact ⟨.EINVAL, rfl⟩
    | some s =>
      have h' : (!object_path_is_valid s) = true := h
      exact ⟨.EINVAL, by simp only [basic_data, h']; rfl⟩
  | signature p =>
    have h' : (!signature_is_valid (p.getD []) true) = true := h
    exact ⟨.EINVAL, by simp only [basic_data, h']; rfl⟩
  | unix_fd p =>
    cases p with
    | none => exact ⟨.EINVAL, rfl⟩
    | some fd =>
      obtain ⟨e, he⟩ := message_push_fd_refused env fd h
      exact ⟨e, by simp only [basic_data, bind_run, he]⟩
  | fixed t n => cases h
  | boolean p => cases h
  | not_basic t => cases h

/-- A value that is not refused is written, but for lack of memory. -/
theorem basic_data_errs (a : BasicArg) (h : a.refused env m = true → Intact m₀ m) :
    (basic_data env a).Errs m (Intact m₀) := by
  cases a with
  | string p =>
    show (if (!utf8_is_valid (p.getD [])) = true then _ else _ : Call _ _).Errs m (Intact m₀)
    split
    · next hr => exact errs_fail _ (h hr)
    · exact errs_pure _
  | object_path p =>
    cases p with
    | none => exact errs_fail _ (h rfl)
    | some s =>
      show (if (!object_path_is_valid s) = true then _ else _ : Call _ _).Errs m (Intact m₀)
      split
      · next hr => exact errs_fail _ (h hr)
      · exact errs_pure _
  | signature p =>
    show (if (!signature_is_valid (p.getD []) true) = true then _ else _ : Call _ _).Errs m
      (Intact m₀)
    split
    · next hr => exact errs_fail _ (h hr)
    · exact errs_pure _
  | unix_fd p =>
    cases p with
    | none => exact errs_fail _ (h rfl)
    | some fd =>
      apply errs_bind (message_push_fd_errs env fd h)
      intro copy m1 _
      exact errs_get_bind (errs_pure _)
  | fixed t n =>
    unfold basic_data
    dsimp only
    split
    · exact errs_pure _
    · exact errs_abort
  | boolean p => exact errs_pure _
  | not_basic t => exact errs_abort

/-- The value comes at the end of the signature of the top-level container,
    which is extended, and then the value is refused. -/
def BasicArg.too_late (env : AppendEnv) (m : SdBusMessage) (a : BasicArg) : Bool :=
  !m.sealed && bus_type_is_basic a.type && !m.poisoned &&
    m.last_container.enclosing == 0 && m.last_container.current.isNone && env.signature &&
    a.refused env m

theorem next_in_signature_end (same : Bool) (t : List UInt8) (he : m.last_container.enclosing = 0)
    (hc : m.last_container.current = none) (hs : env.signature = true) :
    next_in_signature env m.last_container same t m =
      (.ok ⟨⟩, m.update_last fun c => { c with signature := c.signature ++ t }) := by
  unfold next_in_signature extend_signature
  rw [hc]
  simp [he, hs, check_bind_run_true]

/-- Where the signature is not extended, the message is still as it was when
    the value is looked at. -/
theorem next_in_signature_intact {m₁ : SdBusMessage} (same : Bool) (t : List UInt8)
    (h : next_in_signature env m.last_container same t m = (.ok ⟨⟩, m₁))
    (hn : (m.last_container.enclosing == 0 && m.last_container.current.isNone && env.signature) = false) :
    m₁ = m := by
  unfold next_in_signature at h
  cases hc : m.last_container.current with
  | some t' =>
    rw [hc] at h
    cases same with
    | true =>
      cases h
      rfl
    | false => cases h
  | none =>
    rw [hc] at h
    dsimp only at h
    cases he : m.last_container.enclosing == 0 with
    | false =>
      rw [he] at h
      cases h
    | true =>
      have hs : env.signature = false := by simpa [he, hc] using hn
      rw [he, check_bind_run_true rfl] at h
      simp [extend_signature, hs] at h

/-- The allowance for descriptors is not touched by the signature. -/
theorem refused_update_last (m : SdBusMessage) (a : BasicArg)
    (f : BusMessageContainer → BusMessageContainer) :
    a.refused env (m.update_last f) = a.refused env m := by
  have h : (m.update_last f).allow_fds = m.allow_fds := by
    unfold update_last
    split <;> rfl
  cases a <;> try rfl
  next p => cases p with
    | none => rfl
    | some fd => simp only [BasicArg.refused, h]

end

/-- A longer signature is a change. -/
theorem not_unchanged_of_extended (m : SdBusMessage) (t : UInt8) :
    ¬ Unchanged m (m.update_last fun c => { c with signature := c.signature ++ [t] }) := by
  intro h
  unfold update_last at h
  split at h
  · have hr := congrArg (fun p => p.1.length) h.root
    simp at hr
  · next c cs hc =>
    have hr := congrArg (fun l => l.head?.map (fun p => p.1.length)) h.containers
    simp [hc] at hr

theorem sd_bus_message_append_basic_errs (env : AppendEnv) (a : BasicArg) (m : SdBusMessage)
    (hl : a.too_late env m = false) : (sd_bus_message_append_basic env a).Errs m (Intact m) := by
  have h := Intact.refl m
  apply errs_check_bind h
  intro hs
  apply errs_check_bind h
  intro hb
  apply errs_check_bind h
  intro hp
  apply errs_bind (next_in_signature_errs env _ _ _ h)
  intro _ m1 h1
  -- the value is refused only while the message is still as it was
  have hd : a.refused env m1 = true → Intact m m1 := by
    intro hr
    cases he : (m.last_container.enclosing == 0 && m.last_container.current.isNone &&
        env.signature) with
    | false =>
      rw [next_in_signature_intact env _ _ h1 he]
      exact h
    | true =>
      simp only [and_eq_true, beq_iff_eq, Option.isNone_iff_eq_none] at he
      obtain ⟨⟨he, hc⟩, hg⟩ := he
      rw [next_in_signature_end env _ _ he hc hg] at h1
      cases h1
      rw [refused_update_last] at hr
      simp [BasicArg.too_late, hs, hb, hp, he, hc, hg, hr] at hl
  apply errs_bind (basic_data_errs env a hd)
  intro _ m2 _
  apply errs_bind (extend_body_errs _ _ _ _)
  intro _ m3 _
  exact errs_modify _

/-- A value that is refused too late leaves the signature extended. -/
theorem sd_bus_message_append_basic_too_late (env : AppendEnv) (a : BasicArg)
    (m : SdBusMessage) (hl : a.too_late env m = true) :
    ∃ e, sd_bus_message_append_basic env a m =
      (.err e, m.update_last fun c => { c with signature := c.signature ++ [a.type] }) ∧
      m.poisoned = false := by
  simp only [BasicArg.too_late, and_eq_true, not_eq_true', beq_iff_eq,
    Option.isNone_iff_eq_none] at hl
  obtain ⟨⟨⟨⟨⟨⟨hs, hb⟩, hp⟩, he⟩, hc⟩, hg⟩, hr⟩ := hl
  rw [← refused_update_last env m a fun c => { c with signature := c.signature ++ [a.type] }]
    at hr
  obtain ⟨e, hd⟩ := basic_data_refused env a hr
  refine ⟨e, ?_, hp⟩
  unfold sd_bus_message_append_basic message_append_basic
  rw [get_bind_run, check_bind_run_true (by simp [hs]), check_bind_run_true hb,
    check_bind_run_true (by simp [hp]), bind_run, next_in_signature_end env _ _ he hc hg]
  simp only [bind_run, hd]

/-! ## Section 5: Every append -/

/-- The calls that append to a message. -/
inductive AppendCall where
  | basic (a : BasicArg)
  | open_container (type : UInt8) (contents : List UInt8)
  | string_space (s : List UInt8)

def AppendCall.run (env : AppendEnv) : AppendCall → Call SdBusMessage PUnit
  | .basic a => sd_bus_message_append_basic env a
  | .open_container type contents => sd_bus_message_open_container env type contents
  | .string_space s => sd_bus_message_append_string_space env s

/-- The call refuses its value after it has extended the signature. -/
def AppendCall.too_late (env : AppendEnv) (m : SdBusMessage) : AppendCall → Bool
  | .basic a => a.too_late env m
  | _ => false

/-- A call that fails leaves the message poisoned or as it was, whatever its
    state, unless the call extends the signature and then refuses the value;
    and then it does not. -/
theorem append_atomic_iff (env : AppendEnv) (call : AppendCall) (m : SdBusMessage) :
    (call.run env).Errs m (Intact m) ↔ call.too_late env m = false := by
  constructor
  · intro h
    rw [← not_eq_true]
    intro hl
    cases call with
    | basic a =>
      obtain ⟨e, hr, hp⟩ := sd_bus_message_append_basic_too_late env a m hl
      rcases h _ _ hr with hp' | hu
      · have : (m.update_last fun c =>
            { c with signature := c.signature ++ [a.type] }).poisoned = m.poisoned := by
          unfold update_last
          split <;> rfl
        rw [this, hp] at hp'
        cases hp'
      · exact not_unchanged_of_extended m a.type hu
    | open_container type contents => cases hl
    | string_space s => cases hl
  · intro hl
    cases call with
    | basic a => exact sd_bus_message_append_basic_errs env a m hl
    | open_container type contents =>
      exact sd_bus_message_open_container_errs env type contents m
    | string_space s => exact sd_bus_message_append_string_space_errs env s m

/-- A string that is not UTF-8, appended to a new message. -/
theorem append_not_atomic :
    ¬ ∀ (env : AppendEnv) (call : AppendCall),
      (call.run env).Errs (sd_bus_message_new 4 true false)
        (Intact (sd_bus_message_new 4 true false)) := by
  intro h
  have hr := h ⟨true, true, true, true, true, true, .ok 3⟩ (.basic (.string (some [0xff])))
  have he : (AppendCall.run ⟨true, true, true, true, true, true, .ok 3⟩
      (.basic (.string (some [0xff])))) (sd_bus_message_new 4 true false) =
      (.err .EINVAL, (sd_bus_message_new 4 true false).update_last fun c =>
        { c with signature := c.signature ++ [SD_BUS_TYPE_STRING] }) := by
    decide +kernel
  rcases hr _ _ he with hp | hu
  · cases hp
  · exact not_unchanged_of_extended _ _ hu

end SdCompat.Bus
