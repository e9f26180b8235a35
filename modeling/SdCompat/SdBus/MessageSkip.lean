import SdCompat.SdBus.MessageReadArray
import SdCompat.SdBus.MessageReadSafe

/-! # Skipping, and reading one by one

    What `sd_bus_message_skip` does, against the calls that read the same
    elements: basic values are read, containers are entered and left, and an
    array is read until it is at its end. Skipping notices the end of an array
    of containers only by entering one more of them, for which there has to be
    room.
-/

open Bytes

namespace SdCompat.Bus

open Call Ty List

/-! ## Section 1: Reading one by one -/

/-- What is to be read: types one after the other, or the elements of an array
    that has been entered. -/
inductive Todo where
  | types (ts : List Ty)
  | elements (t : Ty)

/-- The calls that read elements one by one, with the allocations they see:
    whether there was anything to read, and the message they leave. At the end
    of an array `room` is asked for. -/
inductive ReadsOne (room : ReadEnv → Ty → SdBusMessage → Prop) :
    ReadEnv → Todo → SdBusMessage → Bool → SdBusMessage → Prop where
  | nil {env m} : ReadsOne room env (.types []) m false m
  | at_end {env t ts m} (hsealed : m.sealed = true) (hs : message_end_of_signature m = false)
      (ha : message_end_of_array m.rindex m = (.ok true, m)) (hr : room env t m) :
      ReadsOne room env (.types (t :: ts)) m false m
  | basic {env} {b : BasicType} {ts m qv m₁ r m₂}
      (hread : sd_bus_message_read_basic b.code m = (.ok (some qv), m₁))
      (hrest : ReadsOne room (env.sub 1) (.types ts) m₁ r m₂) :
      ReadsOne room env (.types (.basic b :: ts)) m true m₂
  | array {env t ts m m₁ m₂ m₃ r m₄}
      (henter : sd_bus_message_enter_container (env.sub 0) SD_BUS_TYPE_ARRAY (some t.sig) m =
        (.ok true, m₁))
      (hread : ReadsOne room (env.sub 2) (.elements t) m₁ true m₂)
      (hexit : sd_bus_message_exit_container m₂ = (.ok ⟨⟩, m₃))
      (hrest : ReadsOne room (env.sub 1) (.types ts) m₃ r m₄) :
      ReadsOne room env (.types (.array t :: ts)) m true m₄
  | no_variant {env ts m m₁}
      (hpeek : sd_bus_message_peek_type (env.sub 3) true m = (.ok none, m₁)) :
      ReadsOne room env (.types (.variant :: ts)) m false m₁
  | variant {env t ts m p m₁ m₂ m₃ m₄ r m₅}
      (hpeek : sd_bus_message_peek_type (env.sub 3) true m = (.ok (some p), m₁))
      (htype : p.type = SD_BUS_TYPE_VARIANT) (hcontents : p.contents = some t.sig)
      (henter : sd_bus_message_enter_container (env.sub 0) SD_BUS_TYPE_VARIANT (some t.sig) m₁ =
        (.ok true, m₂))
      (hread : ReadsOne room (env.sub 2) (.types [t]) m₂ true m₃)
      (hexit : sd_bus_message_exit_container m₃ = (.ok ⟨⟩, m₄))
      (hrest : ReadsOne room (env.sub 1) (.types ts) m₄ r m₅) :
      ReadsOne room env (.types (.variant :: ts)) m true m₅
  | struct {env members ts m m₁ r₁ m₂ m₃ r m₄}
      (henter : sd_bus_message_enter_container (env.sub 0) SD_BUS_TYPE_STRUCT
        (some (sigs members)) m = (.ok true, m₁))
      (hread : ReadsOne room (env.sub 2) (.types members) m₁ r₁ m₂)
      (hexit : sd_bus_message_exit_container m₂ = (.ok ⟨⟩, m₃))
      (hrest : ReadsOne room (env.sub 1) (.types ts) m₃ r m₄) :
      ReadsOne room env (.types (.struct members :: ts)) m true m₄
  | dict_entry {env} {key : BasicType} {value ts m m₁ r₁ m₂ m₃ r m₄}
      (henter : sd_bus_message_enter_container (env.sub 0) SD_BUS_TYPE_DICT_ENTRY
        (some (sigs [.basic key, value])) m = (.ok true, m₁))
      (hread : ReadsOne room (env.sub 2) (.types [.basic key, value]) m₁ r₁ m₂)
      (hexit : sd_bus_message_exit_container m₂ = (.ok ⟨⟩, m₃))
      (hrest : ReadsOne room (env.sub 1) (.types ts) m₃ r m₄) :
      ReadsOne room env (.types (.dict_entry key value :: ts)) m true m₄
  | no_more {env t m m₁} (hread : ReadsOne room (env.sub 0) (.types [t]) m false m₁) :
      ReadsOne room env (.elements t) m true m₁
  | more {env t m m₁ m₂} (hread : ReadsOne room (env.sub 0) (.types [t]) m true m₁)
      (hrest : ReadsOne room (env.sub 1) (.elements t) m₁ true m₂) :
      ReadsOne room env (.elements t) m true m₂

/-- Reading asks for nothing at the end of an array. -/
def NoRoom (_ : ReadEnv) (_ : Ty) (_ : SdBusMessage) : Prop := True

/-- One more container can be entered, where the elements are containers that
    skipping enters by their type. -/
def Room (env : ReadEnv) : Ty → SdBusMessage → Prop
  | .basic _, _ => True
  | .variant, _ => True
  | _, m => m.containers.length < BUS_CONTAINER_DEPTH ∧ env.sub 0 [1] = true

/-- What is read: these types, or the element that comes next. -/
def ReadsNext (room : ReadEnv → Ty → SdBusMessage → Prop) (env : ReadEnv) (m : SdBusMessage)
    (r : Bool) (m' : SdBusMessage) : Option (List Ty) → Prop
  | some ts => ReadsOne room env (.types ts) m r m'
  | none => message_end_of_signature m = false ∧
      ((message_end_of_array m.rindex m = (.ok true, m) ∧ r = false ∧ m' = m) ∨
        (message_end_of_array m.rindex m = (.ok false, m) ∧
          ∃ t : Ty, t.Ok true 0 0 ∧
            t.sig <+: m.last_container.signature.drop m.last_container.index ∧
            ReadsOne room env (.types [t]) m r m'))

/-- All of the types are complete. -/
def Todo.Ok : Todo → Prop
  | .types ts => ∀ t ∈ ts, t.Ok true 0 0
  | .elements t => t.Ok true 0 0

variable {m : SdBusMessage}

variable {env : ReadEnv} {m' : SdBusMessage}

variable {todo : Todo}

/-- To ask for less. -/
theorem ReadsOne.mono {room room' : ReadEnv → Ty → SdBusMessage → Prop}
    (hroom : ∀ env t m, room env t m → room' env t m) {r : Bool} (h : ReadsOne room env todo m r m') :
    ReadsOne room' env todo m r m' := by
  induction h with
  | nil => exact .nil
  | at_end hsealed hs ha hr => exact .at_end hsealed hs ha (hroom _ _ _ hr)
  | basic hread _ ih => exact .basic hread ih
  | array henter _ hexit _ ih1 ih2 => exact .array henter ih1 hexit ih2
  | no_variant hpeek => exact .no_variant hpeek
  | variant hpeek htype hcontents henter _ hexit _ ih1 ih2 =>
    exact .variant hpeek htype hcontents henter ih1 hexit ih2
  | struct henter _ hexit _ ih1 ih2 => exact .struct henter ih1 hexit ih2
  | dict_entry henter _ hexit _ ih1 ih2 => exact .dict_entry henter ih1 hexit ih2
  | no_more _ ih => exact .no_more ih
  | more _ _ ih1 ih2 => exact .more ih1 ih2

/-! ## Section 2: Fuel -/

/-- What is skipped for it. -/
def skip_todo (fuel : Nat) (env : ReadEnv) : Todo → Call SdBusMessage Bool
  | .types ts => skip_types fuel env (sigs ts)
  | .elements t => do
    skip_elements fuel env t.sig
    pure true

/-- More fuel does not change what is skipped. -/
theorem skip_succ (fuel : Nat) :
    (∀ env types m, Within (skip_types fuel env types) (skip_types (fuel + 1) env types) m) ∧
    (∀ env s m, Within (skip_elements fuel env s) (skip_elements (fuel + 1) env s) m) := by
  induction fuel with
  | zero => exact ⟨fun _ _ _ => within_abort _ _, fun _ _ _ => within_abort _ _⟩
  | succ fuel ih =>
    obtain ⟨ih_types, ih_elements⟩ := ih
    -- the rest of the types
    have hrest : ∀ env types m, Within
        (skip_types fuel env types >>= fun _ => (pure true : Call SdBusMessage Bool))
        (skip_types (fuel + 1) env types >>= fun _ => pure true) m :=
      fun env types m => within_bind (ih_types env types m) fun _ _ => within_refl _ _
    have hleave : ∀ env types m, Within
        (sd_bus_message_exit_container >>= fun _ => skip_types fuel env types >>= fun _ =>
          (pure true : Call SdBusMessage Bool))
        (sd_bus_message_exit_container >>= fun _ => skip_types (fuel + 1) env types >>= fun _ =>
          pure true) m :=
      fun env types m => within_bind (within_refl _ _) fun _ _ => hrest _ _ _
    constructor
    · intro env types m
      cases types with
      | nil => exact within_refl _ _
      | cons t types =>
        rw [skip_types, skip_types]
        split
        · refine within_bind (within_refl _ _) fun r m1 => ?_
          cases r with
          | none => exact within_refl _ _
          | some _ => exact hrest _ _ _
        split
        · split
          · exact within_refl _ _
          · refine within_bind (within_refl _ _) fun r m1 => ?_
            split
            · exact within_refl _ _
            · exact within_bind (ih_elements _ _ _) fun _ _ => hleave _ _ _
        split
        · refine within_bind (within_refl _ _) fun r m1 => ?_
          cases r with
          | none => exact within_refl _ _
          | some p =>
            refine within_bind (within_refl _ _) fun _ m2 => ?_
            refine within_bind (within_refl _ _) fun r m3 => ?_
            split
            · exact within_refl _ _
            · refine within_bind (ih_types _ _ _) fun r m4 => ?_
              split
              · exact within_refl _ _
              · exact hleave _ _ _
        split
        · split
          · exact within_refl _ _
          · refine within_bind (within_refl _ _) fun _ m2 => ?_
            refine within_bind (within_refl _ _) fun r m3 => ?_
            split
            · exact within_refl _ _
            · exact within_bind (ih_types _ _ _) fun _ _ => hleave _ _ _
        · exact within_refl _ _
    · intro env s m
      refine within_bind (ih_types _ _ _) fun r m1 => ?_
      split
      · exact ih_elements _ _ _
      · exact within_refl _ _

variable {fuel fuel' : Nat}

theorem skip_types_le (hle : fuel ≤ fuel') (env : ReadEnv) (types : List UInt8) (m : SdBusMessage) :
    Within (skip_types fuel env types) (skip_types fuel' env types) m := by
  induction hle with
  | refl => exact within_refl _ _
  | step _ ih => exact fun o m' h hne => (skip_succ _).1 env types m o m' (ih o m' h hne) hne

theorem skip_elements_le (hle : fuel ≤ fuel') (env : ReadEnv) (s : List UInt8) (m : SdBusMessage) :
    Within (skip_elements fuel env s) (skip_elements fuel' env s) m := by
  induction hle with
  | refl => exact within_refl _ _
  | step _ ih => exact fun o m' h hne => (skip_succ _).2 env s m o m' (ih o m' h hne) hne

/-! ## Section 3: The end of an array -/

section ends
variable {m m' : SdBusMessage}

/-- Nothing is read of a basic type exactly at the end of an array. -/
theorem read_basic_none {b : BasicType} : sd_bus_message_read_basic b.code m = (.ok none, m') ↔
      m' = m ∧ m.sealed = true ∧ message_end_of_signature m = false ∧
        message_end_of_array m.rindex m = (.ok true, m) := by
  unfold sd_bus_message_read_basic
  rw [get_bind_run]
  constructor
  · intro h
    obtain ⟨hsealed, h⟩ := of_check_bind_ok h
    obtain ⟨-, h⟩ := of_check_bind_ok h
    obtain ⟨hs, h⟩ := of_check_bind_ok h
    obtain ⟨r, m1, hend, h⟩ := of_bind_ok h
    obtain rfl : m1 = m := by
      have := message_end_of_array_state m m.rindex
      rwa [hend] at this
    cases r with
    | true =>
      cases h
      exact ⟨rfl, hsealed, by simpa using hs, hend⟩
    | false =>
      obtain ⟨_, m3, -, h⟩ := of_bind_ok h
      obtain ⟨_, m4, -, h⟩ := of_bind_ok h
      cases h
  · rintro ⟨rfl, hsealed, hs, hend⟩
    rw [check_bind_run_true hsealed, check_bind_run_true b.code_basic,
      check_bind_run_true (by rw [hs]; rfl), bind_run_ok hend]
    rfl

variable {env : ReadEnv}

/-- Nothing is peeked at there either. -/
theorem peek_at_end (hsealed : m.sealed = true) (hs : message_end_of_signature m = false)
    (hend : message_end_of_array m.rindex m = (.ok true, m)) :
    sd_bus_message_peek_type env true m = (.ok none, m) := by
  unfold sd_bus_message_peek_type
  rw [get_bind_run, check_bind_run_true hsealed, hs, if_neg Bool.false_ne_true,
    bind_run_ok hend]
  rfl

/-- Peeking changes nothing. -/
theorem peek_type_state {p : Option PeekedType}
    (h : sd_bus_message_peek_type env true m = (.ok p, m')) : m' = m :=
  (sd_bus_message_peek_type_holds env true).of_ok h

variable {contents : List UInt8}

variable {type : UInt8}

/-- What is next in the signature is entered, or it is an error. -/
theorem bus_message_enter_isSome {r : Option (Option Nat)} (hs : message_end_of_signature m = false)
    (h : bus_message_enter type contents m = (.ok r, m')) : r ≠ none := by
  rintro rfl
  unfold bus_message_enter at h
  split at h
  · obtain ⟨a, m1, -, hpure⟩ := of_bind_ok h
    cases hpure
  split at h
  · obtain ⟨a, m1, -, hpure⟩ := of_bind_ok h
    cases hpure
  split at h
  · obtain ⟨a, m1, -, hpure⟩ := of_bind_ok h
    cases hpure
  split at h
  · obtain ⟨entered, m1, hentry, hpure⟩ := of_bind_ok h
    have hentered : entered = true := by
      obtain ⟨-, hentry⟩ := of_check_bind_ok hentry
      obtain ⟨-, hentry⟩ := of_check_bind_ok hentry
      rw [hs] at hentry
      obtain ⟨_, m2, -, hpure⟩ := of_bind_ok hentry
      cases hpure
      rfl
    subst hentered
    cases hpure
  · cases h

/-- A container is not entered at the end of an array, for which there has to
    be room all the same. -/
theorem enter_container_false (ht : type ≠ 0) :
    sd_bus_message_enter_container env type (some contents) m = (.ok false, m') ↔
      m' = m ∧ m.sealed = true ∧ m.containers.length < BUS_CONTAINER_DEPTH ∧ env [1] = true ∧
        message_end_of_signature m = false ∧ message_end_of_array m.rindex m = (.ok true, m) := by
  constructor
  · intro h
    obtain ⟨hsealed, h⟩ := of_check_bind_ok h
    obtain ⟨-, h⟩ := of_check_bind_ok h
    rw [if_neg (by simp [ht])] at h
    obtain ⟨hdepth, h⟩ := of_check_bind_ok h
    obtain ⟨henv, h⟩ := of_check_bind_ok h
    obtain ⟨hs, h⟩ := of_check_bind_ok h
    obtain ⟨r, m1, hend, h⟩ := of_bind_ok h
    obtain rfl : m1 = m := by
      have := message_end_of_array_state m m.rindex
      rwa [hend] at this
    cases r with
    | true =>
      cases h
      exact ⟨rfl, hsealed, of_decide_eq_true hdepth, henv, by simpa using hs, hend⟩
    | false =>
      obtain ⟨-, h⟩ := of_check_bind_ok h
      rw [modify_bind_run] at h
      obtain ⟨r, m2, henter, h⟩ := of_bind_ok h
      have hs' : message_end_of_signature (m1.update_last fun c => { c with saved_index := c.index })
          = false := by
        have : message_end_of_signature m1 = false := by simpa using hs
        unfold SdBusMessage.update_last
        unfold message_end_of_signature SdBusMessage.last_container at this ⊢
        match hc : m1.containers with
        | [] => rwa [hc] at this
        | c :: cs => rwa [hc] at this
      match r with
      | none => exact absurd rfl (bus_message_enter_isSome hs' henter)
      | some array_size =>
        obtain ⟨_, m3, -, hpure⟩ := of_bind_ok h
        cases hpure
  · rintro ⟨rfl, hsealed, hdepth, henv, hs, hend⟩
    unfold sd_bus_message_enter_container
    rw [get_bind_run, check_bind_run_true hsealed,
      check_bind_run_true (by simp [ht]), if_neg (by simp [ht])]
    unfold enter_container
    rw [get_bind_run, check_bind_run_true (decide_eq_true hdepth),
      check_bind_run_true henv, check_bind_run_true (by rw [hs]; rfl),
      bind_run_ok hend]
    rfl

/-- A variant that is peeked at has contents. -/
theorem peek_variant_contents {p : PeekedType}
    (h : sd_bus_message_peek_type env true m = (.ok (some p), m'))
    (ht : p.type = SD_BUS_TYPE_VARIANT) : ∃ contents, p.contents = some contents := by
  have hcopy : ∀ {env : ReadEnv} {type : UInt8} {contents : List UInt8} {m1 : SdBusMessage},
      peeked_signature env type contents m1 = (.ok (some p), m') →
        ∃ contents, p.contents = some contents := by
    intro env type contents m1 h
    obtain ⟨-, h⟩ := of_check_bind_ok h
    cases h
    exact ⟨_, rfl⟩
  obtain ⟨-, h⟩ := of_check_bind_ok h
  by_cases hs : message_end_of_signature m = true
  · rw [if_pos hs] at h
    cases h
  rw [if_neg hs] at h
  obtain ⟨r, m1, -, h⟩ := of_bind_ok h
  cases r with
  | true => cases h
  | false =>
  rw [if_neg Bool.false_ne_true] at h
  match hd : m.last_container.signature.drop m.last_container.index with
  | [] =>
    rw [hd] at h
    cases h
  | t :: s =>
    rw [hd] at h
    dsimp only at h
    by_cases hb : bus_type_is_basic t = true
    · rw [if_pos hb] at h
      cases h
      rw [show t = SD_BUS_TYPE_VARIANT from ht] at hb
      cases hb
    rw [if_neg hb] at h
    by_cases ha : t = SD_BUS_TYPE_ARRAY
    · rw [if_pos ha, if_neg (by decide)] at h
      cases hl : signature_element_length s with
      | none =>
        rw [hl] at h
        cases h
      | some l =>
        rw [hl] at h
        dsimp only at h
        split at h
        · cases h
        · exact hcopy h
    rw [if_neg ha] at h
    by_cases hm : (t = SD_BUS_TYPE_STRUCT_BEGIN || t = SD_BUS_TYPE_DICT_ENTRY_BEGIN) = true
    · rw [if_pos hm, if_neg (by decide)] at h
      cases hl : signature_element_length (t :: s) with
      | none =>
        rw [hl] at h
        cases h
      | some l =>
        rw [hl] at h
        dsimp only at h
        split at h
        · cases h
        · exact hcopy h
    rw [if_neg hm] at h
    by_cases hv : t = SD_BUS_TYPE_VARIANT
    · rw [if_pos hv] at h
      obtain ⟨q, m2, -, h⟩ := of_bind_ok h
      cases h
      exact ⟨_, rfl⟩
    · rw [if_neg hv] at h
      cases h

/-- What is in a variant is one complete type. -/
theorem enter_variant_single
    (h : sd_bus_message_enter_container env SD_BUS_TYPE_VARIANT (some contents) m = (.ok true, m')) :
    signature_is_single contents false = true := by
  obtain ⟨-, h⟩ := of_check_bind_ok h
  obtain ⟨-, h⟩ := of_check_bind_ok h
  obtain ⟨-, h⟩ := of_check_bind_ok h
  obtain ⟨-, h⟩ := of_check_bind_ok h
  obtain ⟨-, h⟩ := of_check_bind_ok h
  obtain ⟨r, m1, -, h⟩ := of_bind_ok h
  cases r with
  | true => cases h
  | false =>
  obtain ⟨-, h⟩ := of_check_bind_ok h
  rw [modify_bind_run] at h
  obtain ⟨r', m2, henter, -⟩ := of_bind_ok h
  obtain ⟨_, m3, hvariant, -⟩ := of_bind_ok henter
  exact (of_check_bind_ok hvariant).1

end ends

/-! ## Section 4: One type -/

/-- What is skipped in a container, and behind it. -/
def skip_in {α : Type} (enter : Call SdBusMessage Bool) (inside : Call SdBusMessage α)
    (rest : Call SdBusMessage Bool) : Call SdBusMessage Bool := do
  if !(← enter) then pure false
  else do
    let _ ← inside
    sd_bus_message_exit_container
    let _ ← rest
    pure true

section types
variable {fuel : Nat} {env : ReadEnv} {ts : List Ty} {m m' : SdBusMessage}

theorem skip_in_ok {α : Type} {enter : Call SdBusMessage Bool} {inside : Call SdBusMessage α}
    {rest : Call SdBusMessage Bool} {r : Bool} : skip_in enter inside rest m = (.ok r, m') ↔
      (enter m = (.ok false, m') ∧ r = false) ∨
      (r = true ∧ ∃ m₁ a m₂ m₃ b, enter m = (.ok true, m₁) ∧ inside m₁ = (.ok a, m₂) ∧
        sd_bus_message_exit_container m₂ = (.ok ⟨⟩, m₃) ∧ rest m₃ = (.ok b, m')) := by
  constructor
  · intro h
    obtain ⟨entered, m₁, henter, h⟩ := of_bind_ok h
    cases entered with
    | false =>
      cases h
      exact .inl ⟨henter, rfl⟩
    | true =>
      obtain ⟨a, m₂, hinside, h⟩ := of_bind_ok h
      obtain ⟨_, m₃, hexit, h⟩ := of_bind_ok h
      obtain ⟨b, m4, hrest, hpure⟩ := of_bind_ok h
      cases hpure
      exact .inr ⟨rfl, m₁, a, m₂, m₃, b, henter, hinside, hexit, hrest⟩
  · rintro (⟨henter, rfl⟩ | ⟨rfl, m₁, a, m₂, m₃, b, henter, hinside, hexit, hrest⟩)
    · unfold skip_in
      rw [bind_run_ok henter]
      rfl
    · unfold skip_in
      rw [bind_run_ok henter, if_neg (by decide), bind_run_ok hinside,
        bind_run_ok hexit, bind_run_ok hrest]
      rfl

theorem skip_basic (b : BasicType) :
    skip_types (fuel + 1) env (sigs (.basic b :: ts)) = (do
      match ← sd_bus_message_read_basic b.code with
      | none => pure false
      | some _ => do
        let _ ← skip_types fuel (env.sub 1) (sigs ts)
        pure true) := by
  show skip_types (fuel + 1) env (b.code :: sigs ts) = _
  rw [skip_types, if_pos b.code_basic]
  all_goals rfl

theorem skip_array {t : Ty} (ht : t.Ok true 0 0) :
    skip_types (fuel + 1) env (sigs (.array t :: ts)) =
      skip_in (sd_bus_message_enter_container (env.sub 0) SD_BUS_TYPE_ARRAY (some t.sig))
        (skip_elements fuel (env.sub 2) t.sig) (skip_types fuel (env.sub 1) (sigs ts)) := by
  show skip_types (fuel + 1) env (SD_BUS_TYPE_ARRAY :: (t.sig ++ sigs ts)) = _
  rw [skip_types, signature_element_length_sig _ ht]
  dsimp only
  rw [take_left, drop_left]
  rfl

theorem skip_struct {members : List Ty} (ht : (struct members).Ok true 0 0) :
    skip_types (fuel + 1) env (sigs (.struct members :: ts)) =
      skip_in (sd_bus_message_enter_container (env.sub 0) SD_BUS_TYPE_STRUCT (some (sigs members)))
        (skip_types fuel (env.sub 2) (sigs members)) (skip_types fuel (env.sub 1) (sigs ts)) := by
  have hsig : sigs (.struct members :: ts) =
      SD_BUS_TYPE_STRUCT_BEGIN :: (sigs members ++ (SD_BUS_TYPE_STRUCT_END :: sigs ts)) := by
    simp [sigs, sig]
  have hlen : (struct members).sig.length = (sigs members).length + 2 := by
    simp [sig]
  have hk : signature_element_length
      (SD_BUS_TYPE_STRUCT_BEGIN :: (sigs members ++ (SD_BUS_TYPE_STRUCT_END :: sigs ts))) =
        some ((sigs members).length + 2) := by
    rw [← hsig, ← hlen]
    exact signature_element_length_sig _ ht
  rw [hsig, skip_types, if_neg (by decide), if_neg (by decide), if_neg (by decide),
    if_pos (by decide), hk]
  dsimp only
  rw [Nat.add_sub_cancel, take_left, if_pos rfl, drop_succ_cons, drop_append,
    drop_eq_nil_of_le (by omega), Nat.add_sub_cancel_left]
  rfl

theorem skip_dict_entry {key : BasicType} {value : Ty} (ht : (dict_entry key value).Ok true 0 0) :
    skip_types (fuel + 1) env (sigs (.dict_entry key value :: ts)) =
      skip_in (sd_bus_message_enter_container (env.sub 0) SD_BUS_TYPE_DICT_ENTRY
          (some (sigs [.basic key, value])))
        (skip_types fuel (env.sub 2) (sigs [.basic key, value]))
        (skip_types fuel (env.sub 1) (sigs ts)) := by
  have hsig : sigs (.dict_entry key value :: ts) = SD_BUS_TYPE_DICT_ENTRY_BEGIN ::
      (sigs [.basic key, value] ++ (SD_BUS_TYPE_DICT_ENTRY_END :: sigs ts)) := by
    simp [sigs, sig]
  have hlen : (dict_entry key value).sig.length =
      (sigs [.basic key, value]).length + 2 := by
    simp [sig, sigs]
  have hk : signature_element_length (SD_BUS_TYPE_DICT_ENTRY_BEGIN ::
      (sigs [.basic key, value] ++ (SD_BUS_TYPE_DICT_ENTRY_END :: sigs ts))) =
        some ((sigs [.basic key, value]).length + 2) := by
    rw [← hsig, ← hlen]
    exact signature_element_length_sig _ ht
  rw [hsig, skip_types, if_neg (by decide), if_neg (by decide), if_neg (by decide),
    if_pos (by decide), hk]
  dsimp only
  rw [Nat.add_sub_cancel, take_left, if_neg (by decide), drop_succ_cons,
    drop_append, drop_eq_nil_of_le (by omega), Nat.add_sub_cancel_left]
  rfl

/-- A variant is peeked at before it is entered. -/
theorem skip_variant_ok {r : Bool} :
    skip_types (fuel + 1) env (sigs (.variant :: ts)) m = (.ok r, m') ↔
      (sd_bus_message_peek_type (env.sub 3) true m = (.ok none, m') ∧ r = false) ∨
      ∃ p m₁, sd_bus_message_peek_type (env.sub 3) true m = (.ok (some p), m₁) ∧
        p.type = SD_BUS_TYPE_VARIANT ∧
        ((sd_bus_message_enter_container (env.sub 0) SD_BUS_TYPE_VARIANT p.contents m₁ =
            (.ok false, m') ∧ r = false) ∨ (r = true ∧ ∃ m₂ m₃ m₄ b,
            sd_bus_message_enter_container (env.sub 0) SD_BUS_TYPE_VARIANT p.contents m₁ =
              (.ok true, m₂) ∧
            skip_types fuel (env.sub 2) (p.contents.getD []) m₂ = (.ok true, m₃) ∧
            sd_bus_message_exit_container m₃ = (.ok ⟨⟩, m₄) ∧
            skip_types fuel (env.sub 1) (sigs ts) m₄ = (.ok b, m'))) := by
  show skip_types (fuel + 1) env (SD_BUS_TYPE_VARIANT :: sigs ts) m = _ ↔ _
  rw [skip_types, if_neg (by decide), if_neg (by decide), if_pos rfl]
  constructor
  · intro h
    obtain ⟨peeked, m₁, hpeek, h⟩ := of_bind_ok h
    cases peeked with
    | none =>
      cases h
      exact .inl ⟨hpeek, rfl⟩
    | some p =>
      obtain ⟨htype, h⟩ := of_check_bind_ok h
      refine .inr ⟨p, m₁, hpeek, beq_iff_eq.mp htype, ?_⟩
      obtain ⟨entered, m₂, henter, h⟩ := of_bind_ok h
      cases entered with
      | false =>
        cases h
        exact .inl ⟨henter, rfl⟩
      | true =>
        obtain ⟨skipped, m₃, hskip, h⟩ := of_bind_ok h
        cases skipped with
        | false => cases h
        | true =>
          obtain ⟨_, m₄, hexit, h⟩ := of_bind_ok h
          obtain ⟨b, m5, hrest, hpure⟩ := of_bind_ok h
          cases hpure
          exact .inr ⟨rfl, m₂, m₃, m₄, b, henter, hskip, hexit, hrest⟩
  · rintro (⟨hpeek, rfl⟩ | ⟨p, m₁, hpeek, htype, ⟨henter, rfl⟩ |
      ⟨rfl, m₂, m₃, m₄, b, henter, hskip, hexit, hrest⟩⟩)
    · rw [bind_run_ok hpeek]
      rfl
    · rw [bind_run_ok hpeek]
      dsimp only
      rw [check_bind_run_true (beq_iff_eq.mpr htype), bind_run_ok henter]
      rfl
    · rw [bind_run_ok hpeek]
      dsimp only
      rw [check_bind_run_true (beq_iff_eq.mpr htype), bind_run_ok henter,
        if_neg (by decide), bind_run_ok hskip, if_neg (by decide), bind_run_ok hexit,
        bind_run_ok hrest]
      rfl

end types

/-! ## Section 5: Skipping is reading -/

/-- The members of a struct are complete types. -/
theorem allOk_alone {members : List Ty} {ad sd : Nat} (h : AllOk ad sd members) :
    ∀ t ∈ members, t.Ok true 0 0 := by
  induction members with
  | nil => simp
  | cons t ts ih => exact forall_mem_cons.mpr ⟨h.1.alone, ih h.2⟩

/-- So are the two of a dictionary entry. -/
theorem entry_alone {key : BasicType} {value : Ty} (h : (dict_entry key value).Ok true 0 0) :
    ∀ t ∈ [basic key, value], t.Ok true 0 0 := by
  intro t ht
  simp only [mem_cons, not_mem_nil, or_false] at ht
  rcases ht with rfl | rfl
  · trivial
  · exact h.2.2.alone

/-- What can be skipped can be read, and each end of an array leaves room:
    induction over the fuel. -/
theorem reads_of_skip (fuel : Nat) : ∀ (env : ReadEnv) (todo : Todo) (m : SdBusMessage) (r : Bool)
    (m' : SdBusMessage), todo.Ok → skip_todo fuel env todo m = (.ok r, m') →
      ReadsOne Room env todo m r m' := by
  induction fuel with
  | zero =>
    intro env todo m r m' _ h
    cases todo with
    | types ts => cases h
    | elements t =>
      obtain ⟨_, m1, h1, -⟩ := of_bind_ok h
      cases h1
  | succ fuel ih =>
    intro env todo m r m' hok h
    cases todo with
    | elements t =>
      obtain ⟨_, m1, hskip, hpure⟩ := of_bind_ok h
      cases hpure
      obtain ⟨more, m1, hone, hskip⟩ := of_bind_ok hskip
      have hone' : skip_todo fuel (env.sub 0) (.types [t]) m = (.ok more, m1) := by
        show skip_types fuel (env.sub 0) (t.sig ++ []) m = _
        rwa [append_nil]
      have hread := ih _ (.types [t]) m more m1 (by simpa [Todo.Ok] using hok) hone'
      cases more with
      | false =>
        cases hskip
        exact .no_more hread
      | true =>
        rw [if_pos rfl] at hskip
        refine .more hread (ih _ (.elements t) m1 true m' hok ?_)
        show (skip_elements fuel (env.sub 1) t.sig >>= fun _ => pure true) m1 = _
        rw [bind_run_ok hskip]
        rfl
    | types ts =>
      cases ts with
      | nil =>
        cases h
        exact .nil
      | cons t ts =>
        obtain ⟨ht, hts⟩ := forall_mem_cons.mp hok
        have h : skip_types (fuel + 1) env (sigs (t :: ts)) m = (.ok r, m') := h
        have hrest : ∀ (m1 : SdBusMessage) (b : Bool),
            skip_types fuel (env.sub 1) (sigs ts) m1 = (.ok b, m') →
              ReadsOne Room (env.sub 1) (.types ts) m1 b m' :=
          fun m1 b h1 => ih _ (.types ts) m1 b m' hts h1
        cases t with
        | basic b =>
          rw [skip_basic] at h
          obtain ⟨read, m1, hread, h⟩ := of_bind_ok h
          cases read with
          | none =>
            cases h
            obtain ⟨rfl, hsealed, hs, hend⟩ := read_basic_none.mp hread
            exact .at_end hsealed hs hend trivial
          | some qv =>
            obtain ⟨b', m2, hskip, hpure⟩ := of_bind_ok h
            cases hpure
            exact .basic hread (hrest _ _ hskip)
        | array t =>
          rw [skip_array ht.2.alone] at h
          rcases skip_in_ok.mp h with ⟨henter, rfl⟩ |
            ⟨rfl, m1, _, m2, m3, b, henter, hinside, hexit, hskip⟩
          · obtain ⟨rfl, hsealed, hdepth, henv, hs, hend⟩ :=
              (enter_container_false (by decide)).mp henter
            exact .at_end hsealed hs hend ⟨hdepth, henv⟩
          · refine .array henter (ih _ (.elements t) m1 true m2 ht.2.alone ?_) hexit
              (hrest _ _ hskip)
            show (skip_elements fuel (env.sub 2) t.sig >>= fun _ => pure true) m1 = _
            rw [bind_run_ok hinside]
            rfl
        | variant =>
          rcases skip_variant_ok.mp h with ⟨hpeek, rfl⟩ | ⟨p, m1, hpeek, htype, hp⟩
          · exact .no_variant hpeek
          · obtain ⟨contents, hcontents⟩ := peek_variant_contents hpeek htype
            rw [hcontents] at hp
            rcases hp with ⟨henter, rfl⟩ |
              ⟨rfl, m2, m3, m4, b, henter, hinside, hexit, hskip⟩
            · obtain ⟨rfl, hsealed, -, -, hs, hend⟩ :=
                (enter_container_false (by decide)).mp henter
              obtain rfl := peek_type_state hpeek
              exact .at_end hsealed hs hend trivial
            · obtain ⟨t, hok', rfl⟩ := type_of_single (enter_variant_single henter)
              refine .variant hpeek htype hcontents henter
                (ih _ (.types [t]) m2 true m3 ?_ ?_) hexit (hrest _ _ hskip)
              · simpa [Todo.Ok] using hok'.alone
              · show skip_types fuel (env.sub 2) (t.sig ++ []) m2 = _
                rwa [append_nil]
        | struct members =>
          rw [skip_struct ht] at h
          rcases skip_in_ok.mp h with ⟨henter, rfl⟩ |
            ⟨rfl, m1, r1, m2, m3, b, henter, hinside, hexit, hskip⟩
          · obtain ⟨rfl, hsealed, hdepth, henv, hs, hend⟩ :=
              (enter_container_false (by decide)).mp henter
            exact .at_end hsealed hs hend ⟨hdepth, henv⟩
          · exact .struct henter (ih _ (.types members) m1 r1 m2 (allOk_alone ht.2.2) hinside) hexit
              (hrest _ _ hskip)
        | dict_entry key value =>
          rw [skip_dict_entry ht] at h
          rcases skip_in_ok.mp h with ⟨henter, rfl⟩ |
            ⟨rfl, m1, r1, m2, m3, b, henter, hinside, hexit, hskip⟩
          · obtain ⟨rfl, hsealed, hdepth, henv, hs, hend⟩ :=
              (enter_container_false (by decide)).mp henter
            exact .at_end hsealed hs hend ⟨hdepth, henv⟩
          · exact .dict_entry henter
              (ih _ (.types [.basic key, value]) m1 r1 m2 (entry_alone ht) hinside) hexit
              (hrest _ _ hskip)

/-- What can be read, each end of an array leaving room, can be skipped:
    induction over what is read. -/
theorem skip_of_reads {r : Bool} (h : ReadsOne Room env todo m r m') (hok : todo.Ok) :
    ∃ fuel, skip_todo fuel env todo m = (.ok r, m') := by
  -- enough fuel for what is in a container, and for what is behind it
  have hleave : ∀ {α : Type} {env : ReadEnv} {ts : List Ty} {fuel : Nat} {x : Call SdBusMessage Bool}
      {inside : Nat → Call SdBusMessage α} {a : α} {m m1 m2 m3 m4 : SdBusMessage} {b : Bool} {f1 f2 : Nat},
      (∀ f f' m, f ≤ f' → Within (inside f) (inside f') m) →
      x m = (.ok true, m1) → inside f1 m1 = (.ok a, m2) →
      sd_bus_message_exit_container m2 = (.ok ⟨⟩, m3) →
      skip_types f2 (env.sub 1) (sigs ts) m3 = (.ok b, m4) → max f1 f2 ≤ fuel →
      skip_in x (inside fuel) (skip_types fuel (env.sub 1) (sigs ts)) m = (.ok true, m4) := by
    intro α env ts fuel x inside a m m1 m2 m3 m4 b f1 f2 hle henter hin hexit hskip hf
    exact skip_in_ok.mpr (.inr ⟨rfl, m1, a, m2, m3, b, henter,
      hle f1 fuel m1 (by omega) _ _ hin (by simp), hexit,
      skip_types_le (by omega) _ _ _ _ _ hskip (by simp)⟩)
  induction h with
  | nil => exact ⟨1, rfl⟩
  | @at_end env t ts m hsealed hs ha hr =>
    have ht : t.Ok true 0 0 := hok t (mem_cons_self ..)
    refine ⟨1, ?_⟩
    match t, ht, hr with
    | .basic b, _, _ =>
      show skip_types 1 env (sigs (.basic b :: ts)) m = _
      rw [skip_basic, bind_run_ok (read_basic_none.mpr ⟨rfl, hsealed, hs, ha⟩)]
      rfl
    | .variant, _, _ => exact skip_variant_ok.mpr (.inl ⟨peek_at_end hsealed hs ha, rfl⟩)
    | .array t, ht, hr =>
      show skip_types 1 env (sigs (.array t :: ts)) m = _
      rw [skip_array ht.2.alone]
      exact skip_in_ok.mpr (.inl ⟨(enter_container_false (by decide)).mpr
        ⟨rfl, hsealed, hr.1, hr.2, hs, ha⟩, rfl⟩)
    | .struct members, ht, hr =>
      show skip_types 1 env (sigs (.struct members :: ts)) m = _
      rw [skip_struct ht]
      exact skip_in_ok.mpr (.inl ⟨(enter_container_false (by decide)).mpr
        ⟨rfl, hsealed, hr.1, hr.2, hs, ha⟩, rfl⟩)
    | .dict_entry key value, ht, hr =>
      show skip_types 1 env (sigs (.dict_entry key value :: ts)) m = _
      rw [skip_dict_entry ht]
      exact skip_in_ok.mpr (.inl ⟨(enter_container_false (by decide)).mpr
        ⟨rfl, hsealed, hr.1, hr.2, hs, ha⟩, rfl⟩)
  | @basic env b ts m qv m1 r m2 hread hrest ih =>
    obtain ⟨f, hf⟩ := ih (forall_mem_cons.mp hok).2
    refine ⟨f + 1, ?_⟩
    show skip_types (f + 1) env (sigs (.basic b :: ts)) m = _
    rw [skip_basic, bind_run_ok hread]
    dsimp only
    rw [bind_run_ok (show skip_types f (env.sub 1) (sigs ts) m1 = _ from hf)]
    rfl
  | @array env t ts m m1 m2 m3 r m4 henter hread hexit hrest ih1 ih2 =>
    obtain ⟨ht, hts⟩ := forall_mem_cons.mp hok
    obtain ⟨f1, hf1⟩ := ih1 ht.2.alone
    obtain ⟨f2, hf2⟩ := ih2 hts
    obtain ⟨⟨⟩, m2', hinside, hpure⟩ := of_bind_ok hf1
    cases hpure
    refine ⟨max f1 f2 + 1, ?_⟩
    show skip_types (max f1 f2 + 1) env (sigs (.array t :: ts)) m = _
    rw [skip_array ht.2.alone]
    exact hleave (fun f f' m hle => skip_elements_le hle _ _ m) henter hinside hexit hf2 le_rfl
  | @no_variant env ts m m1 hpeek => exact ⟨1, skip_variant_ok.mpr (.inl ⟨hpeek, rfl⟩)⟩
  | @variant env t ts m p m1 m2 m3 m4 r m5 hpeek htype hcontents henter hread hexit hrest ih1 ih2 =>
    -- the type in the variant is a complete one, as it has been entered
    obtain ⟨t', ht', hsig⟩ := type_of_single (enter_variant_single henter)
    have hsame : t'.sig ++ [] = t.sig ++ [] := by rw [hsig]
    obtain rfl : t' = t := (sig_unique t' t hsame).1
    obtain ⟨f1, hf1⟩ := ih1 (by simpa [Todo.Ok] using ht'.alone)
    obtain ⟨f2, hf2⟩ := ih2 (forall_mem_cons.mp hok).2
    have hinside : skip_types f1 (env.sub 2) t'.sig m2 = (.ok true, m3) := by
      have : skip_types f1 (env.sub 2) (t'.sig ++ []) m2 = (.ok true, m3) := hf1
      rwa [append_nil] at this
    refine ⟨max f1 f2 + 1, skip_variant_ok.mpr (.inr ⟨p, m1, hpeek, htype, .inr ⟨rfl, m2, m3, m4, r,
      by rw [hcontents, henter], ?_, hexit, ?_⟩⟩)⟩
    · rw [hcontents]
      exact skip_types_le (le_max_left _ _) _ _ _ _ _ hinside (by simp)
    · exact skip_types_le (le_max_right _ _) _ _ _ _ _ hf2 (by simp)
  | @struct env members ts m m1 r1 m2 m3 r m4 henter hread hexit hrest ih1 ih2 =>
    obtain ⟨ht, hts⟩ := forall_mem_cons.mp hok
    obtain ⟨f1, hf1⟩ := ih1 (allOk_alone ht.2.2)
    obtain ⟨f2, hf2⟩ := ih2 hts
    refine ⟨max f1 f2 + 1, ?_⟩
    show skip_types (max f1 f2 + 1) env (sigs (.struct members :: ts)) m = _
    rw [skip_struct ht]
    exact hleave (fun f f' m hle => skip_types_le hle _ _ m) henter hf1 hexit hf2 le_rfl
  | @dict_entry env key value ts m m1 r1 m2 m3 r m4 henter hread hexit hrest ih1 ih2 =>
    obtain ⟨ht, hts⟩ := forall_mem_cons.mp hok
    obtain ⟨f1, hf1⟩ := ih1 (entry_alone ht)
    obtain ⟨f2, hf2⟩ := ih2 hts
    refine ⟨max f1 f2 + 1, ?_⟩
    show skip_types (max f1 f2 + 1) env (sigs (.dict_entry key value :: ts)) m = _
    rw [skip_dict_entry ht]
    exact hleave (fun f f' m hle => skip_types_le hle _ _ m) henter hf1 hexit hf2 le_rfl
  | @no_more env t m m1 hread ih =>
    obtain ⟨f, hf⟩ := ih (by simpa [Todo.Ok] using hok)
    have hone : skip_types f (env.sub 0) t.sig m = (.ok false, m1) := by
      have : skip_types f (env.sub 0) (t.sig ++ []) m = (.ok false, m1) := hf
      rwa [append_nil] at this
    have hdone : skip_elements (f + 1) env t.sig m = (.ok ⟨⟩, m1) := by
      rw [skip_elements, bind_run_ok hone]
      rfl
    refine ⟨f + 1, ?_⟩
    show (skip_elements (f + 1) env t.sig >>= fun _ => pure true) m = _
    rw [bind_run_ok hdone]
    rfl
  | @more env t m m1 m2 hread hrest ih1 ih2 =>
    obtain ⟨f1, hf1⟩ := ih1 (by simpa [Todo.Ok] using hok)
    obtain ⟨f2, hf2⟩ := ih2 hok
    obtain ⟨⟨⟩, m2', hinside, hpure⟩ := of_bind_ok hf2
    cases hpure
    have hone : skip_types f1 (env.sub 0) t.sig m = (.ok true, m1) := by
      have : skip_types f1 (env.sub 0) (t.sig ++ []) m = (.ok true, m1) := hf1
      rwa [append_nil] at this
    refine ⟨max f1 f2 + 1, ?_⟩
    show (skip_elements (max f1 f2 + 1) env t.sig >>= fun _ => pure true) m = _
    have hone' := skip_types_le (le_max_left f1 f2) _ _ _ _ _ hone (by simp)
    have hrest' := skip_elements_le (le_max_right f1 f2) _ _ _ _ _ hinside (by simp)
    have hmore : skip_elements (max f1 f2 + 1) env t.sig m = (.ok ⟨⟩, m2) := by
      rw [skip_elements, bind_run_ok hone', if_pos rfl, hrest']
    rw [bind_run_ok hmore]
    rfl

/-! ## Section 6: The call -/

section skip
variable {m m' : SdBusMessage} {env : ReadEnv}

variable {r : Bool}

/-- `sd_bus_message_skip` has enough fuel. -/
theorem skip_fuel_enough (h : Reading m.body m) {fuel : Nat} {s : List UInt8}
    (hr : skip_types fuel env s m = (.ok r, m')) :
    skip_types (skip_fuel m s) env s m = (.ok r, m') := by
  have hskip : sd_bus_message_skip env (some s) m = skip_types (skip_fuel m s) env s m := by
    unfold sd_bus_message_skip
    rw [get_bind_run, check_bind_run_true h.sealed]
  have hne := (sd_bus_message_skip_ensures env (some s) h).not_abort
  rw [hskip] at hne
  rcases Nat.le_total fuel (skip_fuel m s) with hle | hle
  · exact skip_types_le hle _ _ _ _ _ hr (by simp)
  · have := skip_types_le hle env s m _ _ rfl hne
    rw [hr] at this
    exact this.symm

/-- What is skipped of these types is what is read of them. -/
theorem skip_types_iff (h : Reading m.body m) {ts : List Ty} (hok : ∀ t ∈ ts, t.Ok true 0 0) :
    skip_types (skip_fuel m (sigs ts)) env (sigs ts) m = (.ok r, m') ↔
      ReadsOne Room env (.types ts) m r m' := by
  constructor
  · exact fun hr => reads_of_skip _ env (.types ts) m r m' hok hr
  · intro hr
    obtain ⟨fuel, hf⟩ := skip_of_reads hr hok
    exact skip_fuel_enough h hf

/-- What `sd_bus_message_skip` does: it reads, and asks for room at the end of
    each array of containers. -/
theorem sd_bus_message_skip_iff (h : Reading m.body m) {types : Option (List Ty)}
    (hok : ∀ ts ∈ types, ∀ t ∈ ts, t.Ok true 0 0) :
    sd_bus_message_skip env (types.map sigs) m = (.ok r, m') ↔ ReadsNext Room env m r m' types := by
  unfold sd_bus_message_skip
  rw [get_bind_run, check_bind_run_true h.sealed]
  cases types with
  | some ts => exact skip_types_iff h (hok ts rfl)
  | none =>
    rw [ReadsNext]
    dsimp only [Option.map_none]
    by_cases hs : message_end_of_signature m = true
    · rw [check_bind_run_false (by rw [hs]; rfl), hs]
      simp
    have hs' : message_end_of_signature m = false := by simpa using hs
    rw [check_bind_run_true (by rw [hs']; rfl), bind_run, h.message_end_of_array_run]
    by_cases hend : end_of_array m = true
    · rw [hend]
      constructor
      · intro hr
        cases hr
        exact ⟨hs', .inl ⟨rfl, rfl, rfl⟩⟩
      · rintro ⟨-, ⟨-, rfl, rfl⟩ | ⟨hf, -⟩⟩
        · rfl
        · cases hf
    · have hend' : end_of_array m = false := by simpa using hend
      rw [hend']
      constructor
      · intro hr
        refine ⟨hs', .inr ⟨rfl, ?_⟩⟩
        match hl : signature_element_length
            (m.last_container.signature.drop m.last_container.index) with
        | none =>
          rw [hl] at hr
          cases hr
        | some l =>
          rw [hl] at hr
          dsimp only at hr
          obtain ⟨t, rest, hok, hsig, rfl⟩ :=
            (signature_element_length_internal_types _).1 _ _ _ _ _ hl
          rw [hsig, take_left] at hr
          refine ⟨t, hok, hsig ▸ prefix_append _ _, ?_⟩
          have hsigs : sigs [t] = t.sig := by simp [sigs]
          rw [← hsigs] at hr
          exact (skip_types_iff h (by simpa using hok)).mp hr
      · rintro ⟨-, ⟨hf, -⟩ | ⟨-, t, hok, ⟨rest, hrest⟩, hr⟩⟩
        · cases hf
        · have hsigs : sigs [t] = t.sig := by simp [sigs]
          rw [← hrest, signature_element_length_sig rest hok]
          dsimp only
          rw [take_left, ← hsigs]
          exact (skip_types_iff h (by simpa using hok)).mpr hr

/-- **Skipping is reading**: `sd_bus_message_skip` succeeds exactly where
    reading one by one does, and leaves the same message, if and only if one more
    container can be entered wherever reading comes to the end of an array of
    containers. -/
theorem skip_is_reading_iff (h : Reading m.body m) {types : Option (List Ty)}
    (hok : ∀ ts ∈ types, ∀ t ∈ ts, t.Ok true 0 0) :
    (∀ r m', sd_bus_message_skip env (types.map sigs) m = (.ok r, m') ↔
        ReadsNext NoRoom env m r m' types) ↔
      ∀ r m', ReadsNext NoRoom env m r m' types → ReadsNext Room env m r m' types := by
  have hmono : ∀ r m', ReadsNext Room env m r m' types → ReadsNext NoRoom env m r m' types := by
    intro r m' hr
    cases types with
    | some ts => exact ReadsOne.mono (fun _ _ _ _ => trivial) hr
    | none =>
      obtain ⟨hs, hend | ⟨hend, t, hok, hsig, hr⟩⟩ := hr
      · exact ⟨hs, .inl hend⟩
      · exact ⟨hs, .inr ⟨hend, t, hok, hsig, hr.mono fun _ _ _ _ => trivial⟩⟩
  constructor
  · intro heq r m' hr
    exact (sd_bus_message_skip_iff h hok).mp ((heq r m').mpr hr)
  · intro hroom r m'
    rw [sd_bus_message_skip_iff h hok]
    exact ⟨hmono r m', hroom r m'⟩

end skip

/-- A message that was received is about to be read. -/
theorem received_reading (signature body : List UInt8) : Reading body (received signature body) :=
  ⟨rfl, rfl, Nat.zero_le _, Nat.zero_le _, .singleton _, fun c hc => (by cases hc), rfl, rfl⟩

/-- One byte is skipped as it is read. -/
theorem skip_is_reading_byte :
    ReadsNext NoRoom (fun _ => true) (received (ascii "y") [7]) true
      (sd_bus_message_skip (fun _ => true) (some (ascii "y")) (received (ascii "y") [7])).2
      (some [.basic (.fixed .byte)]) := by
  have hok : ∀ ts ∈ some [basic (.fixed .byte)], ∀ t ∈ ts, t.Ok true 0 0 := by
    intro ts hts t ht
    cases hts
    obtain rfl := mem_singleton.mp ht
    trivial
  refine ((skip_is_reading_iff (received_reading (ascii "y") [7]) hok).mpr ?_ true _).mp (by rfl)
  intro r m' hr
  cases hr with
  | at_end hsealed hs ha _ => exact .at_end hsealed hs ha trivial
  | basic hread hrest =>
    cases hrest
    exact .basic hread .nil

/-- Variants in variants, and an empty array of structs in the last one. -/
def deep_body : List UInt8 :=
  (List.replicate 126 [1, 0x76, 0]).flatten ++ [4] ++ ascii "a(y)" ++ [0] ++ [0, 0, 0, 0] ++
    [0, 0, 0, 0]

/-- All of the variants are entered. -/
def deep_calls : List ReadCall :=
  List.replicate 126 (.enter_container (fun _ => true) SD_BUS_TYPE_VARIANT (some (ascii "v"))) ++
    [.enter_container (fun _ => true) SD_BUS_TYPE_VARIANT (some (ascii "a(y)"))]

def deep_message : SdBusMessage := after_calls (received (ascii "v") deep_body) deep_calls

/-- Then the array. -/
def deep_array : SdBusMessage :=
  (sd_bus_message_enter_container (fun _ => true) SD_BUS_TYPE_ARRAY (some (ascii "(y)"))
    deep_message).2

/-- Calls that take no basic value for a container keep the invariant. -/
theorem after_calls_reading {body : List UInt8} (h : Reading body m) (calls : List ReadCall)
    (hb : no_basic_entered m calls = true) : Reading body (after_calls m calls) := by
  induction calls generalizing m with
  | nil => exact h
  | cons call calls ih =>
    simp only [no_basic_entered, Bool.and_eq_true, Bool.not_eq_true'] at hb
    exact ih ((call.run_ensures h hb.1).state fun _ _ hr => hr.1) hb.2

/-- The empty array is entered and left, but not skipped: one more container
    would be too many. -/
theorem skip_deep_array :
    ¬ ∀ (env : ReadEnv) (m : SdBusMessage) (types : Option (List Ty)), Reading m.body m →
      (∀ ts ∈ types, ∀ t ∈ ts, t.Ok true 0 0) → ∀ r m',
        sd_bus_message_skip env (types.map sigs) m = (.ok r, m') ↔
          ReadsNext NoRoom env m r m' types := by
  intro h
  have hreading : Reading deep_message.body deep_message := by
    have := after_calls_reading (received_reading (ascii "v") deep_body) deep_calls
      (by decide +kernel)
    rw [deep_message, this.body_eq]
    exact this
  have run : ∀ {α : Type} (x : Outcome α × SdBusMessage) (a : α), x.1 = .ok a →
      x = (.ok a, x.2) := fun x a h => by rw [← h]
  obtain ⟨henter, hsealed, hs, hend, hexit, hskip⟩ :
      (sd_bus_message_enter_container (fun _ => true) SD_BUS_TYPE_ARRAY (some (ascii "(y)"))
        deep_message).1 = .ok true ∧
      deep_array.sealed = true ∧ message_end_of_signature deep_array = false ∧
      (message_end_of_array deep_array.rindex deep_array).1 = .ok true ∧
      (sd_bus_message_exit_container deep_array).1 = .ok ⟨⟩ ∧
      (sd_bus_message_skip (fun _ => true) (some (ascii "a(y)")) deep_message).1 =
        .err .EBADMSG := by
    decide +kernel
  have henter' : sd_bus_message_enter_container (fun _ => true) SD_BUS_TYPE_ARRAY
      (some (ascii "(y)")) deep_message = (.ok true, deep_array) := run _ true henter
  have hexit' := run _ PUnit.unit hexit
  have hend' := run _ true hend
  rw [message_end_of_array_state] at hend'
  -- nothing is read, and the array is left
  have hread : ReadsNext NoRoom (fun _ => true) deep_message true
      (sd_bus_message_exit_container deep_array).2
      (some [.array (.struct [.basic (.fixed .byte)])]) :=
    .array henter' (.no_more (.at_end hsealed hs hend' trivial)) hexit' .nil
  have hok := (h (fun _ => true) deep_message (some [.array (.struct [.basic (.fixed .byte)])])
    hreading (by simp [Ok, AllOk]) true _).mpr hread
  have : (sd_bus_message_skip (fun _ => true) (some (ascii "a(y)")) deep_message).1 = .ok true :=
    congrArg Prod.fst hok
  rw [hskip] at this
  cases this

end SdCompat.Bus
