import SdCompat.SdBus.MessageCopy
import SdCompat.SdBus.MessageRoundTrip

/-! # Copies of messages

    While a message is copied, its reader and the writer of the copy make the
    same steps, and keep the same place in the body. What was in the message,
    from where it was read on, is then in the copy.
-/

open Bytes

namespace SdCompat

open Call List

namespace Call

/-! ## Section 1: Calls that need less memory -/

variable {σ α β : Type}

/-- Where one call succeeds the other does, with the same result. -/
def AlsoOk (x y : Call σ α) : Prop := ∀ s a s', x s = (.ok a, s') → y s = (.ok a, s')

theorem AlsoOk.refl (x : Call σ α) : AlsoOk x x := fun _ _ _ h => h

theorem AlsoOk.bind {x y : Call σ α} {f g : α → Call σ β} (hx : AlsoOk x y)
    (hf : ∀ a, AlsoOk (f a) (g a)) : AlsoOk (x >>= f) (y >>= g) := by
  intro s b s' h
  obtain ⟨a, s1, h1, h2⟩ := of_bind_ok h
  rw [bind_run_ok (hx s a s1 h1)]
  exact hf a s1 b s' h2

theorem AlsoOk.check {b b' : Bool} {e : Errno} (h : b = true → b' = true) :
    AlsoOk (check b e : Call σ PUnit) (check b' e) := by
  intro s a s' hx
  cases b with
  | true =>
    rw [h rfl]
    exact hx
  | false => cases hx

end Call

namespace Bus

variable {m m' m₁ n n' n₁ : SdBusMessage}

theorem peek_type_all (env : ReadEnv) (want : Bool) :
    AlsoOk (sd_bus_message_peek_type env want) (sd_bus_message_peek_type .all want) := by
  have hcopy : ∀ (type : UInt8) contents,
      AlsoOk (peeked_signature env type contents) (peeked_signature .all type contents) :=
    fun type contents => .bind (.check fun _ => rfl) fun _ => .refl _
  apply AlsoOk.bind (.refl _)
  intro m
  apply AlsoOk.bind (.refl _)
  intro _
  by_cases hs : message_end_of_signature m = true
  · rw [if_pos hs, if_pos hs]
    exact .refl _
  rw [if_neg hs, if_neg hs]
  apply AlsoOk.bind (.refl _)
  intro b
  by_cases hb : b = true
  · rw [if_pos hb, if_pos hb]
    exact .refl _
  match m.last_container.signature.drop m.last_container.index with
  | [] => exact .refl _
  | t :: s =>
    dsimp only
    split_ifs
    any_goals exact .refl _
    · cases signature_element_length s with
      | none => exact .refl _
      | some l =>
        dsimp only
        split_ifs
        · exact .refl _
        · exact hcopy _ _
    · cases signature_element_length (t :: s) with
      | none => exact .refl _
      | some l =>
        dsimp only
        split_ifs
        · exact .refl _
        · exact hcopy _ _
    · cases signature_element_length (t :: s) with
      | none => exact .refl _
      | some l =>
        dsimp only
        split_ifs
        · exact .refl _
        · exact hcopy _ _

theorem enter_container_all (env : ReadEnv) (type : UInt8) (contents : List UInt8) (ht : type ≠ 0) :
    AlsoOk (sd_bus_message_enter_container env type (some contents))
      (sd_bus_message_enter_container .all type (some contents)) := by
  have hany : (type = 0 || (some contents).isNone) = false := by
    simp [ht]
  apply AlsoOk.bind (.refl _)
  intro m
  apply AlsoOk.bind (.refl _)
  intro _
  apply AlsoOk.bind (.refl _)
  intro _
  rw [hany]
  apply AlsoOk.bind (.refl _)
  intro m
  apply AlsoOk.bind (.refl _)
  intro _
  apply AlsoOk.bind (.check fun _ => rfl)
  intro _
  apply AlsoOk.bind (.refl _)
  intro _
  apply AlsoOk.bind (.refl _)
  intro b
  by_cases hb : b = true
  · rw [if_pos hb, if_pos hb]
    exact .refl _
  rw [if_neg hb, if_neg hb]
  apply AlsoOk.bind (.check fun _ => rfl)
  intro _
  exact .refl _

/-! ## Section 2: What a reader does -/

variable {c : UInt8}

theorem container_code (h : bus_type_is_container c = true) :
    c ≠ 0 ∧ bus_type_is_basic c = false := by
  unfold bus_type_is_container at h
  simp only [Bool.or_eq_true, beq_iff_eq] at h
  rcases h with ((rfl | rfl) | rfl) | rfl
  · decide
  · decide
  · decide
  · decide

/-- What is peeked at is a basic type, or a container with its contents. -/
def PeekedType.Named (p : PeekedType) : Prop :=
  bus_type_is_basic p.type = true ∨
    bus_type_is_container p.type = true ∧ ∃ contents, p.contents = some contents

variable {contents : List UInt8}

variable {env : ReadEnv} {r : Option PeekedType} {t : UInt8}

theorem peeked_signature_ok (ht : bus_type_is_container t = true)
    (h : peeked_signature env t contents m = (.ok r, m')) : m' = m ∧ ∃ p, r = some p ∧ p.Named := by
  obtain ⟨-, h⟩ := of_check_bind_ok h
  cases h
  exact ⟨rfl, _, rfl, .inr ⟨ht, _, rfl⟩⟩

/-- What `sd_bus_message_peek_type` tells. -/
theorem peek_type_ok (h : sd_bus_message_peek_type env true m = (.ok r, m')) :
    m.sealed = true ∧ m' = m ∧ ((r = none ∧ (message_end_of_signature m = true ∨
          message_end_of_array m.rindex m = (.ok true, m))) ∨
        (message_end_of_signature m = false ∧ message_end_of_array m.rindex m = (.ok false, m) ∧
          ∃ p, r = some p ∧ p.Named)) := by
  obtain ⟨hsealed, h⟩ := of_check_bind_ok h
  refine ⟨hsealed, ?_⟩
  by_cases hs : message_end_of_signature m = true
  · rw [if_pos hs] at h
    cases h
    exact ⟨rfl, .inl ⟨rfl, .inl hs⟩⟩
  rw [if_neg hs] at h
  obtain ⟨b, m₁, ha, h⟩ := of_bind_ok h
  have hstate := message_end_of_array_state m m.rindex
  rw [ha] at hstate
  obtain rfl : m₁ = m := hstate
  by_cases hb : b = true
  · rw [if_pos hb] at h
    cases h
    rw [hb] at ha
    exact ⟨rfl, .inl ⟨rfl, .inr ha⟩⟩
  rw [Bool.not_eq_true] at hb
  subst hb
  suffices hp : m' = m₁ ∧ ∃ p, r = some p ∧ p.Named by
    exact ⟨hp.1, .inr ⟨Bool.not_eq_true _ ▸ hs, ha, hp.2⟩⟩
  match hd : m₁.last_container.signature.drop m₁.last_container.index with
  | [] =>
    -- the end of the signature, which was excluded
    refine absurd ?_ hs
    unfold message_end_of_signature BusMessageContainer.current
    rw [← head?_drop, hd]
    rfl
  | t :: s =>
    rw [hd] at h
    dsimp only at h
    by_cases hbasic : bus_type_is_basic t = true
    · rw [if_pos hbasic] at h
      cases h
      exact ⟨rfl, _, rfl, .inl hbasic⟩
    rw [if_neg hbasic] at h
    by_cases harray : t = SD_BUS_TYPE_ARRAY
    · rw [if_pos harray] at h
      cases hl : signature_element_length s with
      | none =>
        rw [hl] at h
        cases h
      | some l =>
        rw [hl] at h
        dsimp only at h
        by_cases hlen : l < 1
        · rw [if_pos hlen] at h
          cases h
        · rw [if_neg hlen] at h
          exact peeked_signature_ok (by decide) h
    rw [if_neg harray] at h
    by_cases hmembers : (t = SD_BUS_TYPE_STRUCT_BEGIN || t = SD_BUS_TYPE_DICT_ENTRY_BEGIN) = true
    · rw [if_pos hmembers] at h
      cases hl : signature_element_length (t :: s) with
      | none =>
        rw [hl] at h
        cases h
      | some l =>
        rw [hl] at h
        dsimp only at h
        by_cases hlen : l < 3
        · rw [if_pos hlen] at h
          cases h
        · rw [if_neg hlen] at h
          apply peeked_signature_ok ?_ h
          split
          · decide
          · decide
    rw [if_neg hmembers] at h
    by_cases hvariant : t = SD_BUS_TYPE_VARIANT
    · rw [if_pos hvariant] at h
      obtain ⟨q, m2, hq, hrest⟩ := of_bind_ok h
      have hstate := peek_signature_state m₁ m₁.rindex
      rw [hq] at hstate
      obtain rfl : m2 = m₁ := hstate
      cases hrest
      exact ⟨rfl, _, rfl, .inr ⟨rfl, _, rfl⟩⟩
    · rw [if_neg hvariant] at h
      cases h

variable {q : BodyRange}

variable {v : ReadValue}

/-- What `sd_bus_message_read_basic` does if it finds a value. -/
theorem read_basic_ok (h : sd_bus_message_read_basic t m = (.ok (some (q, v)), m')) :
    bus_type_is_basic t = true ∧ m.last_container.current = some t ∧
      read_value t m.rindex m = (.ok (q, v), m) ∧
      m' = set_index (m.last_container.index + 1) { m with rindex := q.stop } := by
  obtain ⟨-, h⟩ := of_check_bind_ok h
  obtain ⟨hb, h⟩ := of_check_bind_ok h
  obtain ⟨-, h⟩ := of_check_bind_ok h
  obtain ⟨b, m₁, ha, h⟩ := of_bind_ok h
  have hstate := message_end_of_array_state m m.rindex
  rw [ha] at hstate
  obtain rfl : m₁ = m := hstate
  by_cases htrue : b = true
  · rw [if_pos htrue] at h
    cases h
  rw [if_neg htrue] at h
  obtain ⟨hc, h⟩ := of_check_bind_ok h
  obtain ⟨⟨q', v'⟩, m2, hv, hrest⟩ := of_bind_ok h
  have hstate := read_value_state m₁ t m₁.rindex
  rw [hv] at hstate
  obtain rfl : m2 = m₁ := hstate
  cases hrest
  exact ⟨hb, beq_iff_eq.mp hc, hv, rfl⟩

variable {type : UInt8}

/-- What `sd_bus_message_enter_container` does if there is something. -/
theorem enter_container_ok {b : Bool} (hs : message_end_of_signature m = false)
    (ha : message_end_of_array m.rindex m = (.ok false, m)) (ht : type ≠ 0)
    (h : sd_bus_message_enter_container env type (some contents) m = (.ok b, m')) :
    b = true ∧ m.containers.length < BUS_CONTAINER_DEPTH ∧ ∃ m₁ array_size,
      bus_message_enter type contents (saved_message m) = (.ok (some array_size), m₁) ∧
      m' = { m₁ with containers :=
        { enclosing := type, signature := contents, index := 0, saved_index := 0,
          before := m.rindex, begin := m₁.rindex, end_ := m₁.rindex, array_size := array_size } ::
            m₁.containers } := by
  obtain ⟨-, h⟩ := of_check_bind_ok h
  obtain ⟨-, h⟩ := of_check_bind_ok h
  rw [if_neg (by simp [ht])] at h
  obtain ⟨hd, h⟩ := of_check_bind_ok h
  obtain ⟨-, h⟩ := of_check_bind_ok h
  obtain ⟨-, h⟩ := of_check_bind_ok h
  rw [bind_run_ok ha] at h
  obtain ⟨-, h⟩ := of_check_bind_ok h
  rw [modify_bind_run] at h
  obtain ⟨r, m₁, henter, h⟩ := of_bind_ok h
  cases r with
  | none =>
    -- only a dictionary entry is not entered, at the end of the signature
    have hsame : message_end_of_signature (saved_message m) = false := by
      rw [← hs]
      unfold message_end_of_signature
      rw [saved_last]
      rfl
    unfold bus_message_enter at henter
    split_ifs at henter
    · obtain ⟨a, m2, -, henter⟩ := of_bind_ok henter
      cases henter
    · obtain ⟨a, m2, -, henter⟩ := of_bind_ok henter
      cases henter
    · obtain ⟨a, m2, -, henter⟩ := of_bind_ok henter
      cases henter
    · obtain ⟨b', m2, hdict, henter⟩ := of_bind_ok henter
      have hb' : b' = true := by
        obtain ⟨-, hdict⟩ := of_check_bind_ok hdict
        obtain ⟨-, hdict⟩ := of_check_bind_ok hdict
        have hend : message_end_of_signature
            (m.update_last fun c => { c with saved_index := c.index }) = false := hsame
        rw [hend] at hdict
        obtain ⟨_, m3, -, hdict⟩ := of_bind_ok hdict
        cases hdict
        rfl
      rw [hb'] at henter
      cases henter
    · cases henter
  | some array_size =>
    cases h
    exact ⟨rfl, of_decide_eq_true hd, m₁, array_size, henter, rfl⟩

variable {rindex : Nat}

theorem peek_body_ok {align nbytes : Nat} (h : peek_body rindex align nbytes m = (.ok q, m')) :
    m' = m ∧ q = ⟨alignTo rindex align, nbytes⟩ ∧ q.stop ≤ m.body.length := by
  unfold peek_body at h
  rw [get_bind_run] at h
  cases hq : message_peek_body m rindex align nbytes with
  | none =>
    rw [hq] at h
    cases h
  | some q' =>
    rw [hq] at h
    cases h
    unfold message_peek_body peek_part at hq
    split_ifs at hq
    cases hq
    refine ⟨rfl, rfl, ?_⟩
    show alignTo rindex align + nbytes ≤ _
    omega

variable {valid : List UInt8 → Bool}

/-- A text that ends with a NUL, and has none in it. -/
theorem validate_dropLast {b : List UInt8} {l : Nat} (hlen : b.length = l + 1)
    (h : validate valid b l = true) : 0 ∉ b.dropLast ∧ b.dropLast.length = l := by
  unfold validate validate_nul at h
  simp only [Bool.and_eq_true, Bool.not_eq_true', contains_eq_mem, decide_eq_false_iff_not]
    at h
  have htake : b.dropLast = b.take l := by
    rw [dropLast_eq_take, hlen, Nat.add_sub_cancel]
  rw [htake]
  refine ⟨h.1.1, ?_⟩
  rw [length_take]
  omega

theorem bytes_length (h : q.stop ≤ m.body.length) : (m.bytes q).length = q.size := length_slice h

theorem peek_signature_ok (h : peek_signature rindex m = (.ok q, m')) :
    m' = m ∧ 0 ∉ (m.bytes q).dropLast ∧ (m.bytes q).dropLast.length < 0xff ∧
      q.stop = rindex + ((m.bytes q).dropLast.length + 2) := by
  obtain ⟨q1, m₁, h1, hsecond⟩ := of_bind_ok h
  obtain ⟨rfl, hq1, hle1⟩ := peek_body_ok h1
  obtain ⟨hl, hsecond⟩ := of_check_bind_ok hsecond
  obtain ⟨q2, m2, h2, hlast⟩ := of_bind_ok hsecond
  obtain ⟨rfl, hq2, hle2⟩ := peek_body_ok h2
  obtain ⟨hv, hlast⟩ := of_check_bind_ok hlast
  cases hlast
  rw [alignTo_one] at hq1 hq2
  have hsize : (m'.bytes q).length = m'.bswap q1 + 1 := by
    rw [bytes_length hle2, hq2]
  have hlt : m'.bswap q1 < 256 := by
    have hlt := toNat_lt m'.endian (m'.bytes q1)
    rw [bytes_length hle1, hq1] at hlt
    rw [hq1]
    exact hlt
  obtain ⟨h0, hlen⟩ := validate_dropLast hsize hv
  rw [bne_iff_ne] at hl
  refine ⟨rfl, h0, by omega, ?_⟩
  rw [hlen, hq2, hq1]
  show rindex + 1 + (_ + 1) = _
  omega

theorem peek_string_ok (h : peek_string rindex (validate valid) m = (.ok q, m')) :
    m' = m ∧ 0 ∉ (m.bytes q).dropLast ∧
      q.stop = alignTo rindex 4 + (4 + ((m.bytes q).dropLast.length + 1)) := by
  obtain ⟨q1, m₁, h1, hsecond⟩ := of_bind_ok h
  obtain ⟨rfl, hq1, hle1⟩ := peek_body_ok h1
  obtain ⟨-, hsecond⟩ := of_check_bind_ok hsecond
  obtain ⟨q2, m2, h2, hlast⟩ := of_bind_ok hsecond
  obtain ⟨rfl, hq2, hle2⟩ := peek_body_ok h2
  obtain ⟨hv, hlast⟩ := of_check_bind_ok hlast
  cases hlast
  rw [alignTo_one] at hq2
  have hsize : (m'.bytes q).length = m'.bswap q1 + 1 := by
    rw [bytes_length hle2, hq2]
  obtain ⟨h0, hlen⟩ := validate_dropLast hsize hv
  refine ⟨rfl, h0, ?_⟩
  rw [hlen, hq2, hq1]
  show alignTo rindex 4 + 4 + (_ + 1) = _
  omega

/-- What `bus_message_enter` does if there is something to enter: it moves to
    where the contents of a container of some kind begin. -/
theorem bus_message_enter_ok {array_size : Option Nat}
    (h : bus_message_enter type contents m = (.ok (some array_size), m')) :
    ∃ k : ContainerKind, k.ty.code = type ∧ Ty.sigs k.contents = contents ∧
      k.ty.sig <+: m.last_container.signature.drop m.last_container.index ∧
      (type = SD_BUS_TYPE_VARIANT → contents.length < 0xff) ∧
      (type = SD_BUS_TYPE_ARRAY → ∃ a, array_size = some a ∧
        m.bswap ⟨a, 4⟩ ≤ BUS_ARRAY_MAX_SIZE) ∧
      m' = set_index (m.last_container.index + k.ty.sig.length)
        { m with rindex := k.begin m.rindex } := by
  unfold bus_message_enter at h
  by_cases ha : type = SD_BUS_TYPE_ARRAY
  · subst ha
    obtain ⟨a, m₁, h, hr⟩ := of_bind_ok h
    cases hr
    obtain ⟨hsingle, h⟩ := of_check_bind_ok h
    obtain ⟨hnext, h⟩ := of_check_bind_ok h
    obtain ⟨elem, -, rfl⟩ := type_of_single hsingle
    obtain ⟨q, m2, hq, h⟩ := of_bind_ok h
    obtain ⟨rfl, rfl, -⟩ := peek_body_ok hq
    obtain ⟨hmax, h⟩ := of_check_bind_ok h
    rw [elem.sig_alignment] at h
    obtain ⟨e, m3, he, hrest⟩ := of_bind_ok h
    obtain ⟨rfl, rfl, -⟩ := peek_body_ok he
    cases hrest
    have hlen : 1 + elem.sig.length = (Ty.array elem).sig.length := by
      rw [Ty.sig, length_cons]
      omega
    refine ⟨.array elem, rfl, append_nil _, ?_, ?_, ?_, ?_⟩
    · have hp := signature_has_prefix hnext
      rw [append_nil] at hp
      exact hp
    · intro hv
      cases hv
    · intro _
      exact ⟨_, rfl, of_decide_eq_true hmax⟩
    · rw [hlen]
      rfl
  rw [if_neg ha] at h
  by_cases hv : type = SD_BUS_TYPE_VARIANT
  · subst hv
    obtain ⟨⟨⟩, m₁, h, hr⟩ := of_bind_ok h
    cases hr
    obtain ⟨hsingle, h⟩ := of_check_bind_ok h
    obtain ⟨-, h⟩ := of_check_bind_ok h
    obtain ⟨hnext, h⟩ := of_check_bind_ok h
    obtain ⟨t, -, rfl⟩ := type_of_single hsingle
    obtain ⟨q, m2, hq, h⟩ := of_bind_ok h
    obtain ⟨rfl, -, hshort, hstop⟩ := peek_signature_ok hq
    obtain ⟨hsame, hrest⟩ := of_check_bind_ok h
    cases hrest
    rw [beq_iff_eq] at hsame hnext
    rw [hsame] at hshort hstop
    refine ⟨.variant t, rfl, append_nil _, current_prefix hnext, fun _ => hshort, ?_, ?_⟩
    · intro hv
      cases hv
    · rw [hstop]
      rfl
  rw [if_neg hv] at h
  have hmembers : ∀ {first last : UInt8} {k : ContainerKind} {m' : SdBusMessage},
      k.ty.sig = first :: contents ++ [last] → (∀ pos, k.begin pos = alignTo pos 8) →
      enter_members first contents last m = (.ok ⟨⟩, m') →
      k.ty.sig <+: m.last_container.signature.drop m.last_container.index ∧
        m' = set_index (m.last_container.index + k.ty.sig.length)
          { m with rindex := k.begin m.rindex } := by
    intro first last k m' hsig hbegin hx
    obtain ⟨hnext, hx⟩ := of_check_bind_ok hx
    obtain ⟨q, m2, hq, hrest⟩ := of_bind_ok hx
    obtain ⟨rfl, rfl, -⟩ := peek_body_ok hq
    cases hrest
    have hlen : 1 + contents.length + 1 = (first :: contents ++ [last]).length := by
      simp
      omega
    have hfirst := signature_has_prefix hnext
    rw [hsig, hbegin, hlen]
    exact ⟨hfirst, rfl⟩
  by_cases hs : type = SD_BUS_TYPE_STRUCT
  · subst hs
    obtain ⟨⟨⟩, m₁, h, hr⟩ := of_bind_ok h
    cases hr
    obtain ⟨hvalid, h⟩ := of_check_bind_ok h
    obtain ⟨members, -, rfl⟩ := types_of_valid hvalid
    obtain ⟨hnext, hm⟩ := hmembers (k := .struct members) rfl (fun _ => rfl) h
    refine ⟨.struct members, rfl, rfl, hnext, ?_, ?_, hm⟩
    · intro hv
      cases hv
    · intro hv
      cases hv
  rw [if_neg hs] at h
  by_cases hd : type = SD_BUS_TYPE_DICT_ENTRY
  · subst hd
    obtain ⟨b, m₁, h, hr⟩ := of_bind_ok h
    obtain ⟨hpair, h⟩ := of_check_bind_ok h
    obtain ⟨-, h⟩ := of_check_bind_ok h
    obtain ⟨key, value, -, rfl⟩ := types_of_pair hpair
    by_cases hend : message_end_of_signature m = true
    · rw [if_pos hend] at h
      cases h
      cases hr
    rw [if_neg hend] at h
    obtain ⟨⟨⟩, m2, h, hb⟩ := of_bind_ok h
    cases hb
    cases hr
    obtain ⟨hnext, hm⟩ := hmembers (k := .dict_entry key value) rfl (fun _ => rfl) h
    refine ⟨.dict_entry key value, rfl, ?_, hnext, ?_, ?_, hm⟩
    · simp [ContainerKind.contents, Ty.sigs, Ty.sig]
    · intro hv
      cases hv
    · intro hv
      cases hv
  · rw [if_neg hd] at h
    cases h

theorem FixedType.of_code_some {t : FixedType} (h : FixedType.of_code c = some t) : t.code = c := by
  have hcode := find?_some h
  exact beq_iff_eq.mp hcode

/-- The other basic types are those whose values are copied as they are. -/
theorem FixedType.of_code_basic (h : bus_type_is_basic c = true)
    (hn : c ∉ [SD_BUS_TYPE_STRING, SD_BUS_TYPE_OBJECT_PATH, SD_BUS_TYPE_SIGNATURE, SD_BUS_TYPE_BOOLEAN, SD_BUS_TYPE_UNIX_FD]) :
    ∃ t, FixedType.of_code c = some t := by
  have hmem := contains_iff_mem.mp h
  simp only [trivial_types, cons_append, nil_append, mem_cons, not_mem_nil,
    or_false] at hmem
  rcases hmem with rfl | rfl | rfl | rfl | rfl | rfl | rfl | rfl | rfl | rfl | rfl | rfl | rfl
  all_goals first
    | exact ⟨_, rfl⟩
    | exact absurd (by decide) hn

/-- The bytes of a basic value that is read are those of the value that is
    appended, at a place that is aligned alike. -/
def BasicArg.Takes (a : BasicArg) (rindex stop : Nat) : Prop :=
  ∀ n, stop = alignTo rindex (a.value n).type.align + ((a.value n).encode BUS_NATIVE_ENDIAN).length

/-- What is read of a basic value can be appended. -/
theorem read_value_ok (hb : bus_type_is_basic t = true)
    (h : read_value t rindex m = (.ok (q, v), m')) :
    (basic_arg t v).type = t ∧ (basic_arg t v).Pointed ∧
      (∀ env, (WriteCall.append_basic env (basic_arg t v)).Within n) ∧
      (basic_arg t v).Takes rindex q.stop ∧
      ((∃ fd, v = .unix_fd fd) ∨ ∀ env, (basic_arg t v).read env = v) := by
  unfold read_value at h
  by_cases hstring : (t = SD_BUS_TYPE_STRING || t = SD_BUS_TYPE_OBJECT_PATH) = true
  · rw [if_pos hstring] at h
    obtain ⟨q1, m₁, hq, hrest⟩ := of_bind_ok h
    have htext : ∀ valid, peek_string rindex (validate valid) m = (.ok q1, m₁) →
        (basic_arg t v).type = t ∧ (basic_arg t v).Pointed ∧
          (∀ env, (WriteCall.append_basic env (basic_arg t v)).Within n) ∧
          (basic_arg t v).Takes rindex q.stop ∧
          ((∃ fd, v = .unix_fd fd) ∨ ∀ env, (basic_arg t v).read env = v) := by
      intro valid hq
      obtain ⟨rfl, h0, hstop⟩ := peek_string_ok hq
      cases hrest
      have htakes : ∀ l : List UInt8, (ofNat BUS_NATIVE_ENDIAN 4 l.length ++ (l ++ [0])).length =
          4 + (l.length + 1) := by
        simp
      by_cases hs : t = SD_BUS_TYPE_STRING
      · subst hs
        refine ⟨rfl, h0, fun _ => trivial, ?_, .inr fun _ => rfl⟩
        intro _
        rw [hstop]
        exact congrArg _ (htakes _).symm
      · have hp : t = SD_BUS_TYPE_OBJECT_PATH := by simpa [hs] using hstring
        subst hp
        refine ⟨rfl, h0, fun _ => trivial, ?_, .inr fun _ => rfl⟩
        intro _
        rw [hstop]
        exact congrArg _ (htakes _).symm
    split at hq
    · exact htext _ hq
    · exact htext _ hq
  rw [if_neg hstring] at h
  by_cases hg : t = SD_BUS_TYPE_SIGNATURE
  · subst hg
    obtain ⟨q1, m₁, hq, hrest⟩ := of_bind_ok h
    obtain ⟨rfl, h0, hshort, hstop⟩ := peek_signature_ok hq
    cases hrest
    refine ⟨rfl, h0, fun _ => hshort, ?_, .inr fun _ => rfl⟩
    intro n
    have hlen : (((basic_arg SD_BUS_TYPE_SIGNATURE (.string (m'.bytes q).dropLast)).value n).encode
        BUS_NATIVE_ENDIAN).length = (m'.bytes q).dropLast.length + 2 := by
      show (ofNat BUS_NATIVE_ENDIAN 1 _ ++ ((m'.bytes q).dropLast ++ [0])).length = _
      simp only [length_append, length_ofNat, length_singleton]
      omega
    rw [hlen, hstop]
    show _ = alignTo rindex 1 + _
    rw [alignTo_one]
  rw [if_neg hg] at h
  by_cases hbool : t = SD_BUS_TYPE_BOOLEAN
  · subst hbool
    obtain ⟨q1, m₁, hq, hrest⟩ := of_bind_ok h
    obtain ⟨rfl, rfl, -⟩ := peek_body_ok hq
    cases hrest
    refine ⟨rfl, trivial, fun _ => trivial, ?_, .inr ?_⟩
    · intro n
      rfl
    · intro env
      by_cases hz : m'.bswap ⟨alignTo rindex 4, 4⟩ = 0
      · show BasicArg.read env (basic_arg SD_BUS_TYPE_BOOLEAN
          (.number (if m'.bswap ⟨alignTo rindex 4, 4⟩ = 0 then 0 else 1))) = _
        rw [if_pos hz]
        rfl
      · show BasicArg.read env (basic_arg SD_BUS_TYPE_BOOLEAN
          (.number (if m'.bswap ⟨alignTo rindex 4, 4⟩ = 0 then 0 else 1))) = _
        rw [if_neg hz]
        rfl
  by_cases hfd : t = SD_BUS_TYPE_UNIX_FD
  · subst hfd
    obtain ⟨q1, m₁, hq, hrest⟩ := of_bind_ok h
    obtain ⟨rfl, rfl, -⟩ := peek_body_ok hq
    rw [get_bind_run] at hrest
    cases hf : m₁.fds[m₁.bswap ⟨alignTo rindex 4, 4⟩]? with
    | none =>
      rw [hf] at hrest
      cases hrest
    | some fd =>
      rw [hf] at hrest
      cases hrest
      refine ⟨rfl, trivial, fun _ => trivial, ?_, .inl ⟨fd, rfl⟩⟩
      intro n
      rfl
  · -- a value that is copied as it is
    obtain ⟨ft, hft⟩ := FixedType.of_code_basic hb (by
      simp only [Bool.or_eq_true, decide_eq_true_eq] at hstring
      simp [hstring, hg, hbool, hfd])
    obtain rfl := FixedType.of_code_some hft
    have hsize : bus_type_get_size ft.code = some ((bus_type_get_size ft.code).getD 1) := by
      cases ft <;> rfl
    have halign : bus_type_get_alignment ft.code = some (BasicType.fixed ft).align :=
      (BasicType.fixed ft).code_alignment
    rw [halign, hsize] at h
    obtain ⟨q1, m₁, hq, hrest⟩ := of_bind_ok h
    obtain ⟨rfl, rfl, hle⟩ := peek_body_ok hq
    rw [get_bind_run, if_neg hbool, if_neg hfd] at hrest
    cases hrest
    have harg : ∀ n, basic_arg ft.code (.number n) = .fixed ft n := by
      intro n
      unfold basic_arg
      dsimp only
      rw [if_neg hbool, hft]
    rw [harg]
    refine ⟨rfl, ?_, fun _ => trivial, ?_, .inr fun _ => rfl⟩
    · have hlt := toNat_lt m'.endian (m'.bytes ⟨alignTo rindex (BasicType.fixed ft).align,
        (bus_type_get_size ft.code).getD 1⟩)
      rw [bytes_length hle] at hlt
      exact hlt
    · intro n
      show _ = alignTo rindex _ + (ofNat BUS_NATIVE_ENDIAN _ _).length
      rw [length_ofNat]
      rfl

/-- What `sd_bus_message_exit_container` does if it succeeds. -/
theorem exit_container_ok (h : sd_bus_message_exit_container m = (.ok ⟨⟩, m')) :
    ∃ c rest, m.containers = c :: rest ∧
      (c.enclosing = SD_BUS_TYPE_ARRAY →
        ∃ a, c.array_size = some a ∧ c.begin + m.bswap ⟨a, 4⟩ = m.rindex) ∧
      m' = { m with containers := rest } := by
  obtain ⟨-, h⟩ := of_check_bind_ok h
  cases hc : m.containers with
  | nil =>
    rw [hc] at h
    cases h
  | cons c rest =>
    rw [hc] at h
    dsimp only at h
    refine ⟨c, rest, rfl, ?_⟩
    by_cases ha : c.enclosing = SD_BUS_TYPE_ARRAY
    · rw [if_neg (by simpa using ha)] at h
      cases hsize : c.array_size with
      | none =>
        rw [hsize] at h
        cases h
      | some a =>
        rw [hsize] at h
        obtain ⟨hend, h⟩ := of_check_bind_ok h
        cases h
        exact ⟨fun _ => ⟨a, rfl, beq_iff_eq.mp hend⟩, rfl⟩
    · rw [if_pos ha] at h
      obtain ⟨-, h⟩ := of_check_bind_ok h
      cases h
      exact ⟨fun h => absurd h ha, rfl⟩

/-! ## Section 3: Copying step by step -/

/-- The call appends what was read; a file descriptor is copied. -/
inductive CopyOf (dup : Int → Int → Prop) : MessageEvent → WriteCall → Prop
  | basic {env : AppendEnv} {type : UInt8} {v : ReadValue} :
    (∀ fd copy, v = .unix_fd fd → env.dup = .ok copy → dup fd copy) →
    CopyOf dup (.basic type v) (.append_basic env (basic_arg type v))
  | enter {env : AppendEnv} {type : UInt8} {contents : List UInt8} :
    CopyOf dup (.enter type contents) (.open_container env type contents)
  | exit : CopyOf dup .exit .close_container

/-- The reader of `m` and the writer of `n` make the same steps. -/
inductive CopyRun (dup : Int → Int → Prop) : SdBusMessage → SdBusMessage →
    List MessageEvent → List WriteCall → SdBusMessage → SdBusMessage → Prop
  | done (m n : SdBusMessage) : CopyRun dup m n [] [] m n
  | step {m m₁ m' n n₁ n' : SdBusMessage} {e : MessageEvent} {c : WriteCall}
    {es : List MessageEvent} {cs : List WriteCall} :
    read_event m = (.ok (some e), m₁) → c.run n = (.ok ⟨⟩, n₁) → CopyOf dup e c →
    CopyRun dup m₁ n₁ es cs m' n' → CopyRun dup m n (e :: es) (c :: cs) m' n'

section run
variable {dup : Int → Int → Prop} {es es' : List MessageEvent} {cs cs' : List WriteCall}

theorem CopyRun.append (h : CopyRun dup m n es cs m₁ n₁) (h' : CopyRun dup m₁ n₁ es' cs' m' n') :
    CopyRun dup m n (es ++ es') (cs ++ cs') m' n' := by
  induction h with
  | done m n => exact h'
  | step he hc hcopy _ ih => exact .step he hc hcopy (ih h')

theorem CopyRun.reads (h : CopyRun dup m n es cs m' n') : Reads m es m' := by
  induction h with
  | done m n => exact .done m
  | step he _ _ _ ih => exact .step he ih

theorem CopyRun.writes (h : CopyRun dup m n es cs m' n') : write_all cs n = (.ok ⟨⟩, n') := by
  induction h with
  | done m n => rfl
  | step _ hc _ _ ih =>
    rw [write_all, bind_run_ok hc]
    exact ih

variable {env : ReadEnv}

variable {p : PeekedType}

/-- A basic value is an event of the reader. -/
theorem read_event_of_basic {q : BodyRange} {v : ReadValue}
    (hp : sd_bus_message_peek_type env true m = (.ok (some p), m))
    (hb : sd_bus_message_read_basic p.type m = (.ok (some (q, v)), m')) :
    read_event m = (.ok (some (.basic p.type v)), m') := by
  unfold read_event
  rw [bind_run_ok (peek_type_all env true m _ m hp)]
  dsimp only
  rw [if_pos (read_basic_ok hb).1, bind_run_ok hb]
  rfl

/-- So is entering a container. -/
theorem read_event_of_enter {env' : ReadEnv} {contents : List UInt8}
    (hp : sd_bus_message_peek_type env true m = (.ok (some p), m))
    (hc : bus_type_is_container p.type = true) (hcontents : p.contents = some contents)
    (he : sd_bus_message_enter_container env' p.type (some contents) m = (.ok true, m')) :
    read_event m = (.ok (some (.enter p.type contents)), m') := by
  obtain ⟨hne, hbasic⟩ := container_code hc
  unfold read_event
  rw [bind_run_ok (peek_type_all env true m _ m hp)]
  dsimp only
  rw [hbasic, if_neg (by decide), hcontents,
    bind_run_ok (enter_container_all env' p.type contents hne m _ m' he)]
  rfl

/-- And leaving it. -/
theorem read_event_of_exit (hdepth : 0 < m.containers.length)
    (hp : sd_bus_message_peek_type env true m = (.ok none, m))
    (he : sd_bus_message_exit_container m = (.ok ⟨⟩, m')) :
    read_event m = (.ok (some .exit), m') := by
  have hsealed := (peek_type_ok hp).1
  unfold read_event
  rw [bind_run_ok (peek_type_all env true m _ m hp)]
  dsimp only
  have hend : sd_bus_message_at_end true m = (.ok false, m) := by
    unfold sd_bus_message_at_end
    rw [get_bind_run, check_bind_run_true hsealed, if_pos (by simpa using hdepth)]
    rfl
  rw [bind_run_ok hend, if_neg (by decide), bind_run_ok he]
  rfl

/-- At the end of the message the reader is done. -/
theorem read_event_of_end (hc : m.containers = []) (hroot : m.root_container.enclosing = 0)
    (hp : sd_bus_message_peek_type env true m = (.ok none, m)) :
    message_end_of_signature m = true ∧ read_event m = (.ok none, m) := by
  obtain ⟨hsealed, -, hr⟩ := peek_type_ok hp
  have harray : message_end_of_array m.rindex m = (.ok false, m) := by
    unfold message_end_of_array
    rw [get_bind_run, if_pos]
    · rfl
    · unfold SdBusMessage.last_container
      rw [hc, headD_nil, hroot]
      decide
  have hs : message_end_of_signature m = true := by
    rcases hr with ⟨-, hs | ha⟩ | ⟨-, -, p, hp, -⟩
    · exact hs
    · rw [harray] at ha
      cases ha
    · cases hp
  refine ⟨hs, ?_⟩
  unfold read_event
  rw [bind_run_ok (peek_type_all env true m _ m hp)]
  dsimp only
  have hend : sd_bus_message_at_end true m = (.ok true, m) := by
    unfold sd_bus_message_at_end
    rw [get_bind_run, check_bind_run_true hsealed, hc, if_pos hs]
    rfl
  rw [bind_run_ok hend]
  rfl

variable {s s' : Copying} {α : Type} {x : Call SdBusMessage α}

theorem on_message_ok {a : α} (h : on_message x s = (.ok a, s')) :
    x s.m = (.ok a, s'.m) ∧ s'.source = s.source := by
  have h1 : (x s.m).1 = .ok a := congrArg Prod.fst h
  have h2 : { s with m := (x s.m).2 } = s' := congrArg Prod.snd h
  subst h2
  exact ⟨Prod.ext h1 rfl, rfl⟩

theorem on_source_ok {a : α} (h : on_source x s = (.ok a, s')) :
    x s.source = (.ok a, s'.source) ∧ s'.m = s.m := by
  have h1 : (x s.source).1 = .ok a := congrArg Prod.fst h
  have h2 : { s with source := (x s.source).2 } = s' := congrArg Prod.snd h
  subst h2
  exact ⟨Prod.ext h1 rfl, rfl⟩

/-- The kernel has copied the descriptor at some place. -/
def CopyEnv.Dup (env : CopyEnv) (fd copy : Int) : Prop := ∃ place, env.dup place fd = .ok copy

theorem CopyEnv.dup_sub {env : CopyEnv} {i : Nat} {fd copy : Int} (h : (env.sub i).Dup fd copy) :
    env.Dup fd copy := by
  obtain ⟨place, h⟩ := h
  exact ⟨i :: place, h⟩

variable {dup' : Int → Int → Prop}

theorem CopyOf.mono {e : MessageEvent} {c : WriteCall} (hd : ∀ fd copy, dup fd copy → dup' fd copy)
    (h : CopyOf dup e c) : CopyOf dup' e c := by
  cases h with
  | basic h => exact .basic fun fd copy hv hc => hd fd copy (h fd copy hv hc)
  | enter => exact .enter
  | exit => exact .exit

theorem CopyRun.mono (hd : ∀ fd copy, dup fd copy → dup' fd copy) (h : CopyRun dup m n es cs m' n') :
    CopyRun dup' m n es cs m' n' := by
  induction h with
  | done m n => exact .done m n
  | step he hc hcopy _ ih => exact .step he hc (hcopy.mono hd) ih

/-- What a copy that succeeds has done: the same steps in both messages, up to
    the end of the container it started in. -/
def Copied (env : CopyEnv) (s s' : Copying) : Prop :=
  ∃ es cs, CopyRun env.Dup s.source s.m es cs s'.source s'.m ∧
    s'.source.containers.length = s.source.containers.length ∧
    ∃ env, sd_bus_message_peek_type env true s'.source = (.ok none, s'.source)

/-- Induction over the fuel: the loop and the containers in it. -/
theorem copy_ok (fuel : Nat) :
    (∀ env s b s', sd_bus_message_copy fuel env true s = (.ok b, s') → Copied env s s') ∧
    ∀ env done_something s b s', copy_loop fuel env true done_something s = (.ok b, s') →
      Copied env s s' := by
  induction fuel with
  | zero =>
    constructor
    · intro env s b s' h
      cases h
    · intro env d s b s' h
      cases h
  | succ fuel ih =>
    obtain ⟨ihcopy, ihloop⟩ := ih
    constructor
    · intro env s b s' h
      obtain ⟨-, h⟩ := of_check_bind_ok h
      obtain ⟨-, h⟩ := of_check_bind_ok h
      exact ihloop _ _ _ _ _ h
    · intro env d s b s' h
      obtain ⟨r, s₁, hpeek, h⟩ := of_bind_ok h
      obtain ⟨hpeek, hm₁⟩ := on_source_ok hpeek
      obtain ⟨hsealed, hsame, hr⟩ := peek_type_ok hpeek
      have hs₁ : s₁ = s := by
        exact congrArg₂ Copying.mk hm₁ hsame
      subst hs₁
      cases r with
      | none =>
        cases h
        exact ⟨[], [], .done _ _, rfl, _, hpeek⟩
      | some p =>
        obtain ⟨hsig, harray, p', hp', hnamed⟩ :=
          hr.resolve_left fun h => by cases h.1
        cases hp'
        dsimp only at h
        have hdup : ∀ i fd copy, (env.sub i).Dup fd copy → env.Dup fd copy :=
          fun i fd copy h => CopyEnv.dup_sub h
        by_cases hcont : bus_type_is_container p.type = true
        · rw [if_pos hcont] at h
          have hcode := container_code hcont
          obtain ⟨contents, hcontents⟩ : ∃ contents, p.contents = some contents := by
            rcases hnamed with hb | ⟨-, hc⟩
            · rw [hcode.2] at hb
              cases hb
            · exact hc
          rw [hcontents] at h
          obtain ⟨b₂, s₂, henter, h⟩ := of_bind_ok h
          obtain ⟨⟨⟩, s₃, hopen, h⟩ := of_bind_ok h
          obtain ⟨b₄, s₄, hinner, h⟩ := of_bind_ok h
          obtain ⟨⟨⟩, s₅, hclose, h⟩ := of_bind_ok h
          obtain ⟨⟨⟩, s₆, hexit, h⟩ := of_bind_ok h
          obtain ⟨henter, hm₂⟩ := on_source_ok henter
          obtain ⟨hopen, hsource₃⟩ := on_message_ok hopen
          obtain ⟨es, cs, hrun, hdepth, env', hend⟩ := ihcopy _ _ _ _ hinner
          obtain ⟨hclose, hsource₅⟩ := on_message_ok hclose
          obtain ⟨hexit, hm₆⟩ := on_source_ok hexit
          obtain ⟨es', cs', hrun', hdepth', hend'⟩ := ihloop _ _ _ _ _ h
          obtain ⟨rfl, -, m₁, array_size, hbus, hpushed⟩ :=
            enter_container_ok hsig harray hcode.1 henter
          have hlen₂ : s₂.source.containers.length = m₁.containers.length + 1 := by
            rw [hpushed]
            rfl
          obtain ⟨c, rest, hrest, -, hpopped⟩ := exit_container_ok hexit
          rw [hsource₅] at hrest hexit
          have hlen₆ : s₆.source.containers.length = m₁.containers.length := by
            have hl := congrArg length hrest
            rw [hdepth, hsource₃, hlen₂] at hl
            rw [hpopped]
            exact (Nat.succ.inj hl).symm
          have hfirst : CopyRun env.Dup s₁.source s₁.m [.enter p.type contents]
              [.open_container (env.append []) p.type contents] s₃.source s₃.m := by
            rw [hsource₃]
            rw [hm₂] at hopen
            exact .step (read_event_of_enter hpeek hcont hcontents henter) hopen .enter (.done _ _)
          have hlast : CopyRun env.Dup s₄.source s₄.m [.exit] [.close_container] s₆.source s₆.m := by
            have hpos : 0 < s₄.source.containers.length := by
              rw [hrest]
              exact Nat.succ_pos _
            rw [hm₆]
            exact .step (read_event_of_exit hpos hend hexit) hclose .exit (.done _ _)
          refine ⟨_, _, hfirst.append ((hrun.mono (hdup 0)).append
            (hlast.append (hrun'.mono (hdup 1)))), ?_, hend'⟩
          obtain ⟨k, -, -, -, -, -, rfl⟩ := bus_message_enter_ok hbus
          rw [hdepth', hlen₆, set_index_depth]
          exact saved_depth
        · rw [if_neg hcont] at h
          obtain ⟨r, s₂, hread, h⟩ := of_bind_ok h
          obtain ⟨hread, hm₂⟩ := on_source_ok hread
          cases r with
          | none => cases h
          | some qv =>
            obtain ⟨q, v⟩ := qv
            obtain ⟨⟨⟩, s₃, happend, h⟩ := of_bind_ok h
            obtain ⟨happend, hsource₃⟩ := on_message_ok happend
            obtain ⟨es', cs', hrun', hdepth', hend'⟩ := ihloop _ _ _ _ _ h
            have hcopy : CopyOf env.Dup (.basic p.type v)
                (.append_basic (env.append_value v) (basic_arg p.type v)) := by
              apply CopyOf.basic
              intro fd copy hv hc
              rw [hv] at hc
              exact ⟨[], hc⟩
            rw [hm₂] at happend
            have hevent := read_event_of_basic hpeek hread
            rw [← hsource₃] at hevent
            have hfirst := CopyRun.step (c := .append_basic _ _) hevent happend hcopy
              (hrun'.mono (hdup 1))
            refine ⟨_, _, hfirst, ?_, hend'⟩
            rw [hdepth', hsource₃, (read_basic_ok hread).2.2.2, set_index_depth]

end run

/-! ## Section 4: The same place in both messages -/

/-- The types of what is in the top-level container, up to the container that
    is open in it. -/
def Draft.root_types (d : Draft) : List Ty :=
  Value.types d.root ++ (d.frames.getLast?.map fun f => f.kind.ty).toList

variable {fs : List Frame} {root : List Value}

theorem Stack.root_signature {rc : BusMessageContainer} {cs : List BusMessageContainer}
    {pending : List Ty} (h : Stack rc root cs fs pending) : rc.signature =
      Ty.sigs (Value.types root ++ (fs.getLast?.map fun f => [f.kind.ty]).getD pending) := by
  induction cs generalizing fs pending with
  | nil =>
    cases fs with
    | nil =>
      have hroot : RootAs rc root pending := h
      exact hroot.signature
    | cons f fs => exact h.elim
  | cons c cs ih =>
    cases fs with
    | nil => exact h.elim
    | cons f fs =>
      rw [ih h.2]
      cases fs with
      | nil => rfl
      | cons g fs =>
        rw [getLast?_cons_cons]
        cases hl : (g :: fs).getLast? with
        | none => simp at hl
        | some l => rfl

theorem Written.root_signature {F : List Int} {es : List MessageEvent} {d : Draft}
    (h : Written F es n d) : n.root_container.signature = Ty.sigs d.root_types := by
  rw [h.stacked.root_signature]
  unfold Draft.root_types
  cases d.frames.getLast? with
  | none => rfl
  | some f => rfl

theorem root_types_push (v : Value) (d : Draft) : (Draft.push v d).root_types =
    if d.frames = [] then d.root_types ++ [v.type] else d.root_types := by
  obtain ⟨root, fs⟩ := d
  cases fs with
  | nil =>
    show Value.types (root ++ [v]) ++ [] = _
    rw [types_append]
    simp [Draft.root_types, Value.types]
  | cons f fs =>
    cases fs with
    | nil => rfl
    | cons g fs => rfl

theorem root_types_enter (k : ContainerKind) (d : Draft) : (d.enter k).root_types =
    if d.frames = [] then d.root_types ++ [k.ty] else d.root_types := by
  obtain ⟨root, fs⟩ := d
  cases fs with
  | nil =>
    simp [Draft.root_types, Draft.enter]
  | cons f fs =>
    rfl

variable {k : ContainerKind} {vs : List Value}

theorem root_types_close {v : Value} (hv : v.type = k.ty) :
    (Draft.push v ⟨root, fs⟩).root_types = (⟨root, ⟨k, vs⟩ :: fs⟩ : Draft).root_types := by
  rw [root_types_push]
  cases fs with
  | nil =>
    rw [hv]
    simp [Draft.root_types]
  | cons f fs =>
    rfl

theorem Draft.push_depth (v : Value) (d : Draft) :
    (Draft.push v d).frames.length = d.frames.length := by
  obtain ⟨root, fs⟩ := d
  cases fs with
  | nil => rfl
  | cons f fs => rfl

theorem length_push_basic (d : Draft) (v : BasicValue) : ((d.push (.basic v)).body 0).length =
    alignTo (d.body 0).length v.type.align + (v.encode BUS_NATIVE_ENDIAN).length := by
  have hadd := add_padding (n := (d.body 0).length) (Ty.basic v.type).align_pos
  rw [Draft.body_push, length_append, Value.encode, length_append, length_zeroes]
  show _ + (padding _ (Ty.basic v.type).align + _) = alignTo _ (Ty.basic v.type).align + _
  omega

theorem length_close {v : Value} (hk : k.Closes vs v) : ((Draft.push v ⟨root, fs⟩).body 0).length =
      ((⟨root, ⟨k, vs⟩ :: fs⟩ : Draft).body 0).length := by
  have hstop := Draft.frames_body_length 0
    (Draft.frames_body 0 root (⟨k, vs⟩ :: fs)).length root (⟨k, vs⟩ :: fs)
  rw [Draft.body_length 0 (Draft.frames_body 0 root (⟨k, vs⟩ :: fs)).length,
    ← Draft.body_close hk hstop, ← hstop]
  rfl

/-- What of a container the reader does not change while it is entered. -/
def BusMessageContainer.shape (c : BusMessageContainer) : UInt8 × Nat × Option Nat :=
  (c.enclosing, c.begin, c.array_size)

/-- The containers that are entered in a message are those that are open in its
    copy. -/
def FramesRead (m : SdBusMessage) (root : List Value) :
    List (UInt8 × Nat × Option Nat) → List Frame → Prop
  | [], [] => True
  | (enclosing, begin, array_size) :: cs, f :: fs =>
    enclosing = f.kind.ty.code ∧ begin = f.kind.begin (Draft.frames_body 0 root fs).length ∧
      (enclosing = SD_BUS_TYPE_ARRAY →
        ∃ a, array_size = some a ∧ m.bswap ⟨a, 4⟩ ≤ BUS_ARRAY_MAX_SIZE) ∧
      FramesRead m root cs fs
  | _, _ => False

/-- The reader of a message is where the copy ends. `s` is the signature of the
    message. -/
structure Lock (s : List UInt8) (m : SdBusMessage) (d : Draft) : Prop where
  pos : (d.body 0).length = m.rindex
  frames : FramesRead m d.root (m.containers.map (·.shape)) d.frames
  enclosing : m.root_container.enclosing = 0
  signature : m.root_container.signature = s
  types : Ty.sigs d.root_types = s.take m.root_container.index

section lock
variable {s : List UInt8} {d d' : Draft}

variable {cs : List (UInt8 × Nat × Option Nat)} {fs : List Frame} {root : List Value}

theorem FramesRead.push (v : Value) (h : FramesRead m root cs fs) :
    FramesRead m (Draft.push v ⟨root, fs⟩).root cs (Draft.push v ⟨root, fs⟩).frames := by
  cases fs with
  | nil =>
    cases cs with
    | nil => trivial
    | cons c cs => exact h.elim
  | cons f fs =>
    cases cs with
    | nil => exact h.elim
    | cons c cs => exact h

theorem FramesRead.length (h : FramesRead m root cs fs) : cs.length = fs.length := by
  induction cs generalizing fs with
  | nil =>
    cases fs with
    | nil => rfl
    | cons f fs => exact h.elim
  | cons c cs ih =>
    cases fs with
    | nil => exact h.elim
    | cons f fs => rw [length_cons, length_cons, ih h.2.2.2]

theorem Lock.length (h : Lock s m d) : m.containers.length = d.frames.length := by
  rw [← h.frames.length, length_map]

theorem Lock.depth (h : Lock s m d) : m.containers = [] ↔ d.frames = [] := by
  rw [← length_eq_zero_iff, h.length, length_eq_zero_iff]

/-- Only the body and the byte order of the message count. -/
theorem FramesRead.of_body (h : FramesRead m root cs fs) (hb : m'.body = m.body)
    (he : m'.endian = m.endian) : FramesRead m' root cs fs := by
  induction cs generalizing fs with
  | nil =>
    cases fs with
    | nil => trivial
    | cons f fs => exact h.elim
  | cons c cs ih =>
    cases fs with
    | nil => exact h.elim
    | cons f fs =>
      obtain ⟨h1, h2, h3, h4⟩ := h
      refine ⟨h1, h2, ?_, ih h4⟩
      intro ha
      obtain ⟨a, hs, hle⟩ := h3 ha
      refine ⟨a, hs, ?_⟩
      unfold SdBusMessage.bswap SdBusMessage.bytes
      rw [hb, he]
      exact hle

/-- Moving on in the body and in the signature. -/
structure MovesOn (m m' : SdBusMessage) (k rindex : Nat) : Prop where
  shapes : m'.containers.map (·.shape) = m.containers.map (·.shape)
  enclosing : m'.root_container.enclosing = m.root_container.enclosing
  signature : m'.root_container.signature = m.root_container.signature
  index : m.root_container.enclosing = 0 → m'.root_container.index =
    if m.containers = [] then m.root_container.index + k else m.root_container.index
  rindex : m'.rindex = rindex
  body : m'.body = m.body
  endian : m'.endian = m.endian

theorem set_index_moves_on (k rindex : Nat) (m : SdBusMessage) :
    MovesOn m (set_index (m.last_container.index + k) { m with rindex := rindex }) k rindex := by
  unfold set_index SdBusMessage.update_last SdBusMessage.last_container
  cases hc : m.containers with
  | nil =>
    split
    · exact ⟨by simp [hc], rfl, rfl, fun _ => (if_pos hc).symm, rfl, rfl, rfl⟩
    · next harray =>
      refine ⟨by simp [hc], rfl, rfl, ?_, rfl, rfl, rfl⟩
      intro h0
      rw [headD_nil, h0] at harray
      exact absurd (by decide) harray
  | cons c cs =>
    split
    · exact ⟨by simp [hc, BusMessageContainer.shape], rfl, rfl,
        fun _ => (if_neg (by simp [hc])).symm, rfl, rfl, rfl⟩
    · exact ⟨by simp [hc], rfl, rfl, fun _ => (if_neg (by simp [hc])).symm, rfl, rfl, rfl⟩

/-- The message in which the index is kept is the same in all that counts. -/
theorem saved_moves_on {k rindex : Nat} (h : MovesOn (saved_message m) m' k rindex) :
    MovesOn m m' k rindex := by
  have hshapes : (saved_message m).containers.map (·.shape) = m.containers.map (·.shape) := by
    unfold saved_message SdBusMessage.update_last
    cases hc : m.containers with
    | nil => rfl
    | cons c cs => rfl
  have hnil : (saved_message m).containers = [] ↔ m.containers = [] := by
    rw [← length_eq_zero_iff, saved_depth, length_eq_zero_iff]
  have hroot : (saved_message m).root_container.enclosing = m.root_container.enclosing ∧
      (saved_message m).root_container.signature = m.root_container.signature ∧
      (saved_message m).root_container.index = m.root_container.index := by
    unfold saved_message SdBusMessage.update_last
    cases m.containers with
    | nil => exact ⟨rfl, rfl, rfl⟩
    | cons c cs => exact ⟨rfl, rfl, rfl⟩
  obtain ⟨h1, h2, h3⟩ := hroot
  have hsame : (saved_message m).body = m.body ∧ (saved_message m).endian = m.endian := by
    unfold saved_message SdBusMessage.update_last
    cases m.containers with
    | nil => exact ⟨rfl, rfl⟩
    | cons c cs => exact ⟨rfl, rfl⟩
  refine ⟨h.shapes.trans hshapes, h.enclosing.trans h1, h.signature.trans h2, ?_, h.rindex,
    h.body.trans hsame.1, h.endian.trans hsame.2⟩
  intro h0
  rw [h.index (h1.trans h0), h3]
  simp only [hnil]

/-- Where a part of the signature is read at the top level, it is behind what
    was read. -/
theorem take_signature {t : List UInt8} {index : Nat} (h : t <+: s.drop index) :
    s.take (index + t.length) = s.take index ++ t := by
  obtain ⟨r, hr⟩ := h
  rw [take_add, ← hr, take_left' rfl]

/-- The reader has read a type, and the writer has appended it. -/
theorem Lock.types_next {t : Ty} {rindex : Nat} (h : Lock s m d)
    (hm : MovesOn m m' t.sig.length rindex)
    (hnext : t.sig <+: m.last_container.signature.drop m.last_container.index) :
    Ty.sigs (if d.frames = [] then d.root_types ++ [t] else d.root_types) =
      s.take m'.root_container.index := by
  rw [hm.index h.enclosing]
  by_cases hc : m.containers = []
  · have hlast : m.last_container = m.root_container := by
      unfold SdBusMessage.last_container
      rw [hc]
      rfl
    rw [hlast, h.signature] at hnext
    rw [if_pos (h.depth.mp hc), if_pos hc, Ty.sigs_append, h.types, take_signature hnext]
    simp [Ty.sigs]
  · rw [if_neg (fun hd => hc (h.depth.mpr hd)), if_neg hc]
    exact h.types

/-- A basic value is read and appended. -/
theorem Lock.step_basic {v : BasicValue} {t : UInt8} {q : BodyRange} (h : Lock s m d)
    (hv : v.type.code = t) (hcur : m.last_container.current = some t)
    (hq : q.stop = alignTo m.rindex v.type.align + (v.encode BUS_NATIVE_ENDIAN).length)
    (hm : m' = set_index (m.last_container.index + 1) { m with rindex := q.stop }) :
    Lock s m' (d.push (.basic v)) := by
  have hmoves := set_index_moves_on 1 q.stop m
  rw [← hm] at hmoves
  have hnext : (Ty.basic v.type).sig <+:
      m.last_container.signature.drop m.last_container.index := by
    rw [Ty.sig, hv]
    exact current_prefix hcur
  refine ⟨?_, ?_, hmoves.enclosing.trans h.enclosing, hmoves.signature.trans h.signature, ?_⟩
  · rw [hmoves.rindex, hq, length_push_basic, h.pos]
  · rw [hmoves.shapes]
    exact (h.frames.push (.basic v)).of_body hmoves.body hmoves.endian
  · rw [root_types_push]
    exact h.types_next hmoves hnext

variable {k : ContainerKind}

/-- A container is entered and opened. -/
theorem Lock.step_enter {m₁ : SdBusMessage} {contents : List UInt8} {before : Nat}
    {array_size : Option Nat} (h : Lock s m d)
    (hnext : k.ty.sig <+: m.last_container.signature.drop m.last_container.index)
    (hm₁ : MovesOn m m₁ k.ty.sig.length (k.begin m.rindex))
    (harray : k.ty.code = SD_BUS_TYPE_ARRAY → ∃ a, array_size = some a ∧ m.bswap ⟨a, 4⟩ ≤ BUS_ARRAY_MAX_SIZE)
    (hm : m' = { m₁ with containers := { enclosing := k.ty.code, signature := contents, index := 0, saved_index := 0, before := before, begin := m₁.rindex, end_ := m₁.rindex, array_size := array_size } :: m₁.containers }) :
    Lock s m' (d.enter k) := by
  have hpos := h.pos
  subst hm
  refine ⟨?_, ?_, hm₁.enclosing.trans h.enclosing, hm₁.signature.trans h.signature, ?_⟩
  · show ((d.enter k).body 0).length = m₁.rindex
    rw [Draft.body_enter, length_append, ContainerKind.length_head, hm₁.rindex, hpos]
  · refine ⟨rfl, ?_, ?_, ?_⟩
    · show m₁.rindex = k.begin (d.body 0).length
      rw [hm₁.rindex, hpos]
    · intro ha
      obtain ⟨a, hs, hle⟩ := harray ha
      refine ⟨a, hs, ?_⟩
      rw [hm₁.body, hm₁.endian]
      exact hle
    · show FramesRead _ d.root (m₁.containers.map (·.shape)) d.frames
      rw [hm₁.shapes]
      exact h.frames.of_body hm₁.body hm₁.endian
  · rw [root_types_enter]
    have htypes := h.types_next hm₁ hnext
    exact htypes

/-- A container is left and closed. -/
theorem Lock.step_exit {vs : List Value} {v : Value} {c : BusMessageContainer}
    {rest : List BusMessageContainer} (h : Lock s m ⟨root, ⟨k, vs⟩ :: fs⟩) (hk : k.Closes vs v)
    (hc : m.containers = c :: rest) (hm : m' = { m with containers := rest }) :
    Lock s m' (Draft.push v ⟨root, fs⟩) := by
  have hframes := h.frames
  rw [hc] at hframes
  subst hm
  refine ⟨?_, ?_, h.enclosing, h.signature, ?_⟩
  · rw [length_close hk]
    exact h.pos
  · exact (hframes.2.2.2.push v).of_body rfl rfl
  · rw [root_types_close hk.type]
    exact h.types

end lock

/-! ## Section 5: Runs -/

/-- What is read next is a basic value, a container, or the end of one. -/
theorem read_event_cases {e : MessageEvent} (h : read_event m = (.ok (some e), m')) :
    (∃ t q v, e = .basic t v ∧ sd_bus_message_read_basic t m = (.ok (some (q, v)), m')) ∨
    (∃ type contents, e = .enter type contents ∧ type ≠ 0 ∧ message_end_of_signature m = false ∧
      message_end_of_array m.rindex m = (.ok false, m) ∧
      sd_bus_message_enter_container .all type (some contents) m = (.ok true, m')) ∨
    (e = .exit ∧ sd_bus_message_exit_container m = (.ok ⟨⟩, m')) := by
  obtain ⟨r, m₁, hpeek, h⟩ := of_bind_ok h
  obtain ⟨-, hsame, hr⟩ := peek_type_ok hpeek
  rw [hsame] at h
  cases r with
  | none =>
    obtain ⟨b, m2, hend, h⟩ := of_bind_ok h
    by_cases hb : b = true
    · rw [if_pos hb] at h
      cases h
    rw [if_neg hb] at h
    obtain ⟨⟨⟩, m3, hexit, h⟩ := of_bind_ok h
    cases h
    have hm2 : m2 = m := by
      have hend := (of_check_bind_ok hend).2
      split_ifs at hend
      · cases hend
        rfl
      · cases hend
        rfl
      · have hstate := message_end_of_array_state m m.rindex
        rw [hend] at hstate
        exact hstate
    rw [hm2] at hexit
    exact .inr (.inr ⟨rfl, hexit⟩)
  | some p =>
    obtain ⟨hs, ha, p', hp', hnamed⟩ := hr.resolve_left fun h => by cases h.1
    cases hp'
    dsimp only at h
    by_cases hb : bus_type_is_basic p.type = true
    · rw [if_pos hb] at h
      obtain ⟨r, m2, hread, h⟩ := of_bind_ok h
      cases r with
      | none => cases h
      | some qv =>
        cases h
        exact .inl ⟨p.type, qv.1, qv.2, rfl, hread⟩
    · rw [if_neg hb] at h
      obtain ⟨hc, contents, hcontents⟩ := hnamed.resolve_left hb
      obtain ⟨b, m2, henter, h⟩ := of_bind_ok h
      by_cases hb' : b = true
      · rw [if_pos hb'] at h
        cases h
        rw [hcontents, hb'] at henter
        exact .inr (.inl ⟨p.type, contents, by rw [hcontents]; rfl, (container_code hc).1, hs, ha,
          henter⟩)
      · rw [if_neg hb'] at h
        cases h

/-- The same but for the descriptor, which is a copy. -/
inductive SameEvent (dup : Int → Int → Prop) : MessageEvent → MessageEvent → Prop
  | same (e : MessageEvent) : SameEvent dup e e
  | unix_fd {type : UInt8} {fd copy : Int} : dup fd copy →
    SameEvent dup (.basic type (.unix_fd fd)) (.basic type (.unix_fd copy))

section steps
variable {dup : Int → Int → Prop} {F : List Int} {es₀ es : List MessageEvent}
  {cs : List WriteCall} {s : List UInt8} {d : Draft}

theorem ContainerKind.eq_of_sig {k k' : ContainerKind} (hcode : k.ty.code = k'.ty.code)
    (hcontents : Ty.sigs k.contents = Ty.sigs k'.contents) : k = k' := by
  have hc := Ty.sigs_injective hcontents
  cases k <;> cases k' <;> first | cases hcode | (cases hc; rfl) | skip
  all_goals simp_all [ContainerKind.contents]

variable {env : AppendEnv}

theorem Draft.Step.of_open {type : UInt8} {contents : List UInt8} {d' : Draft}
    (h : Draft.Step (.open_container env type contents) d d') :
    ∃ k : ContainerKind, type = k.ty.code ∧ contents = Ty.sigs k.contents ∧ d' = d.enter k := by
  generalize hc : WriteCall.open_container env type contents = c at h
  cases h with
  | push _ => cases hc
  | enter =>
    rw [WriteCall.open_container.injEq] at hc
    exact ⟨_, hc.2.1, hc.2.2, rfl⟩
  | close _ => cases hc

section
variable (hw : Written F es₀ n d)
include hw

theorem step_basic {t : UInt8} {v : ReadValue} {q : BodyRange} (hl : Lock s m d)
    (hread : sd_bus_message_read_basic t m = (.ok (some (q, v)), m₁))
    (hrun : sd_bus_message_append_basic env (basic_arg t v) n = (.ok ⟨⟩, n₁))
    (hdup : ∀ fd copy, v = .unix_fd fd → env.dup = .ok copy → dup fd copy) (hF : n₁.fds <+: F) :
    SameEvent dup (.basic t v) (WriteCall.append_basic env (basic_arg t v)).event ∧
      ∃ d', Written F (es₀ ++ [(WriteCall.append_basic env (basic_arg t v)).event]) n₁ d' ∧
        Lock s m₁ d' := by
  obtain ⟨hb, hcur, hvalue, hm1⟩ := read_basic_ok hread
  obtain ⟨htype, hpointed, hwithin, htakes, hsame⟩ := read_value_ok (n := n) hb hvalue
  constructor
  · show SameEvent dup _ (.basic (basic_arg t v).type ((basic_arg t v).read env))
    rw [htype]
    rcases hsame with ⟨fd, rfl⟩ | hsame
    · -- the writer has a copy of the descriptor
      obtain ⟨n2, align, data, copy, -, -, hdata, -, -⟩ := append_basic_ok hrun
      obtain ⟨c, n3, hpush, -⟩ := of_bind_ok hdata
      obtain ⟨hcopy, -⟩ := message_push_fd_ok hpush
      simp only [BasicArg.read, hcopy]
      exact .unix_fd (hdup fd c rfl hcopy)
    · rw [hsame env]
      exact .same _
  · obtain ⟨d', hw', hstep⟩ := hw.step (c := .append_basic env (basic_arg t v)) hpointed
      (hwithin env) hrun hF
    refine ⟨d', hw', ?_⟩
    cases hstep with
    | push hcode => exact hl.step_basic (hcode.trans htype) hcur (htakes _) hm1

theorem step_enter {type : UInt8} {contents : List UInt8} (hl : Lock s m d) (ht : type ≠ 0)
    (hs : message_end_of_signature m = false)
    (ha : message_end_of_array m.rindex m = (.ok false, m))
    (hread : sd_bus_message_enter_container .all type (some contents) m = (.ok true, m₁))
    (hrun : sd_bus_message_open_container env type contents n = (.ok ⟨⟩, n₁)) (hF : n₁.fds <+: F) :
    ∃ d', Written F (es₀ ++ [.enter type contents]) n₁ d' ∧ Lock s m₁ d' := by
  obtain ⟨-, hdepth, m2, array_size, henter, hm1⟩ := enter_container_ok hs ha ht hread
  obtain ⟨k, rfl, rfl, hnext, hshort, harray, hm2⟩ := bus_message_enter_ok henter
  have hwithin : (WriteCall.open_container env k.ty.code (Ty.sigs k.contents)).Within n := by
    refine ⟨?_, hshort⟩
    rw [hw.depth, ← hl.length]
    exact hdepth
  obtain ⟨d', hw', hstep⟩ := hw.step (c := .open_container env k.ty.code (Ty.sigs k.contents))
    trivial hwithin hrun hF
  refine ⟨d', hw', ?_⟩
  have hmoves : MovesOn m m2 k.ty.sig.length (k.begin m.rindex) := by
    apply saved_moves_on
    have hrindex : (saved_message m).rindex = m.rindex := update_last_rindex ..
    rw [hm2, hrindex]
    exact set_index_moves_on ..
  rw [saved_last] at hnext
  have hword : ∀ a, (saved_message m).bswap ⟨a, 4⟩ = m.bswap ⟨a, 4⟩ := by
    intro a
    unfold SdBusMessage.bswap SdBusMessage.bytes saved_message SdBusMessage.update_last
    cases m.containers <;> rfl
  obtain ⟨k', hcode, hcontents, rfl⟩ := hstep.of_open
  obtain rfl := ContainerKind.eq_of_sig hcode hcontents
  apply hl.step_enter hnext hmoves ?_ hm1
  intro hk
  obtain ⟨a, hsize, hle⟩ := harray hk
  rw [hword] at hle
  exact ⟨a, hsize, hle⟩

/-- Only an array has a length, and it is that of what is in it. -/
theorem Written.closing_array {a : Nat} (hsize : n.last_container.array_size = some a)
    (hfs : d.frames ≠ []) : ∃ elem vs root fs, d = ⟨root, ⟨.array elem, vs⟩ :: fs⟩ ∧
      toNat BUS_NATIVE_ENDIAN (slice n.body a 4) = (Value.encodes BUS_NATIVE_ENDIAN
        (ContainerKind.begin (Draft.frames_body 0 root fs).length (.array elem)) vs).length := by
  obtain ⟨root, fs⟩ := d
  cases fs with
  | nil => exact absurd rfl hfs
  | cons f fs =>
    obtain ⟨k, vs⟩ := f
    have hstacked := hw.stacked
    unfold Stacked at hstacked
    cases hcn : n.containers with
    | nil =>
      rw [hcn] at hstacked
      exact hstacked.elim
    | cons cn rest =>
      rw [hcn] at hstacked
      have hopen := hstacked.1.array_size
      have hlast : n.last_container = cn := by
        unfold SdBusMessage.last_container
        rw [hcn]
        rfl
      cases k with
      | array elem =>
        obtain ⟨a', hsize', hword⟩ := hw.drafted.array_word
        have ha : a = a' := Option.some.inj (hsize.symm.trans hsize')
        rw [ha]
        exact ⟨elem, vs, root, fs, rfl, hword⟩
      | variant t =>
        rw [hlast, hopen] at hsize
        cases hsize
      | struct members =>
        rw [hlast, hopen] at hsize
        cases hsize
      | dict_entry key value =>
        rw [hlast, hopen] at hsize
        cases hsize

theorem step_exit (hl : Lock s m d) (hread : sd_bus_message_exit_container m = (.ok ⟨⟩, m₁))
    (hrun : sd_bus_message_close_container n = (.ok ⟨⟩, n₁)) (hF : n₁.fds <+: F) :
    ∃ d', Written F (es₀ ++ [.exit]) n₁ d' ∧ Lock s m₁ d' := by
  obtain ⟨c, rest, hc, hend, hm1⟩ := exit_container_ok hread
  have hfs : d.frames ≠ [] := by
    rw [Ne, ← hl.depth, hc]
    exact cons_ne_nil _ _
  have hwithin : WriteCall.close_container.Within n := by
    intro a hsize
    obtain ⟨elem, vs, root, fs, rfl, hword⟩ := hw.closing_array hsize hfs
    -- what the reader has checked is the length of what is in the copy
    have hframes := hl.frames
    rw [hc] at hframes
    obtain ⟨hcode, hbegin, hmax, -⟩ := hframes
    obtain ⟨a1, hs1, hle⟩ := hmax hcode
    obtain ⟨a2, hs2, hstop⟩ := hend hcode
    have ha1 : a1 = a2 := Option.some.inj (hs1.symm.trans hs2)
    have hpos : (Draft.frames_body 0 root (⟨.array elem, vs⟩ :: fs)).length = m.rindex := hl.pos
    rw [Draft.length_frames_body_cons] at hpos
    have hbegin' : c.begin =
        ContainerKind.begin (Draft.frames_body 0 root fs).length (.array elem) := hbegin
    rw [ha1] at hle
    dsimp only at hpos
    omega
  obtain ⟨d', hw', hstep⟩ := hw.step (c := .close_container) trivial hwithin hrun hF
  refine ⟨d', hw', ?_⟩
  cases hstep with
  | close hk => exact hl.step_exit hk hc hm1

/-- One step of both. -/
theorem copy_step {e : MessageEvent} {c : WriteCall} (hl : Lock s m d)
    (hread : read_event m = (.ok (some e), m₁)) (hrun : c.run n = (.ok ⟨⟩, n₁))
    (hcopy : CopyOf dup e c) (hF : n₁.fds <+: F) :
    SameEvent dup e c.event ∧ ∃ d', Written F (es₀ ++ [c.event]) n₁ d' ∧ Lock s m₁ d' := by
  rcases read_event_cases hread with ⟨t, q, v, rfl, hr⟩ |
    ⟨type, contents, rfl, ht, hs, ha, hr⟩ | ⟨rfl, hr⟩
  · cases hcopy with
    | basic hdup => exact step_basic hw hl hr hrun hdup hF
  · cases hcopy with
    | enter => exact ⟨.same _, step_enter hw hl ht hs ha hr hrun hF⟩
  · cases hcopy with
    | exit => exact ⟨.same _, step_exit hw hl hr hrun hF⟩

end

/-- Induction over the steps: the copy has the same events, and ends where the
    reader is. -/
theorem CopyRun.locked (hrun : CopyRun dup m n es cs m' n') (hw : Written F es₀ n d)
    (hl : Lock s m d) (hF : n'.fds <+: F) :
    List.Forall₂ (SameEvent dup) es (cs.map WriteCall.event) ∧
      ∃ d', Written F (es₀ ++ cs.map WriteCall.event) n' d' ∧ Lock s m' d' := by
  induction hrun generalizing es₀ d with
  | done m n =>
    rw [map_nil, append_nil]
    exact ⟨.nil, d, hw, hl⟩
  | step hread hc hcopy hrest ih =>
    have hF1 := (write_all_frame hrest.writes).1.trans hF
    obtain ⟨hsame, d1, hw1, hl1⟩ := copy_step hw hl hread hc hcopy hF1
    obtain ⟨hall, hd⟩ := ih hw1 hl1 hF
    rw [append_assoc] at hd
    exact ⟨.cons hsame hall, hd⟩

end steps

end Bus

end SdCompat
