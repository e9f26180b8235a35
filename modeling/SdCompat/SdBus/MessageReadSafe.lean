import SdCompat.Lib.Transition
import SdCompat.SdBus.MessageParse
import SdCompat.SdBus.Signature

/-! # Reading is safe

    Whatever a peer sends, the functions that read a message keep the read
    index inside the body, hand out parts of the body only, keep the stack of
    containers bounded and never fail an assertion; and skipping comes to its
    end.
-/

open Bytes Transition

namespace SdCompat.Bus

open Call List SdBusMessage Nat

/-! ## Section 1: The invariant -/

/-- A container that was entered: it starts inside the body, where its end is
    too, and the length of an array is a part of the body. -/
structure Entered (body : List UInt8) (c : BusMessageContainer) : Prop where
  end_eq : c.end_ = c.begin
  array : c.enclosing = SD_BUS_TYPE_ARRAY → ∃ a, c.array_size = some a ∧ a + 4 ≤ body.length

/-- A message with this body while it is read. Every container starts where
    the one around it does or after it, and the read index is not before the
    last one. -/
structure Reading (body : List UInt8) (m : SdBusMessage) : Prop where
  sealed : m.sealed = true
  body_eq : m.body = body
  depth : m.containers.length ≤ BUS_CONTAINER_DEPTH
  rindex_le : m.rindex ≤ body.length
  nested : (m.rindex :: m.containers.map (·.begin)).IsChain (· ≥ ·)
  entered : ∀ c ∈ m.containers, Entered body c
  root : m.root_container.enclosing = 0
  root_begin : m.root_container.begin = 0

/-- The first number of a descending list may be larger. -/
theorem isChain_ge_head {a b : Nat} {l : List Nat} (h : (a :: l).IsChain (· ≥ ·)) (hab : a ≤ b) :
    (b :: l).IsChain (· ≥ ·) := by
  cases l with
  | nil => exact .singleton _
  | cons c l =>
    rw [isChain_cons_cons] at h ⊢
    exact ⟨le_trans h.1 hab, h.2⟩

/-- The read index is at or behind the end of the array that was entered
    last. -/
def end_of_array (m : SdBusMessage) : Bool :=
  m.last_container.enclosing == SD_BUS_TYPE_ARRAY &&
    m.last_container.array_size.any fun a =>
      m.last_container.begin + m.bswap ⟨a, 4⟩ ≤ m.rindex

namespace Reading

variable {body : List UInt8} {m : SdBusMessage}

section
variable (h : Reading body m)
include h

theorem last_begin_le : m.last_container.begin ≤ m.rindex := by
  have hn := h.nested
  unfold last_container
  match hc : m.containers with
  | [] =>
    show m.root_container.begin ≤ m.rindex
    rw [h.root_begin]
    exact zero_le _
  | c :: cs =>
    rw [hc] at hn
    exact (isChain_cons_cons.mp hn).1

theorem last_array (ha : m.last_container.enclosing = SD_BUS_TYPE_ARRAY) :
    ∃ a, m.last_container.array_size = some a ∧ a + 4 ≤ body.length := by
  have he := h.entered
  unfold last_container at ha ⊢
  match hc : m.containers with
  | [] =>
    rw [hc] at ha
    have : m.root_container.enclosing = SD_BUS_TYPE_ARRAY := ha
    rw [h.root] at this
    cases this
  | c :: cs =>
    rw [hc] at ha he
    exact (he c mem_cons_self).array ha

/-- The assertion on the array size holds. -/
theorem message_end_of_array_run : message_end_of_array m.rindex m = (.ok (end_of_array m), m) := by
  unfold message_end_of_array end_of_array
  by_cases ha : m.last_container.enclosing = SD_BUS_TYPE_ARRAY
  · obtain ⟨a, hs, -⟩ := h.last_array ha
    simp [ha, hs]
  · simp [ha]

/-- Moving on in the body. -/
theorem set_rindex {rindex : Nat} (hle : m.rindex ≤ rindex) (hb : rindex ≤ body.length) :
    Reading body { m with rindex := rindex } :=
  { h with rindex_le := hb, nested := isChain_ge_head h.nested hle }

/-- Changing indices of the last container. -/
theorem update_last {f : BusMessageContainer → BusMessageContainer}
    (hf : ∀ c, ∃ index saved_index, f c = { c with index := index, saved_index := saved_index }) :
    Reading body (m.update_last f) := by
  have hd := h.depth
  have hn := h.nested
  have he := h.entered
  unfold SdBusMessage.update_last
  cases hc : m.containers with
  | nil =>
    rw [hc] at hd hn he
    obtain ⟨i, j, hr⟩ := hf m.root_container
    refine { h with depth := hd, nested := hn, entered := he, root := ?_, root_begin := ?_ }
    · show (f m.root_container).enclosing = 0
      rw [hr]
      exact h.root
    · show (f m.root_container).begin = 0
      rw [hr]
      exact h.root_begin
  | cons c cs =>
    rw [hc] at hd hn he
    obtain ⟨i, j, hr⟩ := hf c
    refine { h with depth := hd, nested := ?_, entered := ?_ }
    · show (m.rindex :: (f c :: cs).map (·.begin)).IsChain (· ≥ ·)
      rw [hr]
      exact hn
    · intro c' hm
      rcases mem_cons.mp hm with rfl | hm
      · rw [hr]
        have hc' := he c mem_cons_self
        exact ⟨hc'.end_eq, hc'.array⟩
      · exact he c' (mem_cons_of_mem _ hm)

theorem set_index (index : Nat) : Reading body (set_index index m) := by
  unfold Bus.set_index
  split
  · exact h.update_last fun c => ⟨index, c.saved_index, rfl⟩
  · exact h

variable {c : BusMessageContainer}

/-- Entering a container. -/
theorem push (hd : m.containers.length < BUS_CONTAINER_DEPTH) (hb : c.begin = m.rindex)
    (hc : Entered body c) : Reading body { m with containers := c :: m.containers } := by
  refine { h with depth := hd, nested := ?_, entered := ?_ }
  · show (m.rindex :: c.begin :: m.containers.map (·.begin)).IsChain (· ≥ ·)
    rw [isChain_cons_cons, hb]
    exact ⟨le_refl _, h.nested⟩
  · intro c' hm
    rcases mem_cons.mp hm with rfl | hm
    · exact hc
    · exact h.entered c' hm

/-- Leaving a container. -/
theorem pop {rest : List BusMessageContainer} (hc : m.containers = c :: rest) :
    Reading body { m with containers := rest } := by
  have hd := h.depth
  have hn := h.nested
  have he := h.entered
  rw [hc] at hd hn he
  refine { h with depth := by simp at hd; exact le_of_lt hd, nested := ?_, entered := ?_ }
  · show (m.rindex :: rest.map (·.begin)).IsChain (· ≥ ·)
    rw [map_cons, isChain_cons_cons] at hn
    exact isChain_ge_head hn.2 hn.1
  · exact fun c' hm => he c' (mem_cons_of_mem _ hm)

/-- Going back to where the last container starts. -/
theorem to_begin : Reading body { m with rindex := m.last_container.begin } := by
  have hle : m.last_container.begin ≤ body.length := le_trans h.last_begin_le h.rindex_le
  refine { h with rindex_le := hle, nested := ?_ }
  have hn := h.nested
  unfold last_container
  cases hc : m.containers with
  | nil => exact .singleton _
  | cons c cs =>
    rw [hc, map_cons, isChain_cons_cons] at hn
    rw [map_cons, isChain_cons_cons]
    exact ⟨le_refl _, hn.2⟩

end

end Reading

/-! ## Section 2: Reading values -/

/-- What is peeked at is inside the buffer, behind the index. -/
theorem peek_part_some {buf : List UInt8} {rindex align nbytes : Nat} {q : BodyRange}
    (ha : 0 < align) (h : peek_part buf rindex align nbytes = some q) :
    q.size = nbytes ∧ rindex + nbytes ≤ q.stop ∧ q.stop ≤ buf.length := by
  unfold peek_part at h
  have hle := le_alignTo (n := rindex) ha
  split_ifs at h
  cases h
  exact ⟨rfl, by simp [BodyRange.stop]; omega, by simp [BodyRange.stop]; omega⟩

section values
variable {body : List UInt8} {m : SdBusMessage}

/-- Peeking leaves the message as it is. -/
theorem peek_body_ensures (rindex nbytes : Nat) {align : Nat} (ha : 0 < align)
    (hb : m.body = body) : (peek_body rindex align nbytes).Ensures m
      (fun q m' => m' = m ∧ q.size = nbytes ∧ rindex + nbytes ≤ q.stop ∧ q.stop ≤ body.length)
      (· = m) := by
  apply ensures_get_bind
  cases hq : message_peek_body m rindex align nbytes with
  | none => exact ensures_fail rfl
  | some q =>
    obtain ⟨hs, hle, hstop⟩ := peek_part_some ha hq
    exact ⟨rfl, hs, hle, hb ▸ hstop⟩

theorem peek_string_ensures (rindex : Nat) (ok : List UInt8 → Nat → Bool) (hb : m.body = body) :
    (peek_string rindex ok).Ensures m
      (fun q m' => m' = m ∧ rindex < q.stop ∧ q.stop ≤ body.length) (· = m) := by
  apply ensures_bind (peek_body_ensures rindex 4 (by decide) hb)
  rintro q m₁ ⟨rfl, -, hq, -⟩
  refine ensures_get_bind (ensures_check_bind rfl fun _ => ?_)
  apply ensures_bind (peek_body_ensures q.stop _ (by decide) hb)
  rintro s m₂ ⟨rfl, -, hs, hle⟩
  refine ensures_get_bind (ensures_check_bind rfl fun _ => ?_)
  exact ensures_pure ⟨rfl, by omega, hle⟩

theorem peek_signature_ensures (rindex : Nat) (hb : m.body = body) :
    (peek_signature rindex).Ensures m
      (fun q m' => m' = m ∧ rindex < q.stop ∧ q.stop ≤ body.length ∧ q.size ≤ 255) (· = m) := by
  apply ensures_bind (peek_body_ensures rindex 1 (by decide) hb)
  rintro q m₁ ⟨rfl, hn, hq, hqb⟩
  refine ensures_get_bind (ensures_check_bind rfl fun hl => ?_)
  apply ensures_bind (peek_body_ensures q.stop _ (by decide) hb)
  rintro s m₂ ⟨rfl, hsize, hs, hle⟩
  refine ensures_get_bind (ensures_check_bind rfl fun _ => ?_)
  refine ensures_pure ⟨rfl, by omega, hle, ?_⟩
  -- the length is one byte, and not the largest
  have hlt := toNat_lt m₂.endian (m₂.bytes q)
  have hlen : (m₂.bytes q).length = 1 := by
    rw [← hn]
    exact length_slice (by rw [hb]; exact hqb)
  rw [hlen] at hlt
  have hne : m₂.bswap q ≠ 0xff := by simpa using hl
  unfold bswap at hne hsize
  omega

theorem read_value_ensures (type : UInt8) (rindex : Nat) (ht : bus_type_is_basic type = true)
    (hb : m.body = body) : (read_value type rindex).Ensures m
      (fun r m' => m' = m ∧ rindex < r.1.stop ∧ r.1.stop ≤ body.length) (· = m) := by
  unfold read_value
  split
  · apply ensures_bind (peek_string_ensures rindex _ hb)
    rintro q m₁ ⟨rfl, hq, hle⟩
    exact ensures_get_bind (ensures_pure ⟨rfl, hq, hle⟩)
  · next hs =>
    split
    · apply ensures_bind (peek_signature_ensures rindex hb)
      rintro q m₁ ⟨rfl, hq, hle, -⟩
      exact ensures_get_bind (ensures_pure ⟨rfl, hq, hle⟩)
    · next hg =>
      obtain ⟨align, ha⟩ := Option.ne_none_iff_exists'.mp (alignment_of_basic ht)
      obtain ⟨sz, hsz⟩ := Option.ne_none_iff_exists'.mp
        (size_of_basic ht (by simpa using hs) hg)
      rw [ha, hsz]
      apply ensures_bind
        (peek_body_ensures rindex sz (bus_type_get_alignment_pos ha) hb)
      rintro q m₁ ⟨rfl, -, hq, hle⟩
      have hpos := bus_type_get_size_pos hsz
      have hr : m₁ = m₁ ∧ rindex < q.stop ∧ q.stop ≤ body.length := ⟨rfl, by omega, hle⟩
      apply ensures_get_bind
      split
      · exact ensures_pure hr
      · split
        · split
          · exact ensures_fail rfl
          · exact ensures_pure hr
        · exact ensures_pure hr

end values

/-! ## Section 3: Each function -/

@[simp] theorem update_last_rindex (m : SdBusMessage)
    (f : BusMessageContainer → BusMessageContainer) : (m.update_last f).rindex = m.rindex := by
  unfold update_last
  split <;> rfl

@[simp] theorem update_last_depth (m : SdBusMessage)
    (f : BusMessageContainer → BusMessageContainer) :
    (m.update_last f).containers.length = m.containers.length := by
  unfold update_last
  split
  · rfl
  · next h => simp [h]

@[simp] theorem set_index_rindex (m : SdBusMessage) (index : Nat) :
    (set_index index m).rindex = m.rindex := by
  unfold set_index
  split
  · simp
  · rfl

@[simp] theorem set_index_depth (m : SdBusMessage) (index : Nat) :
    (set_index index m).containers.length = m.containers.length := by
  unfold set_index
  split
  · simp
  · rfl

variable {m : SdBusMessage}

theorem end_of_array_enclosing (h : end_of_array m = true) :
    m.last_container.enclosing = SD_BUS_TYPE_ARRAY := by
  unfold end_of_array at h
  simp only [Bool.and_eq_true, beq_iff_eq] at h
  exact h.1

section calls
variable {body : List UInt8} {m : SdBusMessage}

variable {E : SdBusMessage → Prop}

variable {α : Type} {Q : α → SdBusMessage → Prop}

/-- The check for the end of an array. -/
theorem ensures_end_of_array_bind {f : Bool → Call SdBusMessage α} (h : Reading body m)
    (hf : (f (end_of_array m)).Ensures m Q E) :
    (message_end_of_array m.rindex >>= f).Ensures m Q E := by
  unfold Call.Ensures at hf ⊢
  rw [bind_run, h.message_end_of_array_run]
  exact hf

/-- Moving on in the body and in the signature. -/
theorem ensures_moves_on_bind {f : PUnit → Call SdBusMessage α} (h : Reading body m) {rindex : Nat}
    (n : Nat) (hle : m.rindex ≤ rindex) (hb : rindex ≤ body.length)
    (hf : ∀ m', Reading body m' → m'.containers.length = m.containers.length → m'.rindex = rindex → (f ⟨⟩).Ensures m' Q E) :
    (set_rindex rindex >>= fun _ => skip_index n >>= f).Ensures m Q E := by
  apply hf
  · exact (h.set_rindex hle hb).set_index _
  · rw [set_index_depth]
  · rw [set_index_rindex]

theorem sd_bus_message_read_basic_ensures (type : UInt8) (h : Reading body m) :
    (sd_bus_message_read_basic type).Ensures m
      (fun r m' => Reading body m' ∧ m'.containers.length = m.containers.length ∧
        (r = none → m'.rindex = m.rindex ∧ m.last_container.enclosing = SD_BUS_TYPE_ARRAY) ∧
        (∀ q v, r = some (q, v) → m.rindex < m'.rindex ∧ q.stop ≤ body.length)) (Reading body) := by
  refine ensures_check_bind h fun _ => ensures_check_bind h fun ht => ?_
  refine ensures_check_bind h fun _ => ensures_end_of_array_bind h ?_
  split
  · next he =>
    refine ensures_pure ⟨h, rfl, fun _ => ⟨rfl, end_of_array_enclosing he⟩, ?_⟩
    intro q v hr
    cases hr
  · refine ensures_check_bind h fun _ => ?_
    refine ensures_bind (ensures_mono (read_value_ensures type m.rindex ht h.body_eq)
      (fun _ _ hr => hr) (fun _ hm => hm ▸ h)) ?_
    rintro ⟨q, v⟩ m₁ ⟨rfl, hq, hle⟩
    apply ensures_moves_on_bind h 1 (le_of_lt hq) hle
    intro m₂ h2 hd hi
    refine ensures_pure ⟨h2, hd, fun hr => (by cases hr), ?_⟩
    intro q' v' hr
    cases hr
    exact ⟨hi ▸ hq, hle⟩

/-- What is peeked at: a range is a part of the body, the signature of a
    variant is short, and what has no contents is a basic type. -/
structure Peeked (body : List UInt8) (m : SdBusMessage) (want : Bool) (p : PeekedType) :
    Prop where
  range : ∀ q, p.range = some q → q.stop ≤ body.length
  variant : want = true → p.type = SD_BUS_TYPE_VARIANT →
    ∃ contents, p.contents = some contents ∧ contents.length ≤ 255
  basic : want = true → p.contents = none →
    m.last_container.current = some p.type ∧ bus_type_is_basic p.type = true

variable {type : UInt8}

variable (body) in
/-- Types whose contents are copied. -/
theorem peeked_signature_ensures (env : ReadEnv) (contents : List UInt8) (want : Bool)
    (ht : type ≠ SD_BUS_TYPE_VARIANT) : (peeked_signature env type contents).Ensures m
      (fun r m' => m' = m ∧ ∃ p, r = some p ∧ Peeked body m want p) (· = m) := by
  refine ensures_check_bind rfl fun _ => ensures_pure ⟨rfl, _, rfl, ?_⟩
  exact ⟨fun q hq => (by cases hq), fun _ hv => absurd hv ht, fun _ hc => (by cases hc)⟩

theorem sd_bus_message_peek_type_ensures (env : ReadEnv) (want : Bool) (h : Reading body m) :
    (sd_bus_message_peek_type env want).Ensures m (fun r m' => m' = m ∧
        ((r = none ∧ (message_end_of_signature m = true ∨ end_of_array m = true)) ∨
          (end_of_array m = false ∧ ∃ p, r = some p ∧ Peeked body m want p))) (· = m) := by
  refine ensures_check_bind rfl fun _ => ?_
  split
  · next hs => exact ensures_pure ⟨rfl, .inl ⟨rfl, .inl hs⟩⟩
  next hs =>
  apply ensures_end_of_array_bind h
  split
  · next he => exact ensures_pure ⟨rfl, .inl ⟨rfl, .inr he⟩⟩
  next he =>
  have hf : end_of_array m = false := by simpa using he
  -- without contents the type is all there is
  have htype : ∀ t, (want = true → m.last_container.current = some t ∧
      bus_type_is_basic t = true) →
      (pure (some ⟨t, none, none⟩) : Call SdBusMessage (Option PeekedType)).Ensures m
        (fun r m' => m' = m ∧
          ((r = none ∧ (message_end_of_signature m = true ∨ end_of_array m = true)) ∨
            (end_of_array m = false ∧ ∃ p, r = some p ∧ Peeked body m want p)))
        (· = m) := by
    intro t ht
    refine ensures_pure ⟨rfl, .inr ⟨hf, _, rfl, fun q hq => (by cases hq), ?_, ?_⟩⟩
    · intro hw hv
      have := (ht hw).2
      rw [show t = SD_BUS_TYPE_VARIANT from hv] at this
      cases this
    · exact fun hw _ => ht hw
  have hcopy : ∀ env t contents, t ≠ SD_BUS_TYPE_VARIANT →
      (peeked_signature env t contents).Ensures m
        (fun r m' => m' = m ∧
          ((r = none ∧ (message_end_of_signature m = true ∨ end_of_array m = true)) ∨
            (end_of_array m = false ∧ ∃ p, r = some p ∧ Peeked body m want p)))
        (· = m) := by
    intro env t contents ht
    refine ensures_mono (peeked_signature_ensures body env contents want ht) ?_
      (fun _ hm => hm)
    rintro r m' ⟨rfl, hp⟩
    exact ⟨rfl, .inr ⟨hf, hp⟩⟩
  split
  · next hd =>
    -- not reached: the signature is not at its end
    have hc : m.last_container.current = none := by
      unfold BusMessageContainer.current
      rw [← head?_drop, hd]
      rfl
    exact absurd (by simp [message_end_of_signature, hc]) hs
  next t s hd =>
  have hc : m.last_container.current = some t := by
    unfold BusMessageContainer.current
    rw [← head?_drop, hd]
    rfl
  split
  · next hb => exact htype t fun _ => ⟨hc, hb⟩
  split
  · split
    · next hw => exact htype _ fun hw' => by simp [hw'] at hw
    · split
      · exact ensures_fail rfl
      · next l hl =>
        have := (signature_element_length_bounds hl).1
        rw [if_neg (by omega)]
        exact hcopy _ _ _ (by decide)
  split
  · next hm =>
    have hv : (if t = SD_BUS_TYPE_STRUCT_BEGIN then SD_BUS_TYPE_STRUCT
        else SD_BUS_TYPE_DICT_ENTRY) ≠ SD_BUS_TYPE_VARIANT := by
      split <;> decide
    dsimp only
    split
    · next hw => exact htype _ fun hw' => by simp [hw'] at hw
    · split
      · exact ensures_fail rfl
      · next l hl =>
        have := signature_element_length_members (by simpa using hm) hl
        rw [if_neg (by omega)]
        exact hcopy _ _ _ hv
  split
  · split
    · next hw => exact htype _ fun hw' => by simp [hw'] at hw
    · apply ensures_bind (peek_signature_ensures m.rindex h.body_eq)
      rintro q m₁ ⟨rfl, -, hle, hsize⟩
      refine ensures_get_bind (ensures_pure ⟨rfl, .inr ⟨hf, _, rfl, ?_⟩⟩)
      refine ⟨fun q' hq => (by cases hq; exact hle), fun _ _ => ⟨_, rfl, ?_⟩, ?_⟩
      · have : (m₁.bytes q).length ≤ q.size := by
          simp [bytes, slice]
        rw [length_dropLast]
        omega
      · intro _ hn
        cases hn
  · exact ensures_fail rfl

/-- What the functions that enter a container leave behind: they move on in
    the body, and do not touch the stack. -/
def Moved (body : List UInt8) (m m' : SdBusMessage) : Prop :=
  Reading body m' ∧ m'.containers.length = m.containers.length ∧ m.rindex ≤ m'.rindex

theorem bus_message_enter_array_ensures (contents : List UInt8) (h : Reading body m) :
    (bus_message_enter_array contents).Ensures m
      (fun a m' => Moved body m m' ∧ m.rindex < m'.rindex ∧ a + 4 ≤ body.length)
      (Reading body) := by
  refine ensures_check_bind h fun _ => ensures_check_bind h fun _ => ?_
  refine ensures_bind (ensures_mono (peek_body_ensures m.rindex 4 (by decide) h.body_eq)
    (fun _ _ hr => hr) (fun _ hm => hm ▸ h)) ?_
  rintro q m₁ ⟨rfl, hsize, hq, hle⟩
  refine ensures_check_bind h fun _ => ?_
  split
  · exact ensures_fail h
  · next alignment ha =>
    refine ensures_bind (ensures_mono
      (peek_body_ensures q.stop 0 (bus_type_get_alignment_pos ha) h.body_eq)
      (fun _ _ hr => hr) (fun _ hm => hm ▸ h)) ?_
    rintro e m₂ ⟨rfl, -, he, hle'⟩
    apply ensures_moves_on_bind h _ (by omega) hle'
    intro m3 h3 hd hi
    refine ensures_pure ⟨⟨h3, hd, by omega⟩, by omega, ?_⟩
    have : q.stop = q.offset + q.size := rfl
    omega

theorem bus_message_enter_variant_ensures (contents : List UInt8) (h : Reading body m) :
    (bus_message_enter_variant contents).Ensures m
      (fun _ m' => Moved body m m' ∧ contents ≠ []) (Reading body) := by
  refine ensures_check_bind h fun hs => ensures_check_bind h fun _ => ?_
  refine ensures_check_bind h fun _ => ?_
  refine ensures_bind (ensures_mono (peek_signature_ensures m.rindex h.body_eq)
    (fun _ _ hr => hr) (fun _ hm => hm ▸ h)) ?_
  rintro q m₁ ⟨rfl, hq, hle, -⟩
  refine ensures_check_bind h fun _ => ?_
  refine ⟨⟨(h.set_rindex (le_of_lt hq) hle).set_index _, ?_, ?_⟩, ?_⟩
  · rw [set_index_depth]
  · rw [set_index_rindex]
    exact le_of_lt hq
  · rintro rfl
    simp [signature_is_single, signature_fuel, signature_element_length_internal] at hs

theorem enter_members_ensures (first : UInt8) (contents : List UInt8) (last : UInt8)
    (h : Reading body m) :
    (enter_members first contents last).Ensures m (fun _ m' => Moved body m m') (Reading body) := by
  refine ensures_check_bind h fun _ => ?_
  refine ensures_bind (ensures_mono (peek_body_ensures m.rindex 0 (by decide) h.body_eq)
    (fun _ _ hr => hr) (fun _ hm => hm ▸ h)) ?_
  rintro q m₁ ⟨rfl, -, hq, hle⟩
  refine ⟨(h.set_rindex (by omega) hle).set_index _, ?_, ?_⟩
  · rw [set_index_depth]
  · rw [set_index_rindex]
    exact (by omega : m₁.rindex ≤ q.stop)

/-- Entering a container. An array leaves the place of its length, the
    contents of a variant are not empty, and only for a dictionary entry, in an
    array, there may be nothing left to enter. -/
theorem bus_message_enter_ensures (type : UInt8) (contents : List UInt8) (h : Reading body m) :
    (bus_message_enter type contents).Ensures m (fun r m' => Moved body m m' ∧
        (r = none → m.last_container.enclosing = SD_BUS_TYPE_ARRAY) ∧
        ∀ array_size, r = some array_size → (type = SD_BUS_TYPE_ARRAY →
            m.rindex < m'.rindex ∧ ∃ a, array_size = some a ∧ a + 4 ≤ body.length) ∧
          (type = SD_BUS_TYPE_VARIANT → contents ≠ [])) (Reading body) := by
  unfold bus_message_enter
  split
  · next ht =>
    apply ensures_bind (bus_message_enter_array_ensures contents h)
    rintro a m' ⟨hm, hi, ha⟩
    refine ensures_pure ⟨hm, fun hr => (by cases hr), ?_⟩
    rintro array_size hr
    cases hr
    refine ⟨fun _ => ⟨hi, a, rfl, ha⟩, fun hv => ?_⟩
    rw [ht] at hv
    cases hv
  split
  · apply ensures_bind (bus_message_enter_variant_ensures contents h)
    rintro - m' ⟨hm, hc⟩
    refine ensures_pure ⟨hm, fun hr => (by cases hr), ?_⟩
    exact fun _ _ => ⟨fun ha => by contradiction, fun _ => hc⟩
  split
  · next hs =>
    apply ensures_bind (ensures_check_bind h fun _ =>
      enter_members_ensures SD_BUS_TYPE_STRUCT_BEGIN contents SD_BUS_TYPE_STRUCT_END h)
    intro _ m' hm
    refine ensures_pure ⟨hm, fun hr => (by cases hr), ?_⟩
    exact fun _ _ => ⟨fun ha => by contradiction, fun hv => by contradiction⟩
  split
  · have hdict : (bus_message_enter_dict_entry contents).Ensures m
        (fun r m' => Moved body m m' ∧
          (r = false → m.last_container.enclosing = SD_BUS_TYPE_ARRAY)) (Reading body) := by
      refine ensures_check_bind h fun _ => ensures_check_bind h fun he => ?_
      split
      · exact ensures_pure ⟨⟨h, rfl, le_refl _⟩, fun _ => by simpa using he⟩
      · apply ensures_bind (enter_members_ensures _ contents _ h)
        exact fun _ m' hm => ensures_pure ⟨hm, fun hr => (by cases hr)⟩
    apply ensures_bind hdict
    rintro r m' ⟨hm, hr⟩
    refine ensures_pure ⟨hm, fun hn => hr ?_, ?_⟩
    · cases r with
      | true => cases hn
      | false => rfl
    · exact fun _ _ => ⟨fun ha => by contradiction, fun hv => by contradiction⟩
  · exact ensures_fail h

/-- A container is entered: it is the last one, and is at its beginning. -/
structure Pushed (body : List UInt8) (m : SdBusMessage) (type : UInt8) (contents : List UInt8)
    (m' : SdBusMessage) : Prop where
  reading : Reading body m'
  depth : m'.containers.length = m.containers.length + 1
  depth_le : m.containers.length < BUS_CONTAINER_DEPTH
  rindex_le : m.rindex ≤ m'.rindex
  enclosing : m'.last_container.enclosing = type
  signature : m'.last_container.signature = contents
  index : m'.last_container.index = 0
  array : type = SD_BUS_TYPE_ARRAY → m.rindex < m'.rindex
  variant : type = SD_BUS_TYPE_VARIANT → contents ≠ []

theorem enter_container_ensures (env : ReadEnv) (type : UInt8) (contents : Option (List UInt8))
    (h : Reading body m)
    (hc : contents = none → m.containers.length < BUS_CONTAINER_DEPTH →
      message_end_of_signature m = true ∨ end_of_array m = true) :
    (enter_container env type contents).Ensures m
      (fun r m' =>
        (r = false → Moved body m m' ∧ m.last_container.enclosing = SD_BUS_TYPE_ARRAY) ∧
        (r = true → ∃ s, contents = some s ∧ Pushed body m type s m'))
      (Reading body) := by
  refine ensures_check_bind h fun hd => ensures_check_bind h fun _ => ?_
  refine ensures_check_bind h fun hs => ensures_end_of_array_bind h ?_
  have hd' : m.containers.length < BUS_CONTAINER_DEPTH := by simpa using hd
  split
  · next he =>
    refine ensures_pure ⟨fun _ => ⟨⟨h, rfl, le_refl _⟩, end_of_array_enclosing he⟩, ?_⟩
    intro hr
    cases hr
  next he =>
  cases contents with
  | none =>
    rcases hc rfl hd' with hs' | he'
    · simp [hs'] at hs
    · exact absurd he' he
  | some contents =>
    refine ensures_check_bind h fun _ => ?_
    have h1 : Reading body (m.update_last fun c => { c with saved_index := c.index }) :=
      h.update_last fun c => ⟨c.index, c.index, rfl⟩
    have hsame : (m.update_last fun c => { c with saved_index := c.index }).last_container.enclosing
        = m.last_container.enclosing := by
      unfold update_last last_container
      split <;> simp_all
    apply ensures_bind (bus_message_enter_ensures type contents h1)
    rintro r m₂ ⟨⟨h2, hdepth, hi⟩, hnone, hsome⟩
    rw [update_last_depth] at hdepth
    rw [update_last_rindex] at hi
    cases r with
    | none =>
      refine ensures_pure ⟨fun _ => ⟨⟨h2, hdepth, hi⟩, ?_⟩, fun hr => (by cases hr)⟩
      rw [← hsame]
      exact hnone rfl
    | some array_size =>
      obtain ⟨harray, hvariant⟩ := hsome _ rfl
      apply ensures_modify_bind
      refine ensures_pure ⟨fun hr => (by cases hr), fun _ => ⟨contents, rfl, ?_⟩⟩
      refine ⟨h2.push (by omega) rfl ⟨rfl, fun ht => (harray ht).2⟩, ?_, hd', hi, rfl, rfl, rfl,
        fun ht => ?_, hvariant⟩
      · show m₂.containers.length + 1 = _
        rw [hdepth]
      · have := (harray ht).1
        rw [update_last_rindex] at this
        exact this

/-- No container is named, and what comes next is no container but a basic
    value: its contents are NULL. -/
def enters_basic (m : SdBusMessage) (type : UInt8) (contents : Option (List UInt8)) : Bool :=
  contents.isNone && m.containers.length < BUS_CONTAINER_DEPTH && !end_of_array m &&
    m.last_container.current.any fun t => bus_type_is_basic t && (type == 0 || type == t)

theorem anonymous_container_ensures (env : ReadEnv) (type : UInt8) (h : Reading body m)
    (hb : enters_basic m type none = false) : (anonymous_container env type).Ensures m
      (fun r m' => m' = m ∧ (r.2 = none → m.containers.length < BUS_CONTAINER_DEPTH →
        message_end_of_signature m = true ∨ end_of_array m = true)) (Reading body) := by
  refine ensures_bind (ensures_mono (sd_bus_message_peek_type_ensures env true h)
    (fun _ _ hr => hr) (fun _ hm => hm ▸ h)) ?_
  rintro r m₁ ⟨rfl, hr⟩
  rcases hr with ⟨rfl, he⟩ | ⟨ha, p, rfl, hp⟩
  · refine ensures_check_bind h fun _ => ensures_pure ⟨rfl, fun _ _ => he⟩
  · refine ensures_check_bind h fun ht => ensures_pure ⟨rfl, fun hn hd => ?_⟩
    obtain ⟨hc, hbasic⟩ := hp.basic rfl hn
    have ht' : type = 0 ∨ type = p.type := by simpa using ht
    rcases ht' with ht' | ht' <;> simp [enters_basic, hd, ha, hc, hbasic, ht'] at hb

theorem sd_bus_message_enter_container_ensures (env : ReadEnv) (type : UInt8)
    (contents : Option (List UInt8)) (h : Reading body m)
    (hb : enters_basic m type contents = false) :
    (sd_bus_message_enter_container env type contents).Ensures m (fun _ m' => Reading body m')
      (Reading body) := by
  refine ensures_get_bind (ensures_check_bind h fun _ => ?_)
  refine ensures_check_bind h fun hn => ?_
  -- whether the container was entered does not matter here
  have hend : ∀ (t : UInt8) c, (c = none → m.containers.length < BUS_CONTAINER_DEPTH →
      message_end_of_signature m = true ∨ end_of_array m = true) →
      (enter_container env t c).Ensures m (fun _ m' => Reading body m') (Reading body) := by
    intro t c hc
    refine ensures_mono (enter_container_ensures env t c h hc) ?_ (fun _ hm => hm)
    rintro r m' ⟨hf, ht⟩
    cases r with
    | false => exact (hf rfl).1.1
    | true =>
      obtain ⟨s, -, hp⟩ := ht rfl
      exact hp.reading
  split
  · next ha =>
    have hc : contents = none := by
      cases contents with
      | none => rfl
      | some s => simp_all
    subst hc
    apply ensures_bind (anonymous_container_ensures (env.sub 0) type h hb)
    rintro ⟨t, c⟩ m₁ ⟨rfl, hc⟩
    exact hend t c hc
  · next ha =>
    apply hend
    rintro rfl
    simp at ha

/-- A container that is named. -/
theorem enter_named_ensures (env : ReadEnv) (contents : List UInt8) (h : Reading body m)
    (ht : type ≠ 0) :
    (sd_bus_message_enter_container env type (some contents)).Ensures m
      (fun r m' =>
        (r = false → Moved body m m' ∧ m.last_container.enclosing = SD_BUS_TYPE_ARRAY) ∧
        (r = true → Pushed body m type contents m'))
      (Reading body) := by
  refine ensures_get_bind (ensures_check_bind h fun _ => ?_)
  refine ensures_check_bind h fun _ => ?_
  rw [if_neg (by simp [ht])]
  refine ensures_mono (enter_container_ensures env type (some contents) h ?_) ?_
    (fun _ hm => hm)
  · intro hc
    cases hc
  · rintro r m' ⟨hf, hp⟩
    refine ⟨hf, fun hr => ?_⟩
    obtain ⟨s, hs, hp⟩ := hp hr
    cases hs
    exact hp

theorem sd_bus_message_exit_container_ensures (h : Reading body m) :
    sd_bus_message_exit_container.Ensures m
      (fun _ m' => Reading body m' ∧ m'.containers.length + 1 = m.containers.length ∧
        m'.rindex = m.rindex) (Reading body) := by
  refine ensures_get_bind (ensures_check_bind h fun _ => ?_)
  cases hc : m.containers with
  | nil => exact ensures_fail h
  | cons c rest =>
    have hpop : (modify fun m : SdBusMessage => { m with containers := rest }).Ensures m
        (fun _ m' => Reading body m' ∧ m'.containers.length + 1 = (c :: rest).length ∧
          m'.rindex = m.rindex) (Reading body) :=
      ensures_modify ⟨h.pop hc, rfl, rfl⟩
    dsimp only
    split
    · exact ensures_check_bind h fun _ => hpop
    · next ha =>
      obtain ⟨a, hs, -⟩ := (h.entered c (hc ▸ mem_cons_self)).array (by simpa using ha)
      rw [hs]
      exact ensures_check_bind h fun _ => hpop

theorem sd_bus_message_at_end_ensures (complete : Bool) (h : Reading body m) :
    (sd_bus_message_at_end complete).Ensures m (fun _ m' => m' = m) (· = m) := by
  refine ensures_get_bind (ensures_check_bind rfl fun _ => ?_)
  split
  · exact ensures_pure rfl
  split
  · exact ensures_pure rfl
  · unfold Call.Ensures
    rw [h.message_end_of_array_run]

theorem sd_bus_message_rewind_ensures (complete : Bool) (h : Reading body m) :
    (sd_bus_message_rewind complete).Ensures m (fun _ m' => Reading body m') (Reading body) := by
  refine ensures_get_bind (ensures_check_bind h fun _ => ?_)
  split
  · apply ensures_modify_bind
    exact ⟨h.sealed, h.body_eq, zero_le _, zero_le _, .singleton _,
      fun c hc => (by cases hc), h.root, h.root_begin⟩
  · apply ensures_modify_bind
    have hb : m.last_container.begin =
        (m.update_last fun c => { c with index := 0 }).last_container.begin := by
      unfold update_last last_container
      split <;> simp_all
    rw [hb]
    exact (h.update_last fun c => ⟨0, c.saved_index, rfl⟩).to_begin

end calls

/-! ## Section 4: Skipping -/

section skip
variable {body : List UInt8} {M : Nat}

/-- What skipping leaves behind: the stack as it was, and the read index
    further on if something was skipped. Nothing is skipped only if there are no
    types, or nothing is left. -/
def Skipped (body : List UInt8) (types : List UInt8) (m : SdBusMessage) (r : Bool)
    (m' : SdBusMessage) : Prop :=
  Moved body m m' ∧ (r = true → m.rindex < m'.rindex) ∧
    (r = false → types = [] ∨ m.last_container.enclosing = SD_BUS_TYPE_ARRAY ∨
      message_end_of_signature m = true)

/-- What skipping needs for each container that can still be entered: `M`
    bounds the length of all signatures. -/
def level_fuel (M : Nat) (body : List UInt8) : Nat := M + body.length + 3

/-- What skipping these types needs. -/
def types_fuel (M : Nat) (body : List UInt8) (m : SdBusMessage) (types : List UInt8) : Nat :=
  types.length + (BUS_CONTAINER_DEPTH - m.containers.length) * level_fuel M body + 1

/-- What the elements of an array need. -/
def elements_fuel (M : Nat) (body : List UInt8) (m : SdBusMessage) (s : List UInt8) : Nat :=
  types_fuel M body m s + (body.length - m.rindex) + 1

variable {fuel : Nat} {m : SdBusMessage} {types : List UInt8}

variable {m' : SdBusMessage} {s : List UInt8}

/-- One level is enough for what is in a container. -/
theorem elements_fuel_le (hd : m'.containers.length = m.containers.length + 1)
    (hlt : m.containers.length < BUS_CONTAINER_DEPTH) (hs : s.length ≤ M)
    (h : types_fuel M body m types ≤ fuel + 1) : elements_fuel M body m' s ≤ fuel := by
  unfold elements_fuel types_fuel at *
  obtain ⟨k, hk⟩ : ∃ k, BUS_CONTAINER_DEPTH - m.containers.length = k + 1 :=
    ⟨BUS_CONTAINER_DEPTH - m.containers.length - 1, by omega⟩
  have hk' : BUS_CONTAINER_DEPTH - m'.containers.length = k := by omega
  rw [hk, succ_mul] at h
  rw [hk']
  unfold level_fuel at *
  omega

variable {rest : List UInt8}

/-- The rest of the types needs less. -/
theorem rest_fuel_le (hd : m'.containers.length = m.containers.length)
    (hl : rest.length < types.length) (h : types_fuel M body m types ≤ fuel + 1) :
    types_fuel M body m' rest ≤ fuel := by
  unfold types_fuel at *
  rw [hd]
  omega

variable {m₁ : SdBusMessage}

variable {env : ReadEnv}

/-- After what was entered, or read, there is the rest of the types. -/
theorem skip_rest_ensures
    (ih : (skip_types fuel env rest).Ensures m₁ (Skipped body rest m₁) (Reading body))
    (hd : m₁.containers.length = m.containers.length) (hi : m.rindex < m₁.rindex) :
    (skip_types fuel env rest >>= fun _ => (pure true : Call SdBusMessage Bool)).Ensures m₁
      (Skipped body types m) (Reading body) := by
  apply ensures_bind ih
  rintro r m₂ ⟨⟨h2, hd2, hi2⟩, -, -⟩
  exact ⟨⟨h2, by omega, by omega⟩, fun _ => by omega, fun hr => (by cases hr)⟩

variable {m₂ : SdBusMessage}

/-- After the members of a container, it is left, and there is the rest of the
    types. -/
theorem skip_leave_ensures
    (ih : ∀ m₃, Reading body m₃ → m₃.containers.length = m.containers.length → (skip_types fuel env rest).Ensures m₃ (Skipped body rest m₃) (Reading body))
    (hd : m₁.containers.length = m.containers.length + 1) (hm : Moved body m₁ m₂)
    (hi : m.rindex < m₂.rindex) :
    (sd_bus_message_exit_container >>= fun _ => skip_types fuel env rest >>= fun _ =>
      (pure true : Call SdBusMessage Bool)).Ensures m₂ (Skipped body types m) (Reading body) := by
  obtain ⟨h2, hd2, -⟩ := hm
  apply ensures_bind (sd_bus_message_exit_container_ensures h2)
  rintro - m₃ ⟨h3, hd3, hi3⟩
  have hd' : m₃.containers.length = m.containers.length := by omega
  exact skip_rest_ensures (ih m₃ h3 hd') hd' (by omega)

/-- What is skipped right after a container was entered is not nothing. -/
theorem Skipped.of_pushed {type : UInt8} {r : Bool} (hp : Pushed body m type s m₁) (hs : s ≠ [])
    (ht : type ≠ SD_BUS_TYPE_ARRAY) (h : Skipped body s m₁ r m₂) : r = true := by
  cases r with
  | true => rfl
  | false =>
    rcases h.2.2 rfl with h | h | h
    · exact absurd h hs
    · rw [hp.enclosing] at h
      exact absurd h ht
    · exfalso
      unfold message_end_of_signature BusMessageContainer.current at h
      rw [hp.signature, hp.index] at h
      cases s with
      | nil => exact hs rfl
      | cons c s => cases h

/-- Induction over the fuel: skipping types, and skipping elements, that have
    enough of it. Elements are skipped until one does not move the read
    index. -/
theorem skip_ensures (hM : 255 ≤ M) (fuel : Nat) :
    (∀ env types m, Reading body m → types.length ≤ M → types_fuel M body m types ≤ fuel →
      (skip_types fuel env types).Ensures m (Skipped body types m) (Reading body)) ∧
    (∀ env s m, Reading body m → s.length ≤ M → elements_fuel M body m s ≤ fuel →
      (skip_elements fuel env s).Ensures m (fun _ m' => Moved body m m') (Reading body)) := by
  induction fuel with
  | zero =>
    refine ⟨?_, ?_⟩
    · intro env types m _ _ hf
      unfold types_fuel at hf
      omega
    · intro env s m _ _ hf
      unfold elements_fuel at hf
      omega
  | succ fuel ih =>
    obtain ⟨ih_types, ih_elements⟩ := ih
    refine ⟨?_, ?_⟩
    · intro env types m h hM' hf
      match types with
      | [] => exact ensures_pure ⟨⟨h, rfl, le_refl _⟩, fun hr => (by cases hr), fun _ => .inl rfl⟩
      | t :: types =>
        rw [length_cons] at hM'
        rw [skip_types]
        split
        · -- a basic value
          apply ensures_bind (sd_bus_message_read_basic_ensures t h)
          rintro r m₁ ⟨h1, hd1, hnone, hsome⟩
          match r with
          | none =>
            obtain ⟨hi, he⟩ := hnone rfl
            exact ensures_pure
              ⟨⟨h1, hd1, hi ▸ le_refl _⟩, fun hr => (by cases hr), fun _ => .inr (.inl he)⟩
          | some (q, v) =>
            have hi := (hsome q v rfl).1
            refine skip_rest_ensures (ih_types _ types m₁ h1 (by omega) ?_) hd1 hi
            exact rest_fuel_le hd1 (by simp) hf
        split
        · -- an array
          split
          · exact ensures_fail h
          · next k hk =>
            apply ensures_bind (enter_named_ensures _ (types.take k) h (by decide))
            rintro r m₁ ⟨hfalse, htrue⟩
            cases r with
            | false =>
              obtain ⟨hm, he⟩ := hfalse rfl
              exact ensures_pure ⟨hm, fun hr => (by cases hr), fun _ => .inr (.inl he)⟩
            | true =>
              have hp := htrue rfl
              have hs : (types.take k).length ≤ types.length := length_take_le' ..
              have hf1 := elements_fuel_le hp.depth hp.depth_le
                (by omega : (types.take k).length ≤ M) hf
              apply ensures_bind
                (ih_elements _ (types.take k) m₁ hp.reading (by omega) hf1)
              intro _ m₂ hm
              refine skip_leave_ensures (fun m3 h3 hd3 => ?_) hp.depth hm
                (lt_of_lt_of_le (hp.array rfl) hm.2.2)
              have hl : (types.drop k).length ≤ types.length := by simp
              exact ih_types _ (types.drop k) m3 h3 (by omega)
                (rest_fuel_le hd3 (by rw [length_cons]; omega) hf)
        split
        · -- a variant
          refine ensures_bind (ensures_mono
            (sd_bus_message_peek_type_ensures _ true h) (fun _ _ hr => hr) (fun _ hm => hm ▸ h)) ?_
          rintro r m₁ ⟨rfl, hr⟩
          rcases hr with ⟨rfl, he⟩ | ⟨-, p, rfl, hp⟩
          · refine ensures_pure ⟨⟨h, rfl, le_refl _⟩, fun hr => (by cases hr), fun _ => .inr ?_⟩
            exact he.symm.imp end_of_array_enclosing id
          · refine ensures_check_bind h fun ht => ?_
            obtain ⟨contents, hc, hlen⟩ := hp.variant rfl (by simpa using ht)
            rw [hc]
            apply ensures_bind (enter_named_ensures _ contents h (by decide))
            rintro r m₂ ⟨hfalse, htrue⟩
            cases r with
            | false =>
              obtain ⟨hm, he⟩ := hfalse rfl
              exact ensures_pure ⟨hm, fun hr => (by cases hr), fun _ => .inr (.inl he)⟩
            | true =>
              have hp := htrue rfl
              have hf1 : types_fuel M body m₂ contents ≤ fuel := by
                have := elements_fuel_le hp.depth hp.depth_le (by omega : contents.length ≤ M) hf
                unfold elements_fuel at this
                omega
              apply ensures_bind (ih_types _ contents m₂ hp.reading (by omega) hf1)
              intro r m3 hs
              -- the assertion: something was skipped
              have hr := hs.of_pushed hp (hp.variant rfl) (by decide)
              subst hr
              refine skip_leave_ensures (fun m4 h4 hd4 => ?_) hp.depth hs.1
                (lt_of_le_of_lt hp.rindex_le (hs.2.1 rfl))
              exact ih_types _ types m4 h4 (by omega) (rest_fuel_le hd4 (by simp) hf)
        split
        · -- a struct or a dictionary entry
          next hb =>
          split
          · exact ensures_fail h
          · next k hk =>
            refine ensures_check_bind h fun _ => ?_
            have hkb := signature_element_length_bounds hk
            have hk3 := signature_element_length_members (by simpa using hb) hk
            rw [length_cons] at hkb
            have htype : (if t = SD_BUS_TYPE_STRUCT_BEGIN then SD_BUS_TYPE_STRUCT
                else SD_BUS_TYPE_DICT_ENTRY) ≠ 0 ∧
                (if t = SD_BUS_TYPE_STRUCT_BEGIN then SD_BUS_TYPE_STRUCT
                else SD_BUS_TYPE_DICT_ENTRY) ≠ SD_BUS_TYPE_ARRAY := by
              split <;> decide
            apply ensures_bind (enter_named_ensures _ (types.take (k - 2)) h htype.1)
            rintro r m₁ ⟨hfalse, htrue⟩
            cases r with
            | false =>
              obtain ⟨hm, he⟩ := hfalse rfl
              exact ensures_pure ⟨hm, fun hr => (by cases hr), fun _ => .inr (.inl he)⟩
            | true =>
              have hp := htrue rfl
              have hs : (types.take (k - 2)).length = k - 2 := by
                rw [length_take]
                omega
              have hf1 : types_fuel M body m₁ (types.take (k - 2)) ≤ fuel := by
                have := elements_fuel_le hp.depth hp.depth_le
                  (by omega : (types.take (k - 2)).length ≤ M) hf
                unfold elements_fuel at this
                omega
              apply ensures_bind (ih_types _ (types.take (k - 2)) m₁ hp.reading (by omega) hf1)
              intro r m₂ hm
              have hne : types.take (k - 2) ≠ [] := by
                intro hnil
                rw [hnil] at hs
                simp at hs
                omega
              have hr := hm.of_pushed hp hne htype.2
              subst hr
              refine skip_leave_ensures (fun m3 h3 hd3 => ?_) hp.depth hm.1
                (lt_of_le_of_lt hp.rindex_le (hm.2.1 rfl))
              have hl : ((t :: types).drop k).length = types.length + 1 - k := by simp
              exact ih_types _ ((t :: types).drop k) m3 h3 (by omega)
                (rest_fuel_le hd3 (by rw [length_cons]; omega) hf)
        · exact ensures_fail h
    · intro env s m h hM' hf
      have hf' : types_fuel M body m s ≤ fuel := by
        unfold elements_fuel at hf
        omega
      apply ensures_bind (ih_types _ s m h hM' hf')
      rintro r m₁ ⟨hm, htrue, -⟩
      cases r with
      | false => exact ensures_pure hm
      | true =>
        obtain ⟨h1, hd1, -⟩ := hm
        have hi := htrue rfl
        have hb := h1.rindex_le
        have hf1 : elements_fuel M body m₁ s ≤ fuel := by
          unfold elements_fuel types_fuel at hf ⊢
          rw [hd1]
          omega
        refine ensures_mono (ih_elements _ s m₁ h1 hM' hf1) ?_ (fun _ hm => hm)
        rintro - m₂ ⟨h2, hd2, hi2⟩
        exact ⟨h2, by omega, by omega⟩

/-- Skipping does not run out of fuel. -/
theorem sd_bus_message_skip_ensures (env : ReadEnv) (types : Option (List UInt8))
    (h : Reading body m) :
    (sd_bus_message_skip env types).Ensures m (fun _ m' => Reading body m') (Reading body) := by
  have hskip : ∀ s, (skip_types (skip_fuel m s) env s).Ensures m (fun _ m' => Reading body m')
      (Reading body) := by
    intro s
    have hf : types_fuel (max s.length 255) body m s ≤ skip_fuel m s := by
      unfold types_fuel skip_fuel level_fuel
      rw [h.body_eq, succ_mul]
      have := mul_le_mul_right (max s.length 255 + body.length + 3)
        (sub_le BUS_CONTAINER_DEPTH m.containers.length)
      omega
    exact ensures_mono
      ((skip_ensures (le_max_right _ _) _).1 env s m h (le_max_left _ _) hf)
      (fun _ _ hs => hs.1.1) (fun _ hm => hm)
  refine ensures_get_bind (ensures_check_bind h fun _ => ?_)
  cases types with
  | some types => exact hskip types
  | none =>
    refine ensures_check_bind h fun _ => ensures_end_of_array_bind h ?_
    split
    · exact ensures_pure h
    · dsimp only
      split
      · exact ensures_fail h
      · exact hskip _

end skip

/-! ## Section 5: Every sequence of calls -/

/-- The calls that read a message. -/
inductive ReadCall where
  | read_basic (type : UInt8)
  | enter_container (env : ReadEnv) (type : UInt8) (contents : Option (List UInt8))
  | exit_container
  | peek_type (env : ReadEnv) (want : Bool)
  | at_end (complete : Bool)
  | skip (env : ReadEnv) (types : Option (List UInt8))
  | rewind (complete : Bool)

/-- The call, and the parts of the body it hands out. -/
def ReadCall.run : ReadCall → Call SdBusMessage (List BodyRange)
  | read_basic type => do
    let r ← sd_bus_message_read_basic type
    pure (r.map (·.1)).toList
  | enter_container env type contents => do
    let _ ← sd_bus_message_enter_container env type contents
    pure []
  | exit_container => do
    sd_bus_message_exit_container
    pure []
  | peek_type env want => do
    let r ← sd_bus_message_peek_type env want
    pure (r.bind (·.range)).toList
  | at_end complete => do
    let _ ← sd_bus_message_at_end complete
    pure []
  | skip env types => do
    let _ ← sd_bus_message_skip env types
    pure []
  | rewind complete => do
    let _ ← sd_bus_message_rewind complete
    pure []

/-- The call names no container and finds a basic value. -/
def ReadCall.enters_basic (m : SdBusMessage) : ReadCall → Bool
  | enter_container _ type contents => Bus.enters_basic m type contents
  | _ => false

theorem ReadCall.run_ensures {body : List UInt8} (call : ReadCall) (h : Reading body m)
    (hb : call.enters_basic m = false) :
    call.run.Ensures m (fun r m' => Reading body m' ∧ ∀ q ∈ r, q.stop ≤ body.length)
      (Reading body) := by
  -- where nothing is handed out
  have hnil : ∀ m' : SdBusMessage, Reading body m' →
      (pure [] : Call SdBusMessage (List BodyRange)).Ensures m'
        (fun r m' => Reading body m' ∧ ∀ q ∈ r, q.stop ≤ body.length) (Reading body) :=
    fun m' h' => ensures_pure ⟨h', fun q hq => (by cases hq)⟩
  cases call with
  | read_basic type =>
    apply ensures_bind (sd_bus_message_read_basic_ensures type h)
    rintro r m' ⟨h', -, -, hsome⟩
    refine ensures_pure ⟨h', fun q hq => ?_⟩
    cases r with
    | none => cases hq
    | some qv =>
      obtain rfl := mem_singleton.mp hq
      exact (hsome qv.1 qv.2 rfl).2
  | enter_container env type contents =>
    exact ensures_bind (sd_bus_message_enter_container_ensures env type contents h hb)
      fun _ m' h' => hnil m' h'
  | exit_container =>
    exact ensures_bind (sd_bus_message_exit_container_ensures h)
      fun _ m' h' => hnil m' h'.1
  | peek_type env want =>
    refine ensures_bind (ensures_mono (sd_bus_message_peek_type_ensures env want h)
      (fun _ _ hr => hr) (fun _ hm => hm ▸ h)) ?_
    rintro r m' ⟨rfl, hr⟩
    refine ensures_pure ⟨h, fun q hq => ?_⟩
    rcases hr with ⟨rfl, -⟩ | ⟨-, p, rfl, hp⟩
    · cases hq
    · exact hp.range q (by simpa using hq)
  | at_end complete =>
    refine ensures_bind (ensures_mono (sd_bus_message_at_end_ensures complete h)
      (fun _ _ hr => hr) (fun _ hm => hm ▸ h)) ?_
    rintro _ m' rfl
    exact hnil m' h
  | skip env types =>
    exact ensures_bind (sd_bus_message_skip_ensures env types h) fun _ m' h' => hnil m' h'
  | rewind complete =>
    exact ensures_bind (sd_bus_message_rewind_ensures complete h) fun _ m' h' => hnil m' h'

/-- The messages that `bus_message_from_malloc` accepts, and the calls that
    read them. -/
def reader : System SdBusMessage ReadCall where
  init m := ∃ env buffer fds got_ctrunc,
    bus_message_from_malloc env buffer fds got_ctrunc = .ok m
  step m call m' := (call.run m).2 = m'

/-- A new message is about to be read. -/
theorem RawMessage.message_reading (raw : RawMessage) (p : ParsedFields) (fds : List Int) :
    Reading raw.body (raw.message p fds) :=
  ⟨rfl, rfl, zero_le _, zero_le _, .singleton _, fun c hc => (by cases hc), rfl, rfl⟩

/-- So is the message of an error, whose first string was read. -/
theorem bus_message_from_malloc_reading {env : ParseEnv} {buffer : List UInt8} {fds : List Int}
    {got_ctrunc : Bool} (h : bus_message_from_malloc env buffer fds got_ctrunc = .ok m) :
    Reading m.body m := by
  obtain ⟨raw, -, h⟩ := Outcome.bind_eq_ok.mp h
  obtain ⟨p, -, h⟩ := Outcome.bind_eq_ok.mp h
  have hr := raw.message_reading p fds
  dsimp only at h
  split_ifs at h
  · have hb := sd_bus_message_read_basic_ensures SD_BUS_TYPE_STRING hr
    unfold Call.Ensures at hb
    split at h
    · cases h
    · next o m' hne heq =>
      cases h
      rw [heq] at hb
      cases o with
      | ok a =>
        have := hb.1
        rwa [this.body_eq]
      | err e =>
        have : Reading raw.body m := hb
        rwa [this.body_eq]
      | abort => cases hb
  · cases h
    exact hr

/-- Along every run of calls that read a message, none of which takes a basic
    value for a container: the read index is inside the body, the stack is
    bounded, the end of each container is where it starts, which is not before
    the container around it and not behind the read index; and no next call
    fails an assertion, or does not end, or hands out anything that is not a
    part of the body. -/
theorem reading_safe {m : SdBusMessage}
    (hr : Reachable (reader.restrict fun m call => call.enters_basic m = false) m) :
    m.rindex ≤ m.body.length ∧ m.containers.length ≤ BUS_CONTAINER_DEPTH ∧
      (∀ c ∈ m.containers, c.end_ = c.begin) ∧
      (m.rindex :: m.containers.map (·.end_)).IsChain (· ≥ ·) ∧
      ∀ call : ReadCall, call.enters_basic m = false →
        (call.run m).1 ≠ .abort ∧
          ∀ ranges, (call.run m).1 = .ok ranges → ∀ q ∈ ranges, q.stop ≤ m.body.length := by
  have hinv : Reading m.body m := by
    refine @Reachable.invariant _ _ _ (fun m => Reading m.body m) ?_ ?_ _ hr
    · rintro m ⟨env, buffer, fds, got_ctrunc, h⟩
      exact bus_message_from_malloc_reading h
    · rintro m call m' h ⟨hb, rfl⟩
      have hm := (call.run_ensures h hb).state fun _ _ hr => hr.1
      show Reading (call.run m).2.body (call.run m).2
      rwa [hm.body_eq]
  refine ⟨hinv.rindex_le, hinv.depth, fun c hc => (hinv.entered c hc).end_eq, ?_, ?_⟩
  · have : m.containers.map (·.end_) = m.containers.map (·.begin) :=
      map_congr_left fun c hc => (hinv.entered c hc).end_eq
    rw [this]
    exact hinv.nested
  · intro call hb
    have hrun := call.run_ensures hinv hb
    exact ⟨hrun.not_abort, fun ranges hr => (hrun.of_ok hr).2⟩

/-- A signal with a struct in a struct, `(y(y))`. -/
def nested_buffer : List UInt8 :=
  [0x6c, 4, 0, 1] ++ in_host_order 4 9 ++ in_host_order 4 1 ++ in_host_order 4 60 ++
    [1, 1, 0x6f, 0] ++ in_host_order 4 2 ++ ascii "/a" ++ [0, 0, 0, 0, 0, 0] ++
    [2, 1, 0x73, 0] ++ in_host_order 4 3 ++ ascii "a.b" ++ [0, 0, 0, 0, 0] ++
    [3, 1, 0x73, 0] ++ in_host_order 4 1 ++ ascii "M" ++ [0, 0, 0, 0, 0, 0, 0] ++
    [8, 1, 0x67, 0, 6] ++ ascii "(y(y))" ++ [0] ++ [0, 0, 0, 0] ++
    [1, 0, 0, 0, 0, 0, 0, 0, 2]

/-- What `bus_message_from_malloc` makes of it. -/
def nested_message : SdBusMessage :=
  RawMessage.message
    { endian := .little, type := SD_BUS_MESSAGE_SIGNAL, flags := 0, serial := 1,
      fields := slice nested_buffer 16 60, body := [1, 0, 0, 0, 0, 0, 0, 0, 2] }
    { ParsedFields.none with
      path := some (ascii "/a"), interface := some (ascii "a.b"), member := some (ascii "M"),
      signature := some (ascii "(y(y))") }
    []

/-- Enter the struct, read its byte, and enter the struct in it. -/
def nested_calls : List ReadCall :=
  [.enter_container (fun _ => true) SD_BUS_TYPE_STRUCT none,
    .read_basic SD_BUS_TYPE_BYTE,
    .enter_container (fun _ => true) SD_BUS_TYPE_STRUCT (some (ascii "y"))]

/-- The message after these calls. -/
def after_calls (m : SdBusMessage) (calls : List ReadCall) : SdBusMessage :=
  calls.foldl (fun m call => (call.run m).2) m

/-- None of the calls takes a basic value for a container. -/
def no_basic_entered : SdBusMessage → List ReadCall → Bool
  | _, [] => true
  | m, call :: calls => !call.enters_basic m && no_basic_entered (call.run m).2 calls

theorem after_calls_reachable
    (h : Reachable (reader.restrict fun m call => call.enters_basic m = false) m)
    (calls : List ReadCall) (hb : no_basic_entered m calls = true) :
    Reachable (reader.restrict fun m call => call.enters_basic m = false)
      (after_calls m calls) := by
  induction calls generalizing m with
  | nil => exact h
  | cons call calls ih =>
    simp only [no_basic_entered, Bool.and_eq_true, Bool.not_eq_true'] at hb
    exact ih (.step h ⟨hb.1, rfl⟩) hb.2

theorem nested_reachable : Reachable (reader.restrict fun m call => call.enters_basic m = false)
      (after_calls nested_message nested_calls) := by
  apply after_calls_reachable
  · exact .init ⟨⟨true, true⟩, nested_buffer, [], false, by decide +kernel⟩
  · decide +kernel

/-- In the inner struct the read index is 8, and stays inside the body. -/
theorem reading_safe_nested :
    (after_calls nested_message nested_calls).rindex = 8 ∧
      (after_calls nested_message nested_calls).rindex ≤
        (after_calls nested_message nested_calls).body.length :=
  ⟨by decide +kernel, (reading_safe nested_reachable).1⟩

/-- The inner struct ends where it starts, which is behind the end of the
    outer one. -/
theorem reading_end_exceeds :
    ¬ ∀ m, Reachable reader m → ∀ c parent rest, m.containers = c :: parent :: rest →
      c.end_ ≤ parent.end_ := by
  intro h
  have hm := h _ nested_reachable.of_restrict
  have hc : ((after_calls nested_message nested_calls).containers.map (·.end_)) = [8, 0] := by
    decide +kernel
  match hl : (after_calls nested_message nested_calls).containers with
  | [] =>
    rw [hl] at hc
    cases hc
  | [c] =>
    rw [hl] at hc
    simp at hc
  | c :: parent :: rest =>
    have hle := hm c parent rest hl
    rw [hl] at hc
    simp only [map_cons, cons.injEq] at hc
    omega

end SdCompat.Bus
