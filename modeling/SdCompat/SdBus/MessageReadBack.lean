import SdCompat.SdBus.HeaderFields

/-! # Reading values back

    A reader that follows the signature of the message finds the values that
    are marshalled in it: what it sees is what the values show, one thing after
    another, and it ends where they end.
-/

open Bytes

namespace SdCompat.Bus

open Call List SdBusMessage Ty Nat BasicType
open Value (types encodes)

/-! ## Section 1: The reader -/

/-- What a reader sees of a message, and what a writer puts into it. -/
inductive MessageEvent where
  | basic (type : UInt8) (v : ReadValue)
  | enter (type : UInt8) (contents : List UInt8)
  | exit
  deriving DecidableEq, Repr

/-- The reader has all the memory it asks for. -/
def ReadEnv.all : ReadEnv := fun _ => true

/-- Ask for the type of what comes next, and read it; `none` at the end of the
    message. That something is announced but not there is shown as an abort. -/
def read_event : Call SdBusMessage (Option MessageEvent) := do
  match ← sd_bus_message_peek_type .all true with
  | none => do
    if ← sd_bus_message_at_end true then pure none
    else do
      sd_bus_message_exit_container
      pure (some .exit)
  | some p =>
    if bus_type_is_basic p.type then do
      match ← sd_bus_message_read_basic p.type with
      | none => abort
      | some (_, v) => pure (some (.basic p.type v))
    else do
      if ← sd_bus_message_enter_container .all p.type p.contents then
        pure (some (.enter p.type (p.contents.getD [])))
      else abort

/-- Read on to the end of the message. To run out of fuel is shown as an
    abort. -/
def read_events : Nat → Call SdBusMessage (List MessageEvent)
  | 0 => abort
  | fuel + 1 => do
    match ← read_event with
    | none => pure []
    | some e => do
      let es ← read_events fuel
      pure (e :: es)

/-- The reader sees these things between two states of the message. -/
inductive Reads : SdBusMessage → List MessageEvent → SdBusMessage → Prop
  | done (m : SdBusMessage) : Reads m [] m
  | step {m m₁ m₂ : SdBusMessage} {e : MessageEvent} {es : List MessageEvent} :
    read_event m = (.ok (some e), m₁) → Reads m₁ es m₂ → Reads m (e :: es) m₂

namespace Reads

variable {m m₁ m₂ : SdBusMessage} {es es' : List MessageEvent}

theorem single {e : MessageEvent} (h : read_event m = (.ok (some e), m₁)) : Reads m [e] m₁ :=
  step h (done m₁)

theorem append (h : Reads m es m₁) (h' : Reads m₁ es' m₂) : Reads m (es ++ es') m₂ := by
  induction h with
  | done m => exact h'
  | step he _ ih => exact step he (ih h')

/-- Where the reader comes to the end, it has seen these things. -/
theorem read_events (h : Reads m es m₁) (hend : read_event m₁ = (.ok none, m₂)) {fuel : Nat}
    (hf : es.length < fuel) : read_events fuel m = (.ok es, m₂) := by
  induction h generalizing fuel with
  | done m =>
    obtain ⟨fuel, rfl⟩ : ∃ n, fuel = n + 1 := ⟨fuel - 1, by omega⟩
    rw [Bus.read_events, bind_run, hend]
    rfl
  | step he _ ih =>
    rw [length_cons] at hf
    obtain ⟨fuel, rfl⟩ : ∃ n, fuel = n + 1 := ⟨fuel - 1, by omega⟩
    rw [Bus.read_events, bind_run, he]
    dsimp only
    rw [bind_run, ih hend (by omega)]
    rfl

end Reads

/-! ## Section 2: What values show -/

/-- What is read of a basic value; file descriptors are looked up. -/
def BasicValue.read (fds : List Int) : BasicValue → ReadValue
  | fixed _ n => .number n
  | boolean b => .number (if b then 1 else 0)
  | string s => .string s
  | object_path s => .string s
  | signature s => .string s
  | unix_fd index => .unix_fd (fds.getD index 0)

/-- The file descriptor is there. -/
def BasicValue.has_fd (n_fds : Nat) : BasicValue → Prop
  | unix_fd index => index < n_fds
  | _ => True

/-- A basic value that can be read. -/
def BasicValue.Readable (n_fds : Nat) (v : BasicValue) : Prop :=
  v.short = true ∧ v.has_fd n_fds

namespace Value

mutual

/-- What a reader sees of a value. -/
def events (fds : List Int) : Value → List MessageEvent
  | basic v => [.basic v.type.code (v.read fds)]
  | variant v =>
    .enter SD_BUS_TYPE_VARIANT v.type.sig :: (v.events fds ++ [.exit])
  | array elem vs => .enter SD_BUS_TYPE_ARRAY elem.sig :: (all_events fds vs ++ [.exit])
  | struct vs =>
    .enter SD_BUS_TYPE_STRUCT (sigs (types vs)) :: (all_events fds vs ++ [.exit])
  | dict_entry key value =>
    .enter SD_BUS_TYPE_DICT_ENTRY (key.type.code :: value.type.sig) ::
      (.basic key.type.code (key.read fds) :: value.events fds ++ [.exit])

def all_events (fds : List Int) : List Value → List MessageEvent
  | [] => []
  | v :: vs => v.events fds ++ all_events fds vs

end

mutual

/-- The reader takes the value, where it starts at this offset and this many
    containers are around it: it is not nested too deeply, no array is too
    large, and no signature is too long. -/
def Readable (e : Endian) (n_fds : Nat) (depth pos : Nat) : Value → Prop
  | basic v => v.Readable n_fds
  | variant v =>
    depth < BUS_CONTAINER_DEPTH ∧ v.type.sig.length ≠ 0xff ∧
      v.Readable e n_fds (depth + 1) (pos + (v.type.sig.length + 2))
  | array elem vs =>
    depth < BUS_CONTAINER_DEPTH ∧
      (encodes e (alignTo (alignTo pos 4 + 4) elem.align) vs).length ≤ BUS_ARRAY_MAX_SIZE ∧
      AllReadable e n_fds (depth + 1) (alignTo (alignTo pos 4 + 4) elem.align) vs
  | struct vs => depth < BUS_CONTAINER_DEPTH ∧ AllReadable e n_fds (depth + 1) (alignTo pos 8) vs
  | dict_entry key value =>
    depth < BUS_CONTAINER_DEPTH ∧ key.Readable n_fds ∧
      value.Readable e n_fds (depth + 1) (alignTo pos 8 + (key.encode e).length)

def AllReadable (e : Endian) (n_fds : Nat) (depth pos : Nat) : List Value → Prop
  | [] => True
  | v :: vs =>
    v.Readable e n_fds depth pos ∧
      AllReadable e n_fds depth (pos + (v.encode e pos).length) vs

end

/-- A value of a type takes some bytes. -/
theorem encode_pos (e : Endian) (pos : Nat) {v : Value} {allow : Bool} {ad sd : Nat}
    (h : v.type.Ok allow ad sd) : 0 < (v.encode e pos).length := by
  have hbasic : ∀ (b : BasicValue), 0 < (b.encode e).length := by
    intro b
    cases b <;> simp [BasicValue.encode]
    next t n => cases t <;> decide
  cases v with
  | basic b =>
    rw [encode, length_append]
    exact Nat.add_pos_right _ (hbasic b)
  | variant v =>
    rw [encode]
    simp
  | array elem vs =>
    rw [encode]
    simp only [length_append, length_ofNat]
    omega
  | struct vs =>
    cases vs with
    | nil => exact absurd rfl h.2.1
    | cons v vs =>
      rw [encode, encodes]
      have := encode_pos e (alignTo pos 8) h.2.2.1
      simp only [length_append]
      omega
  | dict_entry key value =>
    rw [encode]
    have := hbasic key
    simp only [length_append]
    omega

end Value

/-! ## Section 3: The reader's state -/

/-- The message after the reader has moved on: by `k` characters in the
    signature of the last container, unless it is an array, and to this
    offset. -/
def advanced (k saved rindex : Nat) (m : SdBusMessage) : SdBusMessage :=
  { m.update_last fun c =>
      { c with saved_index := saved,
               index := if c.enclosing = SD_BUS_TYPE_ARRAY then c.index else c.index + k } with
    rindex := rindex }

/-- A container is entered. -/
def entered (m : SdBusMessage) (type : UInt8) (contents : List UInt8) (before : Nat)
    (array_size : Option Nat) : SdBusMessage :=
  { m with containers := { enclosing := type, signature := contents, index := 0,
                           saved_index := 0, before := before, begin := m.rindex,
                           end_ := m.rindex, array_size := array_size } :: m.containers }

section states
variable {m : SdBusMessage} {k k' saved saved' rindex rindex' : Nat}

@[simp] theorem advanced_body : (advanced k saved rindex m).body = m.body := by
  unfold advanced update_last
  cases m.containers <;> rfl

@[simp] theorem advanced_endian : (advanced k saved rindex m).endian = m.endian := by
  unfold advanced update_last
  cases m.containers <;> rfl

@[simp] theorem advanced_fds : (advanced k saved rindex m).fds = m.fds := by
  unfold advanced update_last
  cases m.containers <;> rfl

@[simp] theorem advanced_sealed : (advanced k saved rindex m).sealed = m.sealed := by
  unfold advanced update_last
  cases m.containers <;> rfl

@[simp] theorem advanced_rindex : (advanced k saved rindex m).rindex = rindex := rfl

@[simp] theorem advanced_depth :
    (advanced k saved rindex m).containers.length = m.containers.length := by
  unfold advanced update_last
  cases m.containers <;> rfl

/-- The last container is the same, but for the indices. -/
theorem advanced_last : (advanced k saved rindex m).last_container =
    { m.last_container with
      saved_index := saved,
      index := if m.last_container.enclosing = SD_BUS_TYPE_ARRAY then m.last_container.index
        else m.last_container.index + k } := by
  unfold advanced update_last last_container
  cases m.containers <;> rfl

theorem advanced_advanced : advanced k' saved' rindex' (advanced k saved rindex m) =
    advanced (k + k') saved' rindex' m := by
  unfold advanced update_last
  cases hc : m.containers with
  | nil =>
    by_cases ha : m.root_container.enclosing = SD_BUS_TYPE_ARRAY
    · simp [ha]
    · simp [ha, add_assoc]
  | cons c cs =>
    by_cases ha : c.enclosing = SD_BUS_TYPE_ARRAY
    · simp [ha]
    · simp [ha, add_assoc]

/-- To stay where one is. -/
theorem advanced_zero : advanced 0 m.last_container.saved_index m.rindex m = m := by
  unfold advanced update_last last_container
  cases hc : m.containers with
  | nil =>
    dsimp only [headD_nil]
    rw [add_zero, ite_self, ← hc]
  | cons c cs =>
    dsimp only [headD_cons]
    rw [add_zero, ite_self, ← hc]

/-- In an array the signature is not moved in. -/
theorem advanced_array (h : m.last_container.enclosing = SD_BUS_TYPE_ARRAY) :
    advanced k saved rindex m = advanced 0 saved rindex m := by
  unfold advanced update_last
  unfold last_container at h
  cases hc : m.containers with
  | nil =>
    rw [hc] at h
    dsimp only [headD_nil] at h
    dsimp only
    rw [if_pos h, if_pos h]
  | cons c cs =>
    rw [hc] at h
    dsimp only [headD_cons] at h
    dsimp only
    rw [if_pos h, if_pos h]

/-- What `sd_bus_message_read_basic` and the functions that enter a container
    do to the index. -/
theorem skip_index_run (n : Nat) : skip_index n { m with rindex := rindex } =
    (.ok ⟨⟩, advanced n m.last_container.saved_index rindex m) := by
  unfold skip_index
  rw [modify_run]
  unfold set_index advanced update_last last_container
  cases hc : m.containers with
  | nil =>
    by_cases ha : m.root_container.enclosing = SD_BUS_TYPE_ARRAY
    · simp [← ha]
    · simp [ha]
  | cons c cs =>
    by_cases ha : c.enclosing = SD_BUS_TYPE_ARRAY
    · simp [← ha]
    · simp [ha]

end states

/-! ## Section 4: Parts of the body -/

section parts
variable {m : SdBusMessage} {pos : Nat}

variable {align : Nat}

theorem peek_body_at {b : List UInt8} (ha : 0 < align) (h : At m.body pos (zeroes pos align ++ b)) :
    peek_body pos align b.length m = (.ok ⟨alignTo pos align, b.length⟩, m) ∧
      m.bytes ⟨alignTo pos align, b.length⟩ = b := by
  obtain ⟨hp, hb⟩ := peek_part_at ha h
  refine ⟨?_, hb.slice_eq⟩
  unfold peek_body message_peek_body
  rw [get_bind_run, hp]
  rfl

/-- A number, as it is read. -/
theorem peek_number_at {w n : Nat} (ha : 0 < align) (hn : n < 256 ^ w)
    (h : At m.body pos (zeroes pos align ++ ofNat m.endian w n)) :
    peek_body pos align w m = (.ok ⟨alignTo pos align, w⟩, m) ∧
      m.bswap ⟨alignTo pos align, w⟩ = n := by
  obtain ⟨hp, hb⟩ := peek_body_at ha h
  rw [length_ofNat] at hp hb
  refine ⟨hp, ?_⟩
  unfold bswap
  rw [hb, toNat_ofNat m.endian hn]

/-- A place is aligned already. -/
theorem peek_aligned_at (ha : 0 < align) (h : At m.body pos (zeroes pos align)) :
    peek_body pos align 0 m = (.ok ⟨alignTo pos align, 0⟩, m) := by
  have hb : At m.body pos (zeroes pos align ++ []) := by rwa [append_nil]
  exact (peek_body_at ha hb).1

variable {s : List UInt8}

/-- What the two kinds of string share: a string behind its length. -/
theorem peek_text_at (h : At m.body pos (s ++ [0])) :
    peek_body pos 1 (s.length + 1) m = (.ok ⟨pos, s.length + 1⟩, m) ∧
      m.bytes ⟨pos, s.length + 1⟩ = s ++ [0] := by
  have hs : At m.body pos (zeroes pos 1 ++ (s ++ [0])) := by
    rwa [zeroes_one]
  have hp := peek_body_at (by decide) hs
  rw [alignTo_one] at hp
  have hlen : (s ++ [0]).length = s.length + 1 := by simp
  rwa [hlen] at hp

theorem peek_string_at {ok : List UInt8 → Bool} (h0 : 0 ∉ s) (hv : ok s = true)
    (hl : s.length < 0xffffffff)
    (h : At m.body pos (zeroes pos 4 ++ (ofNat m.endian 4 s.length ++ (s ++ [0])))) :
    peek_string pos (validate ok) m = (.ok ⟨alignTo pos 4 + 4, s.length + 1⟩, m) ∧
      m.bytes ⟨alignTo pos 4 + 4, s.length + 1⟩ = s ++ [0] := by
  rw [← append_assoc] at h
  obtain ⟨hp, hn⟩ := peek_number_at (by decide) (by omega) h.left
  have hr := h.right
  rw [length_append, length_zeroes, length_ofNat, ← Nat.add_assoc,
    add_padding (by decide)] at hr
  obtain ⟨hp', hb⟩ := peek_text_at hr
  refine ⟨?_, hb⟩
  unfold peek_string
  rw [bind_run_ok hp, get_bind_run, hn,
    check_bind_run_true (by simpa using Nat.ne_of_lt hl)]
  show (peek_body (alignTo pos 4 + 4) 1 (s.length + 1) >>= _) m = _
  rw [bind_run_ok hp', get_bind_run, hb,
    check_bind_run_true (by rw [validate_append_nul ok h0, hv])]
  rfl

theorem peek_signature_at (h0 : 0 ∉ s) (hv : signature_is_valid s true = true)
    (hl : s.length ≠ 0xff) (h : At m.body pos (ofNat m.endian 1 s.length ++ (s ++ [0]))) :
    peek_signature pos m = (.ok ⟨pos + 1, s.length + 1⟩, m) ∧
      m.bytes ⟨pos + 1, s.length + 1⟩ = s ++ [0] := by
  have hle : s.length ≤ 0xff := by
    unfold signature_is_valid at hv
    simp only [Bool.and_eq_true, decide_eq_true_eq] at hv
    exact hv.2
  have hs : At m.body pos (zeroes pos 1 ++ ofNat m.endian 1 s.length) := by
    rw [zeroes_one]
    exact h.left
  obtain ⟨hp, hn⟩ := peek_number_at (by decide) (by omega) hs
  rw [alignTo_one] at hp hn
  have hr := h.right
  rw [length_ofNat] at hr
  obtain ⟨hp', hb⟩ := peek_text_at hr
  refine ⟨?_, hb⟩
  unfold peek_signature
  rw [bind_run_ok hp, get_bind_run, hn, check_bind_run_true (by simpa using hl)]
  show (peek_body (pos + 1) 1 (s.length + 1) >>= _) m = _
  rw [bind_run_ok hp', get_bind_run, hb]
  unfold validate_signature
  rw [check_bind_run_true (by rw [validate_append_nul _ h0, hv])]
  rfl

/-- A value of a fixed size is read as the number it is. -/
theorem read_value_number {c : UInt8} {size n : Nat}
    (hc : c ≠ SD_BUS_TYPE_STRING ∧ c ≠ SD_BUS_TYPE_OBJECT_PATH ∧ c ≠ SD_BUS_TYPE_SIGNATURE)
    (ha : bus_type_get_alignment c = some align) (hs : bus_type_get_size c = some size)
    (hn : n < 256 ^ size) (h : At m.body pos (zeroes pos align ++ ofNat m.endian size n)) :
    read_value c pos m =
      (if c = SD_BUS_TYPE_BOOLEAN then pure (⟨alignTo pos align, size⟩,
          .number (if n = 0 then 0 else 1))
        else if c = SD_BUS_TYPE_UNIX_FD then
          match m.fds[n]? with
          | none => fail .EBADMSG
          | some fd => pure (⟨alignTo pos align, size⟩, .unix_fd fd)
        else pure (⟨alignTo pos align, size⟩, .number n) : Call SdBusMessage _) m := by
  obtain ⟨hp, hb⟩ := peek_number_at (bus_type_get_alignment_pos ha) hn h
  unfold read_value
  rw [if_neg (by simp [hc]), if_neg hc.2.2, ha, hs]
  subst hb
  exact bind_run_ok hp _

theorem object_path_length (h : object_path_is_valid s = true) : s.length < 0xffffffff := by
  unfold object_path_is_valid at h
  split at h
  · decide
  · simp only [Bool.and_eq_true, decide_eq_true_eq] at h
    have := h.2
    unfold BUS_PATH_SIZE_MAX at this
    omega
  · cases h

/-- A basic value is read, and the bytes it takes. -/
theorem read_value_at {v : BasicValue} (hv : v.Valid) (hr : v.Readable m.fds.length)
    (h : At m.body pos ((Value.basic v).encode m.endian pos)) :
    ∃ q, read_value v.type.code pos m = (.ok (q, v.read m.fds), m) ∧
      q.stop = pos + ((Value.basic v).encode m.endian pos).length := by
  have hstop : ∀ (align n : Nat) (b : List UInt8), 0 < align → b.length = n →
      BodyRange.stop ⟨alignTo pos align, n⟩ = pos + (zeroes pos align ++ b).length := by
    intro align n b ha hb
    rw [length_append, length_zeroes, ← add_assoc, add_padding ha, hb]
    rfl
  cases v with
  | fixed t n =>
    have hs : bus_type_get_size t.code = some ((bus_type_get_size t.code).getD 1) := by
      cases t <;> rfl
    have hc : (fixed t).code ≠ SD_BUS_TYPE_STRING ∧
        (fixed t).code ≠ SD_BUS_TYPE_OBJECT_PATH ∧
        (fixed t).code ≠ SD_BUS_TYPE_SIGNATURE := by
      cases t <;> decide
    have hn : (fixed t).code ≠ SD_BUS_TYPE_BOOLEAN ∧
        (fixed t).code ≠ SD_BUS_TYPE_UNIX_FD := by
      cases t <;> decide
    refine ⟨⟨alignTo pos (fixed t).align, (bus_type_get_size t.code).getD 1⟩, ?_, ?_⟩
    · show read_value (fixed t).code pos m = _
      rw [read_value_number hc (fixed t).code_alignment hs hv h, if_neg hn.1,
        if_neg hn.2]
      rfl
    · exact hstop _ _ _ (basic (.fixed t)).align_pos (length_ofNat _ _ _)
  | boolean b =>
    refine ⟨⟨alignTo pos 4, 4⟩, ?_, hstop _ _ _ (by decide) (length_ofNat _ _ _)⟩
    show read_value SD_BUS_TYPE_BOOLEAN pos m = _
    rw [read_value_number (by decide) rfl rfl (by cases b <;> decide) h]
    cases b <;> rfl
  | unix_fd index =>
    refine ⟨⟨alignTo pos 4, 4⟩, ?_, hstop _ _ _ (by decide) (length_ofNat _ _ _)⟩
    have hi : index < m.fds.length := hr.2
    show read_value SD_BUS_TYPE_UNIX_FD pos m = _
    rw [read_value_number (by decide) rfl rfl hv h, if_neg (by decide), if_pos rfl,
      getElem?_eq_getElem hi]
    have hfd : (BasicValue.unix_fd index).read m.fds = .unix_fd m.fds[index] := by
      show ReadValue.unix_fd (m.fds.getD index 0) = _
      rw [getD_eq_getElem?_getD, getElem?_eq_getElem hi]
      rfl
    rw [hfd]
    rfl
  | string s =>
    obtain ⟨h0, hu, hlt⟩ := hv
    obtain ⟨hp, hb⟩ := peek_string_at h0 hu hlt h
    refine ⟨⟨alignTo pos 4 + 4, s.length + 1⟩, ?_, ?_⟩
    · show read_value SD_BUS_TYPE_STRING pos m = _
      unfold read_value
      rw [if_pos (by decide), if_neg (by decide)]
      unfold validate_string
      rw [bind_run_ok hp, get_bind_run, hb, dropLast_concat]
      rfl
    · have hlen := hstop 4 (s.length + 5) (ofNat m.endian 4 s.length ++ (s ++ [0])) (by decide)
        (by simp; omega)
      unfold BodyRange.stop at hlen ⊢
      dsimp only at hlen ⊢
      refine Eq.trans ?_ hlen
      omega
  | object_path s =>
    obtain ⟨h0, hu⟩ := hv
    obtain ⟨hp, hb⟩ := peek_string_at h0 hu (object_path_length hu) h
    refine ⟨⟨alignTo pos 4 + 4, s.length + 1⟩, ?_, ?_⟩
    · show read_value SD_BUS_TYPE_OBJECT_PATH pos m = _
      unfold read_value
      rw [if_pos (by decide), if_pos (by decide)]
      unfold validate_object_path
      rw [bind_run_ok hp, get_bind_run, hb, dropLast_concat]
      rfl
    · have hlen := hstop 4 (s.length + 5) (ofNat m.endian 4 s.length ++ (s ++ [0])) (by decide)
        (by simp; omega)
      unfold BodyRange.stop at hlen ⊢
      dsimp only at hlen ⊢
      refine Eq.trans ?_ hlen
      omega
  | signature s =>
    have hz : (Value.basic (.signature s)).encode m.endian pos =
        ofNat m.endian 1 s.length ++ (s ++ [0]) := by
      show zeroes pos 1 ++ _ = _
      rw [zeroes_one]
      rfl
    rw [hz] at h ⊢
    obtain ⟨hp, hb⟩ := peek_signature_at hv.1 hv.2
      (by simpa [BasicValue.short] using hr.1) h
    refine ⟨⟨pos + 1, s.length + 1⟩, ?_, ?_⟩
    · show read_value SD_BUS_TYPE_SIGNATURE pos m = _
      unfold read_value
      rw [if_neg (by decide), if_pos rfl, bind_run_ok hp, get_bind_run, hb,
        dropLast_concat]
      rfl
    · simp only [BodyRange.stop, length_append, length_ofNat, length_cons,
        length_nil]
      omega

end parts

/-! ## Section 5: What comes next -/

/-- Values of these types follow, in this many bytes: in an array they have the
    type of its elements and do not reach behind its end, else the signature of
    the container goes on with them. -/
structure Follows (m : SdBusMessage) (ts : List Ty) (len : Nat) : Prop where
  sealed : m.sealed = true
  short : m.last_container.signature.length ≤ SD_BUS_MAXIMUM_SIGNATURE_LENGTH
  members : m.last_container.enclosing ≠ SD_BUS_TYPE_ARRAY →
    sigs ts <+: m.last_container.signature.drop m.last_container.index
  elements : m.last_container.enclosing = SD_BUS_TYPE_ARRAY →
    m.last_container.index = 0 ∧ (∀ t ∈ ts, t.sig = m.last_container.signature) ∧
      ∃ a, m.last_container.array_size = some a ∧
        m.rindex + len ≤ m.last_container.begin + m.bswap ⟨a, 4⟩

namespace Follows

variable {m : SdBusMessage} {t : Ty} {ts : List Ty} {len len' : Nat}

/-- The first type is next in the signature. -/
theorem next (h : Follows m (t :: ts) len) :
    t.sig <+: m.last_container.signature.drop m.last_container.index := by
  by_cases ha : m.last_container.enclosing = SD_BUS_TYPE_ARRAY
  · obtain ⟨hi, ht, -⟩ := h.elements ha
    have hsame : t.sig = m.last_container.signature.drop m.last_container.index := by
      rw [hi, drop_zero, ht t mem_cons_self]
    exact hsame ▸ prefix_refl _
  · exact (prefix_append _ _).trans (h.members ha)

theorem sig_le (h : Follows m [t] len) : t.sig.length ≤ SD_BUS_MAXIMUM_SIGNATURE_LENGTH := by
  have hle := h.next.length_le
  have hshort := h.short
  rw [length_drop] at hle
  omega

theorem first (h : Follows m (t :: ts) (len + len')) : Follows m [t] len where
  sealed := h.sealed
  short := h.short
  members ha := by
    have := (prefix_append t.sig (sigs ts)).trans (h.members ha)
    rwa [sigs, sigs, append_nil]
  elements ha := by
    obtain ⟨hi, ht, a, hs, hle⟩ := h.elements ha
    refine ⟨hi, ?_, a, hs, by omega⟩
    intro t' ht'
    rw [mem_singleton.mp ht']
    exact ht t mem_cons_self

/-- What follows behind the first value. -/
theorem rest (h : Follows m (t :: ts) (len + len')) (saved : Nat) :
    Follows (advanced t.sig.length saved (m.rindex + len) m) ts len' where
  sealed := by rw [advanced_sealed, h.sealed]
  short := by
    rw [advanced_last]
    exact h.short
  members ha := by
    rw [advanced_last] at ha ⊢
    obtain ⟨r, hr⟩ := h.members ha
    rw [sigs, append_assoc] at hr
    rw [if_neg ha, ← drop_drop, ← hr, drop_left' rfl]
    exact prefix_append _ _
  elements ha := by
    rw [advanced_last] at ha ⊢
    dsimp only at ha ⊢
    obtain ⟨hi, ht, a, hs, hle⟩ := h.elements ha
    refine ⟨by rw [if_pos ha, hi], fun t' ht' => ht t' (mem_cons_of_mem _ ht'), a, hs, ?_⟩
    unfold bswap bytes at hle ⊢
    rw [advanced_rindex, advanced_endian, advanced_body]
    omega

/-- The signature has not come to its end. -/
theorem not_end_of_signature (h : Follows m (t :: ts) len) :
    message_end_of_signature m = false := by
  obtain ⟨r, hr⟩ := h.next
  obtain ⟨c, s, hc⟩ := exists_cons_of_ne_nil t.sig_ne_nil
  have hcur : m.last_container.current = some c := by
    unfold BusMessageContainer.current
    rw [← head?_drop, ← hr, hc]
    rfl
  unfold message_end_of_signature
  rw [hcur]
  rfl

/-- Neither has the array. -/
theorem not_end_of_array (h : Follows m (t :: ts) len) (hl : 0 < len) :
    message_end_of_array m.rindex m = (.ok false, m) := by
  unfold message_end_of_array
  rw [get_bind_run]
  by_cases ha : m.last_container.enclosing = SD_BUS_TYPE_ARRAY
  · obtain ⟨-, -, a, hs, hle⟩ := h.elements ha
    rw [if_neg (not_not.mpr ha), hs]
    have hlt : ¬ m.last_container.begin + m.bswap ⟨a, 4⟩ ≤ m.rindex := by omega
    simpa using hlt
  · rw [if_pos ha]
    rfl

/-- Nothing has been read of what follows. -/
theorem saved (h : Follows m ts len) (s : Nat) : Follows (advanced 0 s m.rindex m) ts len where
  sealed := by rw [advanced_sealed, h.sealed]
  short := by
    rw [advanced_last]
    exact h.short
  members ha := by
    rw [advanced_last] at ha ⊢
    rw [if_neg ha]
    exact h.members ha
  elements ha := by
    rw [advanced_last] at ha ⊢
    rw [if_pos ha]
    unfold bswap bytes
    rw [advanced_endian, advanced_body]
    exact h.elements ha

end Follows

namespace Ty

/-- The type of a container, and its contents, as the calls name them. -/
def code : Ty → UInt8
  | basic t => t.code
  | variant => SD_BUS_TYPE_VARIANT
  | array _ => SD_BUS_TYPE_ARRAY
  | struct _ => SD_BUS_TYPE_STRUCT
  | dict_entry _ _ => SD_BUS_TYPE_DICT_ENTRY

def contents : Ty → Option (List UInt8)
  | basic _ => none
  | variant => none
  | array elem => some elem.sig
  | struct members => some (sigs members)
  | dict_entry key value => some (key.code :: value.sig)

end Ty

section peeking
variable {m : SdBusMessage} {t : Ty} {len : Nat} {allow : Bool} {ad sd : Nat}

/-- The type that is announced. -/
theorem peek_type_run (hf : Follows m [t] len) (hl : 0 < len) (ht : t.Ok allow ad sd) :
    sd_bus_message_peek_type .all true m =
      (match t with
        | .variant => do
          let q ← peek_signature m.rindex
          pure (some ⟨SD_BUS_TYPE_VARIANT, some ((← get).bytes q).dropLast, some q⟩)
        | t => pure (some ⟨t.code, t.contents, none⟩) : Call SdBusMessage _) m := by
  obtain ⟨r, hr⟩ := hf.next
  unfold sd_bus_message_peek_type
  rw [get_bind_run, check_bind_run_true hf.sealed, hf.not_end_of_signature,
    if_neg Bool.false_ne_true, bind_run_ok (hf.not_end_of_array hl),
    if_neg Bool.false_ne_true, ← hr]
  cases t with
  | basic b =>
    show (if bus_type_is_basic b.code then _ else _ : Call SdBusMessage (Option PeekedType)) m = _
    rw [if_pos b.code_basic]
    rfl
  | variant => rfl
  | array elem =>
    have hsig : (array elem).sig ++ r = SD_BUS_TYPE_ARRAY :: (elem.sig ++ r) := rfl
    have hpos := length_pos_iff.mpr elem.sig_ne_nil
    rw [hsig]
    dsimp only
    rw [if_neg (by decide), if_pos rfl, if_neg (by decide),
      signature_element_length_sig r ht.2.alone]
    dsimp only
    rw [if_neg (by omega), take_left' rfl]
    rfl
  | struct members =>
    have hlen := signature_element_length_sig r ht.alone
    rw [sig, cons_append, cons_append] at hlen ⊢
    have hpos := signature_element_length_members (.inl rfl) hlen
    dsimp only
    rw [if_neg (by decide), if_neg (by decide), if_pos (by decide), if_pos rfl, if_neg (by decide),
      hlen]
    dsimp only
    rw [if_neg (by omega), append_assoc, take_left' (by simp)]
    rfl
  | dict_entry key value =>
    have hlen := signature_element_length_sig r ht.alone
    rw [sig, cons_append, cons_append] at hlen ⊢
    have hpos := signature_element_length_members (.inr rfl) hlen
    dsimp only
    rw [if_neg (by decide), if_neg (by decide), if_pos (by decide), if_neg (by decide),
      if_neg (by decide), hlen]
    dsimp only
    rw [if_neg (by omega), append_assoc, take_left' (by simp)]
    rfl

/-- A basic value is read. -/
theorem read_event_basic {v : BasicValue} (hv : v.Valid) (hr : v.Readable m.fds.length)
    (hf : Follows m [.basic v.type] ((Value.basic v).encode m.endian m.rindex).length)
    (h : At m.body m.rindex ((Value.basic v).encode m.endian m.rindex)) :
    read_event m = (.ok (some (.basic v.type.code (v.read m.fds))),
      advanced 1 m.last_container.saved_index
        (m.rindex + ((Value.basic v).encode m.endian m.rindex).length) m) := by
  have ht : (basic v.type).Ok true 0 0 := trivial
  have hl : 0 < ((Value.basic v).encode m.endian m.rindex).length := Value.encode_pos _ _ ht
  have hp : sd_bus_message_peek_type .all true m = (.ok (some ⟨v.type.code, none, none⟩), m) :=
    peek_type_run hf hl ht
  obtain ⟨q, hq, hstop⟩ := read_value_at hv hr h
  obtain ⟨r, hnext⟩ := hf.next
  have hcur : m.last_container.current = some v.type.code := by
    unfold BusMessageContainer.current
    rw [← head?_drop, ← hnext]
    rfl
  have hread : sd_bus_message_read_basic v.type.code m = (.ok (some (q, v.read m.fds)),
      advanced 1 m.last_container.saved_index
        (m.rindex + ((Value.basic v).encode m.endian m.rindex).length) m) := by
    unfold sd_bus_message_read_basic
    rw [get_bind_run, check_bind_run_true hf.sealed,
      check_bind_run_true v.type.code_basic,
      check_bind_run_true (by rw [hf.not_end_of_signature]; rfl),
      bind_run_ok (hf.not_end_of_array hl), if_neg Bool.false_ne_true,
      check_bind_run_true (by rw [hcur]; exact beq_self_eq_true _), bind_run_ok hq]
    dsimp only
    unfold set_rindex
    rw [modify_bind_run, hstop, bind_run_ok (skip_index_run 1)]
    rfl
  unfold read_event
  rw [bind_run_ok hp]
  dsimp only
  rw [if_pos v.type.code_basic, bind_run_ok hread]
  rfl

/-- The end of a container. -/
theorem read_event_exit {c : BusMessageContainer} {rest : List BusMessageContainer}
    (hs : m.sealed = true) (hc : m.containers = c :: rest)
    (hend : if c.enclosing = SD_BUS_TYPE_ARRAY then
        ∃ a, c.array_size = some a ∧ c.begin + m.bswap ⟨a, 4⟩ = m.rindex
      else c.current = none) :
    read_event m = (.ok (some .exit), { m with containers := rest }) := by
  have hlast : m.last_container = c := by
    unfold last_container
    rw [hc]
    rfl
  have hpeek : sd_bus_message_peek_type .all true m = (.ok none, m) := by
    unfold sd_bus_message_peek_type
    rw [get_bind_run, check_bind_run_true hs]
    by_cases ha : c.enclosing = SD_BUS_TYPE_ARRAY
    · rw [if_pos ha] at hend
      obtain ⟨a, hsize, hstop⟩ := hend
      by_cases hsig : message_end_of_signature m = true
      · rw [if_pos hsig]
        rfl
      · have harr : message_end_of_array m.rindex m = (.ok true, m) := by
          unfold message_end_of_array
          rw [get_bind_run, hlast, if_neg (not_not.mpr ha), hsize]
          dsimp only
          rw [hstop]
          simp
        rw [if_neg hsig, bind_run_ok harr]
        rfl
    · rw [if_neg ha] at hend
      have hsig : message_end_of_signature m = true := by
        unfold message_end_of_signature
        rw [hlast, hend]
        rfl
      rw [if_pos hsig]
      rfl
  have hat : sd_bus_message_at_end true m = (.ok false, m) := by
    unfold sd_bus_message_at_end
    rw [get_bind_run, check_bind_run_true hs, hc]
    rfl
  have hexit : sd_bus_message_exit_container m = (.ok ⟨⟩, { m with containers := rest }) := by
    unfold sd_bus_message_exit_container
    rw [get_bind_run, check_bind_run_true hs, hc]
    dsimp only
    by_cases ha : c.enclosing = SD_BUS_TYPE_ARRAY
    · rw [if_pos ha] at hend
      obtain ⟨a, hsize, hstop⟩ := hend
      rw [if_neg (not_not.mpr ha), hsize]
      dsimp only
      rw [check_bind_run_true (by rw [hstop]; exact beq_self_eq_true _)]
      rfl
    · rw [if_neg ha] at hend
      rw [if_pos ha, check_bind_run_true (by rw [hend]; rfl)]
      rfl
  unfold read_event
  rw [bind_run_ok hpeek]
  dsimp only
  rw [bind_run_ok hat, if_neg Bool.false_ne_true, bind_run_ok hexit]
  rfl

/-- The end of the message. -/
theorem read_event_end (hs : m.sealed = true) (hc : m.containers = [])
    (hend : m.root_container.current = none) : read_event m = (.ok none, m) := by
  have hsig : message_end_of_signature m = true := by
    unfold message_end_of_signature last_container
    rw [hc, headD_nil, hend]
    rfl
  have hpeek : sd_bus_message_peek_type .all true m = (.ok none, m) := by
    unfold sd_bus_message_peek_type
    rw [get_bind_run, check_bind_run_true hs, if_pos hsig]
    rfl
  have hat : sd_bus_message_at_end true m = (.ok true, m) := by
    unfold sd_bus_message_at_end
    rw [get_bind_run, check_bind_run_true hs, hc, if_pos hsig]
    rfl
  unfold read_event
  rw [bind_run_ok hpeek]
  dsimp only
  rw [bind_run_ok hat]
  rfl

end peeking

/-! ## Section 6: Entering containers -/

section entering
variable {m : SdBusMessage} {k saved rindex : Nat} {type : UInt8} {contents : List UInt8}
  {before : Nat} {array_size : Option Nat}

/-- The state in which a container is entered: its place is remembered. -/
def remembered (m : SdBusMessage) : SdBusMessage :=
  advanced 0 m.last_container.index m.rindex m

variable {len : Nat}

variable {t : Ty}

/-- The type is announced, and the function for it finds the container. -/
theorem read_event_enter {range : Option BodyRange} (hf : Follows m [t] len) (hl : 0 < len)
    (hd : m.containers.length < BUS_CONTAINER_DEPTH)
    (hpeek : sd_bus_message_peek_type .all true m = (.ok (some ⟨type, some contents, range⟩), m))
    (hb : bus_type_is_basic type = false) (ht : type ≠ 0)
    (henter : bus_message_enter type contents (remembered m) = (.ok (some array_size), advanced k m.last_container.index rindex m)) :
    read_event m = (.ok (some (.enter type contents)),
      entered (advanced k m.last_container.index rindex m) type contents m.rindex array_size) := by
  have hsave : m.update_last (fun c => { c with saved_index := c.index }) = remembered m := by
    unfold remembered advanced update_last last_container
    cases hc : m.containers with
    | nil =>
      dsimp only [headD_nil]
      rw [add_zero, ite_self]
    | cons c cs =>
      dsimp only [headD_cons]
      rw [add_zero, ite_self]
  have hrun : enter_container .all type (some contents) m = (.ok true,
      entered (advanced k m.last_container.index rindex m) type contents m.rindex array_size) := by
    unfold enter_container
    rw [get_bind_run, check_bind_run_true (by simpa using hd),
      check_bind_run_true (rfl : ReadEnv.all [1] = true),
      check_bind_run_true (by rw [hf.not_end_of_signature]; rfl),
      bind_run_ok (hf.not_end_of_array hl), if_neg Bool.false_ne_true]
    dsimp only
    rw [check_bind_run_true (rfl : ReadEnv.all [2] = true), modify_bind_run, hsave, bind_run_ok henter]
    rfl
  have hcall : sd_bus_message_enter_container .all type (some contents) m = (.ok true,
      entered (advanced k m.last_container.index rindex m) type contents m.rindex array_size) := by
    unfold sd_bus_message_enter_container
    rw [get_bind_run, check_bind_run_true hf.sealed,
      check_bind_run_true (by simp [ht]), if_neg (by simp [ht])]
    exact hrun
  unfold read_event
  rw [bind_run_ok hpeek]
  dsimp only
  rw [hb, if_neg Bool.false_ne_true, bind_run_ok hcall]
  rfl

theorem remembered_last : (remembered m).last_container =
    { m.last_container with saved_index := m.last_container.index } := by
  unfold remembered
  rw [advanced_last, add_zero, ite_self]

/-- What the functions that enter a container do in the end. -/
theorem enter_moves (n : Nat) : skip_index n { remembered m with rindex := rindex } =
    (.ok ⟨⟩, advanced n m.last_container.index rindex m) := by
  rw [skip_index_run, remembered_last]
  unfold remembered
  rw [advanced_advanced, zero_add]

/-- The container is what the signature goes on with. -/
theorem signature_has_of_prefix {c : BusMessageContainer} {first : UInt8}
    {contents last : List UInt8} (h : first :: contents ++ last <+: c.signature.drop c.index) :
    signature_has c first contents last = true := by
  unfold signature_has
  rwa [List.isPrefixOf_iff_prefix]

/-- A struct, or a dictionary entry. -/
theorem enter_members_run {first last : UInt8} (hsig : t.sig = first :: contents ++ [last])
    (hf : Follows m [t] len) (h : At m.body m.rindex (zeroes m.rindex 8)) :
    enter_members first contents last (remembered m) =
      (.ok ⟨⟩, advanced t.sig.length m.last_container.index (alignTo m.rindex 8) m) := by
  have hnext := hf.next
  rw [hsig] at hnext
  have hhas : signature_has (remembered m).last_container first contents [last] = true := by
    rw [remembered_last]
    exact signature_has_of_prefix hnext
  have hbody : At (remembered m).body (remembered m).rindex (zeroes (remembered m).rindex 8) := by
    unfold remembered
    rw [advanced_body]
    exact h
  have hk : t.sig.length = 1 + contents.length + 1 := by
    rw [hsig, length_append, length_cons, length_singleton]
    omega
  unfold enter_members
  rw [get_bind_run, check_bind_run_true hhas,
    bind_run_ok (peek_aligned_at (by decide) hbody)]
  unfold set_rindex
  rw [hk]
  exact enter_moves _

theorem enter_struct_run {members : List Ty} (hf : Follows m [.struct members] len)
    (hok : ∀ t ∈ members, t.Ok false 0 0) (h : At m.body m.rindex (zeroes m.rindex 8)) :
    bus_message_enter SD_BUS_TYPE_STRUCT (sigs members) (remembered m) =
      (.ok (some none), advanced (struct members).sig.length m.last_container.index
        (alignTo m.rindex 8) m) := by
  have hlen : (sigs members).length ≤ SD_BUS_MAXIMUM_SIGNATURE_LENGTH := by
    have hle := hf.next.length_le
    have hshort := hf.short
    rw [sig, length_append, length_cons, length_drop] at hle
    omega
  have hmem := enter_members_run (t := .struct members) rfl hf h
  unfold bus_message_enter
  rw [if_neg (by decide), if_neg (by decide), if_pos rfl]
  unfold bus_message_enter_struct
  rw [bind_run, check_bind_run_true (signature_is_valid_sigs hok hlen), hmem]
  rfl

theorem enter_dict_entry_run {key : BasicType} {value : Ty}
    (hf : Follows m [.dict_entry key value] len) (hok : value.Ok false 0 0)
    (ha : m.last_container.enclosing = SD_BUS_TYPE_ARRAY)
    (h : At m.body m.rindex (zeroes m.rindex 8)) :
    bus_message_enter SD_BUS_TYPE_DICT_ENTRY (key.code :: value.sig) (remembered m) =
      (.ok (some none), advanced (dict_entry key value).sig.length m.last_container.index
        (alignTo m.rindex 8) m) := by
  have hpair : signature_is_pair (key.code :: value.sig) = true := by
    unfold signature_is_pair
    rw [Bool.and_eq_true]
    exact ⟨key.code_basic, signature_is_single_sig hok⟩
  have hmem := enter_members_run (t := .dict_entry key value) rfl hf h
  have hend : message_end_of_signature (remembered m) = false :=
    (hf.saved m.last_container.index).not_end_of_signature
  have hcall : bus_message_enter_dict_entry (key.code :: value.sig) (remembered m) =
      (.ok true, advanced (dict_entry key value).sig.length m.last_container.index
        (alignTo m.rindex 8) m) := by
    unfold bus_message_enter_dict_entry
    rw [get_bind_run, check_bind_run_true hpair,
      check_bind_run_true (by rw [remembered_last, ha]; exact beq_self_eq_true _), hend,
      if_neg Bool.false_ne_true, bind_run_ok hmem]
    rfl
  unfold bus_message_enter
  rw [if_neg (by decide), if_neg (by decide), if_neg (by decide), if_pos rfl,
    bind_run_ok hcall]
  rfl

/-- An array: the length, and the padding before the elements. -/
theorem enter_array_run {elem : Ty} {size : Nat} (hf : Follows m [.array elem] len)
    (hok : elem.Ok true 0 0) (hsize : size ≤ BUS_ARRAY_MAX_SIZE)
    (h : At m.body m.rindex (zeroes m.rindex 4 ++ ofNat m.endian 4 size))
    (hz : At m.body (alignTo m.rindex 4 + 4) (zeroes (alignTo m.rindex 4 + 4) elem.align)) :
    bus_message_enter SD_BUS_TYPE_ARRAY elem.sig (remembered m) =
      (.ok (some (some (alignTo m.rindex 4))),
        advanced (array elem).sig.length m.last_container.index
          (alignTo (alignTo m.rindex 4 + 4) elem.align) m) := by
  have hhas : signature_has (remembered m).last_container SD_BUS_TYPE_ARRAY elem.sig [] = true := by
    rw [remembered_last]
    apply signature_has_of_prefix
    rw [append_nil]
    exact hf.next
  have hbody : (remembered m).body = m.body := advanced_body
  have hendian : (remembered m).endian = m.endian := advanced_endian
  have hrindex : (remembered m).rindex = m.rindex := rfl
  rw [← hbody] at h hz
  rw [← hrindex, ← hendian] at h
  have hmax : BUS_ARRAY_MAX_SIZE < 256 ^ 4 := by decide
  obtain ⟨hp, hn⟩ := peek_number_at (by decide) (by omega) h
  have hp' := peek_aligned_at elem.align_pos hz
  have hcall : bus_message_enter_array elem.sig (remembered m) =
      (.ok (alignTo m.rindex 4), advanced (array elem).sig.length m.last_container.index
        (alignTo (alignTo m.rindex 4 + 4) elem.align) m) := by
    unfold bus_message_enter_array
    rw [get_bind_run, check_bind_run_true (signature_is_single_sig hok),
      check_bind_run_true hhas, bind_run_ok hp, hn,
      check_bind_run_true (by simpa using hsize), elem.sig_alignment]
    dsimp only
    rw [hrindex, show BodyRange.stop ⟨alignTo m.rindex 4, 4⟩ = alignTo m.rindex 4 + 4 from rfl,
      bind_run_ok hp']
    unfold set_rindex
    rw [modify_bind_run, show (array elem).sig.length = 1 + elem.sig.length from
      add_comm _ _, bind_run_ok (enter_moves _)]
    rfl
  unfold bus_message_enter
  rw [if_pos rfl, bind_run_ok hcall]
  rfl

/-- A variant: the signature of its value. -/
theorem enter_variant_run (hf : Follows m [.variant] len) (hl : 0 < len) (hok : t.Ok false 0 0)
    (hlen : t.sig.length < 0xff)
    (h : At m.body m.rindex (ofNat m.endian 1 t.sig.length ++ (t.sig ++ [0]))) :
    sd_bus_message_peek_type .all true m = (.ok (some ⟨SD_BUS_TYPE_VARIANT, some t.sig,
        some ⟨m.rindex + 1, t.sig.length + 1⟩⟩), m) ∧
      bus_message_enter SD_BUS_TYPE_VARIANT t.sig (remembered m) =
        (.ok (some none), advanced 1 m.last_container.index (m.rindex + (t.sig.length + 2)) m) := by
  have hvalid : signature_is_valid t.sig true = true :=
    signature_is_valid_sig hok.alone (by unfold SD_BUS_MAXIMUM_SIGNATURE_LENGTH; omega)
  constructor
  · obtain ⟨hp, hb⟩ := peek_signature_at t.zero_not_mem_sig hvalid (by omega) h
    have hv : Ok true 0 0 .variant := trivial
    rw [peek_type_run hf hl hv]
    dsimp only
    rw [bind_run_ok hp, get_bind_run, hb, dropLast_concat]
    rfl
  · have hbody : (remembered m).body = m.body := advanced_body
    have hendian : (remembered m).endian = m.endian := advanced_endian
    have hrindex : (remembered m).rindex = m.rindex := rfl
    rw [← hbody, ← hrindex, ← hendian] at h
    obtain ⟨hp, hb⟩ := peek_signature_at t.zero_not_mem_sig hvalid (by omega) h
    have hhead : (t.sig.head? != some SD_BUS_TYPE_DICT_ENTRY_BEGIN) = true := by
      cases t with
      | basic b =>
        have hne : b.code ≠ SD_BUS_TYPE_DICT_ENTRY_BEGIN := by
          intro he
          have := b.code_basic
          rw [he] at this
          cases this
        simpa [sig] using hne
      | dict_entry key value => exact absurd hok.1 Bool.false_ne_true
      | _ => rfl
    have hcur : (remembered m).last_container.current = some SD_BUS_TYPE_VARIANT := by
      rw [remembered_last]
      obtain ⟨r, hr⟩ := hf.next
      show m.last_container.signature[m.last_container.index]? = _
      rw [← head?_drop, ← hr]
      rfl
    have hcall : bus_message_enter_variant t.sig (remembered m) =
        (.ok ⟨⟩, advanced 1 m.last_container.index (m.rindex + (t.sig.length + 2)) m) := by
      unfold bus_message_enter_variant
      rw [get_bind_run, check_bind_run_true (signature_is_single_sig hok),
        check_bind_run_true hhead,
        check_bind_run_true (by rw [hcur]; exact beq_self_eq_true _), bind_run_ok hp, hb,
        dropLast_concat, check_bind_run_true (beq_self_eq_true _)]
      unfold set_rindex
      have hstop : BodyRange.stop ⟨(remembered m).rindex + 1, t.sig.length + 1⟩ =
          m.rindex + (t.sig.length + 2) := by
        show m.rindex + 1 + (t.sig.length + 1) = _
        omega
      rw [hstop]
      exact enter_moves 1
    unfold bus_message_enter
    rw [if_neg (by decide), if_pos rfl, bind_run, hcall]
    rfl

end entering

/-! ## Section 7: Whole values -/

section values
variable {m : SdBusMessage}

variable {array_size : Option Nat} {contents : List UInt8}

variable {before begin k : Nat} {type : UInt8}

/-- A container that is left: the reader is behind it. -/
theorem leave_entered {k' s saved stop : Nat} :
    { advanced k' saved stop (entered (advanced k s begin m) type contents before array_size) with
      containers := (advanced k s begin m).containers } = advanced k s stop m := by
  unfold advanced entered update_last
  cases m.containers <;> rfl

/-- Values of these types, that take these bytes, show these events wherever
    they can be read. -/
def Shown (ts : List Ty) (bytes : Endian → Nat → List UInt8)
    (readable : Endian → Nat → Nat → Nat → Prop) (es : List Int → List MessageEvent) : Prop :=
  ∀ (m : SdBusMessage) (ad sd : Nat),
    (∀ t ∈ ts, t.Ok (m.last_container.enclosing == SD_BUS_TYPE_ARRAY) ad sd) →
    readable m.endian m.fds.length m.containers.length m.rindex →
    Follows m ts (bytes m.endian m.rindex).length →
    At m.body m.rindex (bytes m.endian m.rindex) →
    ∃ saved, Reads m (es m.fds) (advanced (sigs ts).length saved
      (m.rindex + (bytes m.endian m.rindex).length) m)

variable {ts : List Ty} {ad sd stop : Nat}

variable {b₁ b₂ : Endian → Nat → List UInt8} {r₁ r₂ : Endian → Nat → Nat → Nat → Prop}

variable {e₁ e₂ : List Int → List MessageEvent}

/-- What is inside a container is read in between entering it and leaving it. -/
theorem Shown.container (h : Shown ts b₁ r₁ e₁) (hs : m.sealed = true)
    (henter : read_event m = (.ok (some (.enter type contents)), entered (advanced k m.last_container.index begin m) type contents before array_size))
    (ht : ∀ t ∈ ts, t.Ok (type == SD_BUS_TYPE_ARRAY) ad sd)
    (hr : r₁ m.endian m.fds.length (m.containers.length + 1) begin)
    (hf : Follows (entered (advanced k m.last_container.index begin m) type contents before array_size) ts (b₁ m.endian begin).length)
    (hb : At m.body begin (b₁ m.endian begin)) (hstop : stop = begin + (b₁ m.endian begin).length)
    (hend : if type = SD_BUS_TYPE_ARRAY then ∃ a, array_size = some a ∧ begin + m.bswap ⟨a, 4⟩ = stop else (sigs ts).length = contents.length) :
    ∃ saved, Reads m (.enter type contents :: (e₁ m.fds ++ [.exit])) (advanced k saved stop m) := by
  generalize hm : advanced k m.last_container.index begin m = m' at henter hf
  have hendian : m'.endian = m.endian := by rw [← hm, advanced_endian]
  have hfds : m'.fds = m.fds := by rw [← hm, advanced_fds]
  have hbody : m'.body = m.body := by rw [← hm, advanced_body]
  have hdepth : m'.containers.length = m.containers.length := by rw [← hm, advanced_depth]
  have hrindex : m'.rindex = begin := by rw [← hm, advanced_rindex]
  have hsealed : m'.sealed = true := by rw [← hm, advanced_sealed, hs]
  obtain ⟨saved, hinner⟩ := h (entered m' type contents before array_size) ad sd ht
    (by unfold entered; rw [hendian, hfds, length_cons, hdepth, hrindex]; exact hr)
    (by show Follows _ ts (b₁ m'.endian m'.rindex).length; rw [hendian, hrindex]; exact hf)
    (by unfold entered; rw [hendian, hrindex, hbody]; exact hb)
  change Reads _ (e₁ m'.fds)
    (advanced _ saved (m'.rindex + (b₁ m'.endian m'.rindex).length) _) at hinner
  rw [hfds, hendian, hrindex, ← hstop] at hinner
  subst hm
  refine ⟨m.last_container.index, ?_⟩
  have hexit := read_event_exit
    (m := advanced (sigs ts).length saved stop
      (entered (advanced k m.last_container.index begin m) type contents before array_size))
    (c := ⟨type, contents, if type = SD_BUS_TYPE_ARRAY then 0 else 0 + (sigs ts).length, saved,
      before, begin, begin, array_size⟩) (advanced_sealed.trans hsealed) rfl ?_
  · rw [leave_entered] at hexit
    exact Reads.step henter (hinner.append (Reads.single hexit))
  · by_cases ha : type = SD_BUS_TYPE_ARRAY
    · rw [if_pos ha] at hend ⊢
      obtain ⟨a, hsize, hend⟩ := hend
      refine ⟨a, hsize, ?_⟩
      rw [advanced_rindex, ← hend]
      unfold bswap bytes
      show begin + toNat (advanced k m.last_container.index begin m).endian
        (slice (advanced k m.last_container.index begin m).body a 4) = _
      rw [hendian, hbody]
    · rw [if_neg ha] at hend ⊢
      rw [if_neg ha, hend, zero_add]
      exact getElem?_eq_none (le_refl _)

/-- One value, and then others. -/
theorem Shown.cons {t : Ty} (h₁ : Shown [t] b₁ r₁ e₁) (h₂ : Shown ts b₂ r₂ e₂) :
    Shown (t :: ts) (fun e pos => b₁ e pos ++ b₂ e (pos + (b₁ e pos).length))
      (fun e n d pos => r₁ e n d pos ∧ r₂ e n d (pos + (b₁ e pos).length))
      (fun fds => e₁ fds ++ e₂ fds) := by
  rintro m ad sd ht ⟨hr1, hr2⟩ hf h
  rw [length_append] at hf
  obtain ⟨s1, h1⟩ := h₁ m ad sd (by simpa using ht t mem_cons_self) hr1 hf.first h.left
  have hsig : sigs [t] = t.sig := append_nil _
  rw [hsig] at h1
  have hrest := hf.rest s1
  generalize hm : advanced t.sig.length s1 (m.rindex + (b₁ m.endian m.rindex).length) m = m'
    at h1 hrest
  have hendian : m'.endian = m.endian := by rw [← hm, advanced_endian]
  have hfds : m'.fds = m.fds := by rw [← hm, advanced_fds]
  have hbody : m'.body = m.body := by rw [← hm, advanced_body]
  have hdepth : m'.containers.length = m.containers.length := by rw [← hm, advanced_depth]
  have hrindex : m'.rindex = m.rindex + (b₁ m.endian m.rindex).length := by
    rw [← hm, advanced_rindex]
  obtain ⟨s2, h2⟩ := h₂ m' ad sd
    (by rw [← hm, advanced_last]; exact fun t h => ht t (mem_cons_of_mem _ h))
    (by rw [hendian, hfds, hdepth, hrindex]; exact hr2)
    (by rw [hendian, hrindex]; exact hrest)
    (by rw [hendian, hbody, hrindex]; exact h.right)
  rw [hfds, hendian, hrindex, ← hm, advanced_advanced, add_assoc] at h2
  rw [hm] at h2
  refine ⟨s2, ?_⟩
  rw [sigs, length_append, length_append]
  exact h1.append h2

/-- The members of a struct follow when it is entered. -/
theorem Follows.of_entered (ts : List Ty) (type : UInt8) (before len : Nat)
    (hs : m.sealed = true) (ht : type ≠ SD_BUS_TYPE_ARRAY) (hc : contents = sigs ts)
    (hlen : contents.length ≤ SD_BUS_MAXIMUM_SIGNATURE_LENGTH) :
    Follows (entered m type contents before none) ts len where
  sealed := hs
  short := hlen
  members _ := hc ▸ prefix_refl _
  elements ha := absurd ha ht

/-- So do the elements of an array. -/
theorem Follows.of_entered_array {elem : Ty} (ts : List Ty) (before len : Nat) {a : Nat}
    (hs : m.sealed = true) (hlen : elem.sig.length ≤ SD_BUS_MAXIMUM_SIGNATURE_LENGTH)
    (ht : ∀ t ∈ ts, t = elem) (hsize : m.bswap ⟨a, 4⟩ = len) :
    Follows (entered m SD_BUS_TYPE_ARRAY elem.sig before (some a)) ts len where
  sealed := hs
  short := hlen
  members ha := absurd rfl ha
  elements _ := by
    refine ⟨rfl, ?_, a, rfl, ?_⟩
    · intro t h
      rw [ht t h]
      rfl
    · show m.rindex + len ≤ m.rindex + m.bswap ⟨a, 4⟩
      omega

theorem Ty.AllOk.forall {ts : List Ty} {ad sd : Nat} (h : AllOk ad sd ts) :
    ∀ t ∈ ts, t.Ok false ad sd := by
  induction ts with
  | nil => simp
  | cons t ts ih => exact forall_mem_cons.mpr ⟨h.1, ih h.2⟩

/-- The parts of a marshalled struct: the padding, and the members. -/
theorem members_parts {buf bs : List UInt8} {pos : Nat} (h : At buf pos (zeroes pos 8 ++ bs)) :
    At buf pos (zeroes pos 8) ∧ At buf (alignTo pos 8) bs ∧
      pos + (zeroes pos 8 ++ bs).length = alignTo pos 8 + bs.length := by
  have hr := h.right
  rw [length_zeroes, add_padding (by decide)] at hr
  refine ⟨h.left, hr, ?_⟩
  rw [length_append, length_zeroes, ← add_assoc, add_padding (by decide)]

/-- The key of a dictionary entry needs no padding. -/
theorem key_encode (e : Endian) (pos : Nat) (key : BasicValue) :
    (Value.basic key).encode e (alignTo pos 8) = key.encode e := by
  have hd : key.type.align ∣ alignTo pos 8 :=
    dvd_trans (basic key.type).align_dvd (dvd_alignTo pos 8)
  have hal : alignTo (alignTo pos 8) key.type.align = alignTo pos 8 :=
    alignTo_of_dvd (basic key.type).align_pos hd
  rw [Value.encode]
  unfold zeroes padding
  rw [hal, Nat.sub_self]
  rfl

/-- A dictionary entry is marshalled like a struct of its key and its value. -/
theorem dict_entry_encode (e : Endian) (pos : Nat) (key : BasicValue) (value : Value) :
    (Value.dict_entry key value).encode e pos =
      zeroes pos 8 ++ ((Value.basic key).encode e (alignTo pos 8) ++ value.encode e (alignTo pos 8 +
          ((Value.basic key).encode e (alignTo pos 8)).length)) := by
  rw [key_encode, Value.encode, append_assoc]

theorem basic_shown {v : BasicValue} (hv : v.Valid) :
    Shown [.basic v.type] (fun e pos => (Value.basic v).encode e pos)
      (fun _ n_fds _ _ => v.Readable n_fds) (fun fds => [.basic v.type.code (v.read fds)]) :=
  fun m _ _ _ hr hf h =>
    ⟨m.last_container.saved_index, Reads.single (read_event_basic hv hr hf h)⟩

mutual

/-- Induction over the value: the reader sees what it shows. -/
theorem value_shown (v : Value) (hv : v.Valid) : Shown [v.type] (fun e pos => v.encode e pos)
      (fun e n_fds depth pos => v.Readable e n_fds depth pos) (fun fds => v.events fds) := by
  match v with
  | .basic b => exact basic_shown hv
  | .variant v =>
    intro m ad sd ht hr hf h
    have hl := Value.encode_pos m.endian m.rindex (ht _ mem_cons_self)
    obtain ⟨hval, hok, hmax⟩ := hv
    obtain ⟨hd, hne, hread⟩ := hr
    obtain ⟨hsig, -, hbody, hstop⟩ := variant_parts h
    have hlen : v.type.sig.length < 0xff := by
      unfold SD_BUS_MAXIMUM_SIGNATURE_LENGTH at hmax
      omega
    obtain ⟨hpeek, henter⟩ := enter_variant_run hf hl hok hlen hsig
    have hfirst := read_event_enter hf hl hd hpeek (by decide) (by decide) henter
    have hsigs : sigs [v.type] = v.type.sig := append_nil _
    refine (value_shown v hval).container hf.sealed hfirst (forall_mem_singleton.mpr hok) hread ?_ hbody
      hstop ?_
    · exact Follows.of_entered [v.type] _ _ _ (by rw [advanced_sealed, hf.sealed]) (by decide)
        hsigs.symm hmax
    · rw [if_neg (by decide), hsigs]
  | .array elem vs =>
    intro m ad sd ht hr hf h
    have ht := ht _ mem_cons_self
    have hl := Value.encode_pos m.endian m.rindex ht
    obtain ⟨hval, helem⟩ := hv
    obtain ⟨hd, hmax, hread⟩ := hr
    obtain ⟨hsize, hpad, hbody, hstop⟩ := array_parts h
    have helemok : elem.Ok true (ad + 1) sd := ht.2
    have hpeek : sd_bus_message_peek_type .all true m =
        (.ok (some ⟨SD_BUS_TYPE_ARRAY, some elem.sig, none⟩), m) := peek_type_run hf hl ht
    have henter := enter_array_run hf helemok.alone hmax hsize hpad
    have hfirst := read_event_enter hf hl hd hpeek (by decide) (by decide) henter
    have hnum : (encodes m.endian (alignTo (alignTo m.rindex 4 + 4) elem.align) vs).length <
        256 ^ 4 := by
      have : BUS_ARRAY_MAX_SIZE < 256 ^ 4 := by decide
      omega
    have hword := (peek_number_at (by decide) hnum hsize).2
    have hshort := hf.sig_le
    rw [Value.type, sig, length_cons] at hshort
    rw [show sigs [(Value.array elem vs).type] = _ from append_nil _]
    refine (values_shown vs hval).container hf.sealed hfirst
      (fun t h => helem t h ▸ helemok) hread ?_ hbody hstop ?_
    · refine Follows.of_entered_array _ _ _ (by rw [advanced_sealed, hf.sealed]) (by omega) helem ?_
      unfold bswap bytes
      rw [advanced_endian, advanced_body]
      exact hword
    · exact ⟨_, rfl, by rw [hword]; exact hstop.symm⟩
  | .struct vs =>
    intro m ad sd ht hr hf h
    have ht := ht _ mem_cons_self
    have hl := Value.encode_pos m.endian m.rindex ht
    obtain ⟨hd, hread⟩ := hr
    obtain ⟨hpad, hbody, hstop⟩ := members_parts h
    have hmem : ∀ t ∈ types vs, t.Ok false ad (sd + 1) := AllOk.forall ht.2.2
    have hpeek : sd_bus_message_peek_type .all true m =
        (.ok (some ⟨SD_BUS_TYPE_STRUCT, some (sigs (types vs)), none⟩), m) :=
      peek_type_run hf hl ht
    have henter := enter_struct_run hf
      (fun t h => (hmem t h).mono id (zero_le _) (zero_le _)) hpad
    have hfirst := read_event_enter hf hl hd hpeek (by decide) (by decide) henter
    have hshort := hf.sig_le
    rw [Value.type, sig, length_append, length_cons] at hshort
    rw [show sigs [(Value.struct vs).type] = _ from append_nil _]
    refine (values_shown vs hv).container hf.sealed hfirst hmem hread ?_ hbody hstop ?_
    · exact Follows.of_entered _ _ _ _ (by rw [advanced_sealed, hf.sealed]) (by decide) rfl
        (by omega)
    · rw [if_neg (by decide)]
  | .dict_entry key value =>
    intro m ad sd ht hr hf h
    have ht := ht _ mem_cons_self
    have hl := Value.encode_pos m.endian m.rindex ht
    obtain ⟨hk, hval⟩ := hv
    obtain ⟨hd, hreadk, hread⟩ := hr
    dsimp only at h hf ⊢
    rw [dict_entry_encode] at h hf hl ⊢
    obtain ⟨hpad, hbody, hstop⟩ := members_parts h
    have htype : (dict_entry key.type value.type).Ok
        (m.last_container.enclosing == SD_BUS_TYPE_ARRAY) ad sd := ht
    obtain ⟨ha, -, hok⟩ := ht
    have hpeek : sd_bus_message_peek_type .all true m =
        (.ok (some ⟨SD_BUS_TYPE_DICT_ENTRY, some (key.type.code :: value.type.sig), none⟩), m) :=
      peek_type_run hf hl htype
    have henter := enter_dict_entry_run hf
      (hok.mono id (zero_le _) (zero_le _)) (beq_iff_eq.mp ha) hpad
    have hfirst := read_event_enter hf hl hd hpeek (by decide) (by decide) henter
    have hsigs : sigs [.basic key.type, value.type] = key.type.code :: value.type.sig := by
      simp [sigs, sig]
    have hshort := hf.sig_le
    simp only [Value.type, sig, length_append, length_cons] at hshort
    rw [show sigs [(Value.dict_entry key value).type] = _ from append_nil _]
    have hentry := (basic_shown hk).cons (value_shown value hval)
    refine hentry.container hf.sealed hfirst
      (forall_mem_cons.mpr ⟨trivial, forall_mem_singleton.mpr hok⟩)
      ⟨hreadk, by rw [key_encode]; exact hread⟩ ?_ hbody hstop ?_
    · exact Follows.of_entered _ _ _ _ (by rw [advanced_sealed, hf.sealed]) (by decide) hsigs.symm
        (by rw [length_cons]; omega)
    · rw [if_neg (by decide), hsigs]

/-- The members of a container, or the elements of an array. -/
theorem values_shown (vs : List Value) (hv : Value.AllValid vs) :
    Shown (Value.types vs) (fun e pos => Value.encodes e pos vs)
      (fun e n_fds depth pos => Value.AllReadable e n_fds depth pos vs)
      (fun fds => Value.all_events fds vs) := by
  match vs with
  | [] =>
    intro m _ _ _ _ _ _
    refine ⟨m.last_container.saved_index, ?_⟩
    have hstay : advanced 0 m.last_container.saved_index (m.rindex + 0) m = m := advanced_zero
    show Reads m [] (advanced 0 m.last_container.saved_index (m.rindex + 0) m)
    rw [hstay]
    exact Reads.done m
  | v :: vs => exact (value_shown v hv.1).cons (values_shown vs hv.2)

end

/-- A message whose body is these values, and whose signature is theirs, is
    read to its end, with nothing left over. -/
theorem read_events_values {vs : List Value} (hs : m.sealed = true) (hc : m.containers = [])
    (henc : m.root_container.enclosing = 0) (hindex : m.root_container.index = 0)
    (hr : m.rindex = 0) (hsig : m.root_container.signature = sigs (Value.types vs))
    (hlen : (sigs (Value.types vs)).length ≤ SD_BUS_MAXIMUM_SIGNATURE_LENGTH)
    (hbody : m.body = Value.encodes m.endian 0 vs) (hv : Value.AllValid vs)
    (ht : ∀ t ∈ Value.types vs, t.Ok false 0 0)
    (hread : Value.AllReadable m.endian m.fds.length 0 0 vs) {fuel : Nat}
    (hf : (Value.all_events m.fds vs).length < fuel) :
    ∃ m', read_events fuel m = (.ok (Value.all_events m.fds vs), m') ∧
      sd_bus_message_at_end true m' = (.ok true, m') ∧ m'.rindex = m'.body.length := by
  have hlast : m.last_container = m.root_container := by
    unfold last_container
    rw [hc]
    rfl
  have hfollows : Follows m (types vs) (encodes m.endian m.rindex vs).length := by
    constructor
    · exact hs
    · rw [hlast, hsig]
      exact hlen
    · intro _
      rw [hlast, hindex, hsig]
      exact prefix_refl _
    · intro ha
      rw [hlast, henc] at ha
      cases ha
  obtain ⟨saved, h⟩ := values_shown vs hv m 0 0
    (by rw [hlast, henc]; exact ht) (by rw [hc, hr]; exact hread) hfollows
    (by rw [hr]; exact hbody ▸ At.self _)
  dsimp only at h
  rw [hr, zero_add, ← hbody] at h
  generalize he : advanced (sigs (types vs)).length saved m.body.length m = m' at h
  have hsealed : m'.sealed = true := by rw [← he, advanced_sealed, hs]
  have hempty : m'.containers = [] := by
    rw [← length_eq_zero_iff, ← he, advanced_depth, hc]
    rfl
  have hcur : m'.root_container.current = none := by
    have hroot : m'.last_container = m'.root_container := by
      unfold last_container
      rw [hempty]
      rfl
    rw [← hroot, ← he, advanced_last, hlast]
    dsimp only
    rw [henc, hindex, zero_add, hsig]
    exact getElem?_eq_none (le_refl _)
  have hend := read_event_end hsealed hempty hcur
  refine ⟨m', h.read_events hend hf, ?_, ?_⟩
  · have hsignature : message_end_of_signature m' = true := by
      unfold message_end_of_signature last_container
      rw [hempty, headD_nil, hcur]
      rfl
    unfold sd_bus_message_at_end
    rw [get_bind_run, check_bind_run_true hsealed, hempty, if_neg (by simp),
      if_pos hsignature]
    rfl
  · rw [← he, advanced_rindex, advanced_body]

end values

end SdCompat.Bus
