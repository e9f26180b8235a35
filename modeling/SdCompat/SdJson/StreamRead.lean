import SdCompat.SdJson.Stream

/-! # What a read does

    A read appends what it takes from the socket to the bytes in use, however
    it has to move or grow the buffer for that; and how many bytes it takes
    when reads are bounded.
-/

open Bytes Transition

namespace SdCompat.Json

open Nat

/-! ## Section 1: Parts of the buffer -/

section slice
variable {buf bs mem : List UInt8} {i n k : Nat}

/-- Bytes written behind a part leave it as it is. -/
theorem slice_replace_left (h : i + n ≤ k) (hk : k ≤ buf.length) :
    slice (replace buf k bs) i n = slice buf i n := by
  have hlen : i + n ≤ (buf.take k).length := by rw [List.length_take]; omega
  unfold replace
  rw [List.append_assoc, slice_append_left hlen]
  conv_rhs => rw [← List.take_append_drop k buf]
  rw [slice_append_left hlen]

/-- Bytes written right behind a part make it longer. -/
theorem slice_replace_append (h : i + n ≤ buf.length) :
    slice (replace buf (i + n) bs) i (n + bs.length) = slice buf i n ++ bs := by
  have hsplit : buf.take (i + n) = buf.take i ++ slice buf i n := by
    rw [slice, List.take_add]
  have hlen : (buf.take i).length = i := by rw [List.length_take]; omega
  have hn : (slice buf i n ++ bs).length = n + bs.length := by
    rw [List.length_append, length_slice h]
  have := slice_middle (buf.take i) (slice buf i n ++ bs) (buf.drop (i + n + bs.length))
  rw [hlen, hn] at this
  rw [replace, hsplit, List.append_assoc (buf.take i), this]

theorem slice_replace_self (h : bs.length ≤ buf.length) :
    slice (replace buf 0 bs) 0 bs.length = bs := by
  simp [slice, replace]

theorem length_fresh : n ≤ (fresh n mem).length := by
  rw [fresh, List.length_append, List.length_replicate]
  omega

theorem length_greedy_realloc : n ≤ (greedy_realloc buf n mem).length := by
  unfold greedy_realloc
  split
  · assumption
  · have := @length_fresh mem (n - buf.length)
    rw [List.length_append]
    omega

/-- The reallocated memory starts with what it was. -/
theorem prefix_greedy_realloc : buf <+: greedy_realloc buf n mem := by
  unfold greedy_realloc
  split
  · exact List.prefix_rfl
  · exact List.prefix_append _ _

end slice

theorem StreamSetup.delim_ne (s : StreamSetup) : s.delim ≠ [] := by
  unfold StreamSetup.delim
  split
  · simp
  · simp
  · next d hne _ => exact fun h => hne h

theorem StreamSetup.delim_pos (s : StreamSetup) : 0 < s.delim.length :=
  List.length_pos_iff.mpr s.delim_ne

/-! ## Section 2: The buffer is moved -/

namespace JsonInput

/-- The bytes in use lie inside of the buffer. -/
structure Inside (s : JsonInput) : Prop where
  inside : s.input_buffer_index + s.input_buffer_size ≤ s.input_buffer.length
  unscanned : s.input_buffer_unscanned ≤ s.input_buffer_size

variable {s : JsonInput}

theorem Inside.length_content (h : s.Inside) : s.content.length = s.input_buffer_size :=
  length_slice h.inside

/-- The memory behind the bytes in use. -/
def room (s : JsonInput) : Nat :=
  s.input_buffer.length - (s.input_buffer_index + s.input_buffer_size)

/-- All that matters is as before, wherever the buffer is now. -/
structure Moved (s s' : JsonInput) : Prop where
  setup : s'.setup = s.setup
  size : s'.input_buffer_size = s.input_buffer_size
  unscanned : s'.input_buffer_unscanned = s.input_buffer_unscanned
  unread : s'.unread = s.unread
  taken : s'.taken = s.taken
  content : s'.content = s.content
  inside : s'.Inside

theorem Moved.refl (h : s.Inside) : Moved s s := ⟨rfl, rfl, rfl, rfl, rfl, rfl, h⟩

theorem Moved.trans {s' s'' : JsonInput} (h : Moved s s') (h' : Moved s' s'') : Moved s s'' where
  setup := h'.setup.trans h.setup
  size := h'.size.trans h.size
  unscanned := h'.unscanned.trans h.unscanned
  unread := h'.unread.trans h.unread
  taken := h'.taken.trans h.taken
  content := h'.content.trans h.content
  inside := h'.inside

variable {bytes : List UInt8}

/-- Writing behind the bytes in use. -/
theorem Moved.poke (h : s.Inside) (hb : bytes.length ≤ s.room) : Moved s (s.poke bytes) where
  setup := rfl
  size := rfl
  unscanned := rfl
  unread := rfl
  taken := rfl
  content := slice_replace_left (le_refl _) h.inside
  inside := by
    have hi := h.inside
    unfold room at hb
    constructor
    · show _ ≤ (replace _ _ _).length
      rw [length_replace (by omega)]
      exact hi
    · exact h.unscanned

theorem room_poke (h : s.Inside) (hb : bytes.length ≤ s.room) : (s.poke bytes).room = s.room := by
  have hi := h.inside
  unfold room at hb ⊢
  show (replace _ _ _).length - _ = _
  rw [length_replace (by omega)]
  rfl

theorem length_available (s : JsonInput) (n : Nat) : (s.available n).length ≤ n := by
  simp [available]

end JsonInput

open JsonInput Call

variable {s : JsonInput}

/-- Where there is memory, there is room for a byte at least, and the bytes
    in use are what they were. -/
theorem ensures_make_room (env : StreamEnv) (h : s.Inside)
    (hmax : s.input_buffer_size < s.setup.buffer_max) :
    Ensures (json_stream_make_room env) s (fun _ s' => Moved s s' ∧ 0 < s'.room) (Moved s) := by
  have hadd : 0 < min (s.setup.buffer_max - s.input_buffer_size) s.setup.read_chunk := by
    have := s.setup.read_chunk_pos
    omega
  refine ensures_get_bind ?_
  split
  · generalize min (s.setup.buffer_max - s.input_buffer_size) s.setup.read_chunk = add at hadd
    cases env.grow with
    | none => exact ensures_fail (.refl h)
    | some memory =>
      dsimp only
      split
      · next hindex =>
        -- the buffer is reallocated: what is in use stays at its start
        have hi : s.input_buffer_index = 0 := by
          simp only [Bool.and_eq_true, decide_eq_true_eq] at hindex
          exact hindex.1
        have hlen := @length_greedy_realloc s.input_buffer memory (s.input_buffer_size + add)
        obtain ⟨t, ht⟩ := @prefix_greedy_realloc s.input_buffer memory (s.input_buffer_size + add)
        refine ensures_modify ⟨⟨rfl, rfl, rfl, rfl, rfl, ?_, ?_, h.unscanned⟩, ?_⟩
        · show slice (greedy_realloc _ _ _) _ _ = _
          rw [← ht]
          exact slice_append_left h.inside
        · show s.input_buffer_index + s.input_buffer_size ≤
            (greedy_realloc s.input_buffer (s.input_buffer_size + add) memory).length
          omega
        · show 0 < (greedy_realloc s.input_buffer (s.input_buffer_size + add) memory).length -
            (s.input_buffer_index + s.input_buffer_size)
          omega
      · -- it is copied to new memory
        have hc := h.length_content
        have hlen := @length_fresh memory (s.input_buffer_size + add)
        have hrep : (replace (fresh (s.input_buffer_size + add) memory) 0 s.content).length =
            (fresh (s.input_buffer_size + add) memory).length :=
          length_replace (by omega)
        refine ensures_modify ⟨⟨rfl, rfl, rfl, rfl, rfl, ?_, ?_, h.unscanned⟩, ?_⟩
        · show slice (replace _ 0 s.content) 0 s.input_buffer_size = _
          have hself := @slice_replace_self (fresh (s.input_buffer_size + add) memory) s.content
            (by omega)
          rwa [hc] at hself
        · show 0 + s.input_buffer_size ≤
            (replace (fresh (s.input_buffer_size + add) memory) 0 s.content).length
          omega
        · show 0 < (replace (fresh (s.input_buffer_size + add) memory) 0 s.content).length -
            (0 + s.input_buffer_size)
          omega
  · next hlen => exact ensures_pure ⟨.refl h, by unfold room; omega⟩

/-! ## Section 3: How much is read -/

/-- The delimiter is nowhere but at the end. -/
def StopsAt (d l : List UInt8) : Prop := ∀ i, d <+: l.drop i → i + d.length = l.length

/-- The delimiter is nowhere. -/
def Without (d l : List UInt8) : Prop := ∀ i, ¬ d <+: l.drop i

section boundary
variable {d l l' c : List UInt8} {i : Nat}

theorem prefix_drop_le (hd : d ≠ []) (h : d <+: l.drop i) : i + d.length ≤ l.length := by
  have hlen := h.length_le
  have := List.length_pos_iff.mpr hd
  rw [List.length_drop] at hlen
  omega

theorem prefix_drop_append (h : d <+: l.drop i) (hd : d ≠ []) : d <+: (l ++ l').drop i := by
  have := prefix_drop_le hd h
  rw [List.drop_append_of_le_length (by omega)]
  exact h.trans (List.prefix_append _ _)

/-- An occurrence that ends inside of the first part is one in it. -/
theorem prefix_drop_of_append (h : d <+: (l ++ l').drop i) (hle : i + d.length ≤ l.length) :
    d <+: l.drop i := by
  rw [List.drop_append_of_le_length (by omega)] at h
  exact List.prefix_of_prefix_length_le h (List.prefix_append _ _)
    (by rw [List.length_drop]; omega)

/-- One that starts in the second part is one in it. -/
theorem prefix_drop_right (h : d <+: (l ++ l').drop i) (hle : l.length ≤ i) :
    d <+: l'.drop (i - l.length) := by
  rwa [List.drop_append, List.drop_eq_nil_of_le hle, List.nil_append] at h

/-- Less is read: then still nothing follows the delimiter. -/
theorem StopsAt.shorter (h : StopsAt d l') (hd : d ≠ []) (hl : l <+: l') : StopsAt d l := by
  obtain ⟨t, rfl⟩ := hl
  intro i hi
  have h1 := prefix_drop_le hd hi
  have h2 := h i (prefix_drop_append hi hd)
  rw [List.length_append] at h2
  omega

theorem Without.stopsAt (h : Without d l) : StopsAt d l := fun i hi => (h i hi).elim

/-- Nothing can follow the delimiter in the first byte read. -/
theorem stopsAt_byte (hd : d ≠ []) (h : Without d l) (hc : c.length ≤ 1) : StopsAt d (l ++ c) := by
  intro i hi
  have hle := prefix_drop_le hd hi
  by_contra hne
  rw [List.length_append] at hle hne
  exact h i (prefix_drop_of_append hi (by omega))

end boundary

/-- The delimiter begins in the buffered bytes and ends in the peeked bytes,
    before their end. -/
def StraddlesBy (d content peeked : List UInt8) : Prop :=
  ∃ i, i < content.length ∧ d <+: (content ++ peeked).drop i ∧
    i + d.length < (content ++ peeked).length

/-- What `MSG_PEEK` shows where there is room for `rs` bytes completes a
    delimiter whose start is in the buffer, and goes on. -/
def Straddles (env : StreamEnv) (rs : Nat) (s : JsonInput) : Prop :=
  s.setup.bounded_reads = true ∧ s.setup.prefer_read = false ∧
    ∃ k fds trunc ctrunc, env.peek = .data k fds trunc ctrunc ∧
      StraddlesBy s.delim s.content (s.available (min (k + 1) rs))

section peek
variable {d content peeked : List UInt8}

/-- The delimiter found in the peeked bytes is the first one, unless one
    straddles. -/
theorem stopsAt_found (hd : d ≠ []) (hw : Without d content)
    (hs : ¬ StraddlesBy d content peeked) {j : Nat} (hj : memmem_safe peeked d = some j) :
    StopsAt d (content ++ peeked.take (j + d.length)) := by
  have hjle : j + d.length ≤ peeked.length := by
    rcases memmem_safe_le hj with h | h
    · exact h
    · exact (hd h).elim
  intro i hi
  have hle := prefix_drop_le hd hi
  rw [List.length_append, List.length_take] at hle ⊢
  have hi' : d <+: (content ++ peeked).drop i := by
    have h : d <+: (content ++ peeked.take (j + d.length) ++ peeked.drop (j + d.length)).drop i :=
      prefix_drop_append hi hd
    rwa [List.append_assoc, List.take_append_drop] at h
  by_cases hlt : i < content.length
  · -- it would straddle
    by_contra hne
    exact hs ⟨i, hlt, hi', by rw [List.length_append]; omega⟩
  · -- it is in the peeked bytes, and not before the one found
    have hfirst : ¬ i - content.length < j := fun hlt' =>
      memmem_safe_first hj hlt' (prefix_drop_right hi' (Nat.le_of_not_lt hlt))
    omega

theorem memmem_safe_none (h : memmem_safe l d = none) (hd : d ≠ []) : Without d l := by
  induction l with
  | nil =>
    intro i hi
    have hle := prefix_drop_le hd hi
    have hpos := List.length_pos_iff.mpr hd
    rw [List.length_nil] at hle
    omega
  | cons a l ih =>
    rw [memmem_safe.eq_def] at h
    split at h
    · simp at h
    · next hp =>
      rw [Option.map_eq_none_iff] at h
      intro i hi
      cases i with
      | zero => exact hp (by simpa using hi)
      | succ i => exact ih h i (by simpa using hi)

theorem stopsAt_all (hd : d ≠ []) (hs : ¬ StraddlesBy d content peeked)
    (hj : memmem_safe peeked d = none) : StopsAt d (content ++ peeked) := by
  intro i hi
  have hle := prefix_drop_le hd hi
  by_cases hlt : i < content.length
  · by_contra hne
    exact hs ⟨i, hlt, hi, by omega⟩
  · exact (memmem_safe_none hj hd _ (prefix_drop_right hi (Nat.le_of_not_lt hlt))).elim

end peek

/-- The number of bytes to read fits; and with bounded reads nothing of it is
    behind the delimiter, unless the delimiter straddles. -/
theorem ensures_peek (env : StreamEnv) (h : s.Inside) {rs : Nat} (hrs : rs ≤ s.room) (hpos : 0 < rs) :
    Ensures (json_stream_peek_message_boundary env rs) s
      (fun n s' => Moved s s' ∧ s'.room = s.room ∧ n ≤ rs ∧
        (s.setup.bounded_reads = true → Without s.delim s.content → ¬ Straddles env rs s →
          StopsAt s.delim (s.content ++ s.unread.take n))) (Moved s) := by
  have hd := s.setup.delim_ne
  have hbyte : Without s.delim s.content → StopsAt s.delim (s.content ++ s.unread.take 1) :=
    fun hw => stopsAt_byte hd hw (by simp)
  refine ensures_get_bind ?_
  split
  · next hb => exact ensures_pure ⟨.refl h, rfl, le_refl _, fun hb' => by simp [hb'] at hb⟩
  · split
    · exact ensures_pure ⟨.refl h, rfl, hpos, fun _ hw _ => hbyte hw⟩
    · next hb hp =>
      simp only [Bool.not_eq_true, Bool.not_eq_false'] at hb hp
      cases hpeek : env.peek with
      | error e =>
        dsimp only
        split
        · exact ensures_fail (.refl h)
        · exact ensures_pure ⟨.refl h, rfl, hpos, fun _ hw _ => hbyte hw⟩
      | data k fds trunc ctrunc =>
        have hns : ¬ Straddles env rs s →
            ¬ StraddlesBy s.delim s.content (s.available (min (k + 1) rs)) :=
          fun hs hby => hs ⟨hb, hp, k, fds, trunc, ctrunc, hpeek, hby⟩
        have hroom : (s.available (min (k + 1) rs)).length ≤ rs := by
          have := s.length_available (min (k + 1) rs)
          omega
        have hmoved := Moved.poke h (hroom.trans hrs)
        have hsame := room_poke h (hroom.trans hrs)
        have htake : ∀ n, n ≤ (s.available (min (k + 1) rs)).length →
            s.unread.take n = (s.available (min (k + 1) rs)).take n := by
          intro n hn
          rw [available, List.length_take] at hn
          rw [available, List.take_take, min_eq_left (by omega)]
        refine ensures_modify_bind ?_
        split
        · next hempty =>
          -- at the end of the stream there is nothing to take
          have hnil : s.unread = [] := by
            have hz : min (k + 1) rs ≠ 0 := by omega
            simpa [available, hz] using hempty
          exact ensures_pure ⟨hmoved, hsame, le_refl _, fun _ hw _ => by
            simpa [hnil] using hw.stopsAt⟩
        · cases hj : memmem_safe (s.available (min (k + 1) rs)) s.delim with
          | some j =>
            have hle : j + s.delim.length ≤ (s.available (min (k + 1) rs)).length := by
              rcases memmem_safe_le hj with h | h
              · exact h
              · exact (hd h).elim
            refine ensures_pure ⟨hmoved, hsame, hle.trans hroom, fun _ hw hs => ?_⟩
            rw [htake _ hle]
            exact stopsAt_found hd hw (hns hs) hj
          | none =>
            refine ensures_pure ⟨hmoved, hsame, hroom, fun _ _ hs => ?_⟩
            rw [htake _ (le_refl _), List.take_length]
            exact stopsAt_all hd (hns hs) hj

/-! ## Section 4: A read -/

namespace JsonInput

/-- `m` bytes have been taken from the socket, or all there were. -/
structure Took (m : Nat) (s s' : JsonInput) : Prop where
  setup : s'.setup = s.setup
  unread : s'.unread = s.unread.drop m
  taken : s'.taken = s.taken ++ s.unread.take m

/-- They are in the buffer, and are to be scanned for the delimiter, along
    with the end of what was there before. -/
structure Grew (m : Nat) (s s' : JsonInput) : Prop extends Took m s s' where
  inside : s'.Inside
  content : s'.content = s.content ++ s.unread.take m
  unscanned : s'.input_buffer_unscanned =
    if s.unread.take m = [] then s.input_buffer_unscanned
    else min s.input_buffer_size (s.delim.length - 1) + (s.unread.take m).length

/-- They are lost: the call failed after it had taken them. -/
structure Lost (m : Nat) (s s' : JsonInput) : Prop extends Took m s s' where
  inside : s'.Inside
  content : s'.content = s.content
  size : s'.input_buffer_size = s.input_buffer_size
  unscanned : s'.input_buffer_unscanned = s.input_buffer_unscanned

variable {s s' : JsonInput}

section
variable (h : Moved s s')
include h

theorem Moved.took : Took 0 s s' where
  setup := h.setup
  unread := by simpa using h.unread
  taken := by simpa using h.taken

theorem Moved.lost : Lost 0 s s' where
  toTook := h.took
  inside := h.inside
  content := h.content
  size := h.size
  unscanned := h.unscanned

theorem Moved.grew : Grew 0 s s' where
  toTook := h.took
  inside := h.inside
  content := by simpa using h.content
  unscanned := by simpa using h.unscanned

variable {s'' : JsonInput}

variable {m : Nat}

theorem Moved.trans_took (h' : Took m s' s'') : Took m s s'' where
  setup := h'.setup.trans h.setup
  unread := by rw [h'.unread, h.unread]
  taken := by rw [h'.taken, h.taken, h.unread]

theorem Moved.trans_lost (h' : Lost m s' s'') : Lost m s s'' where
  toTook := h.trans_took h'.toTook
  inside := h'.inside
  content := h'.content.trans h.content
  size := h'.size.trans h.size
  unscanned := h'.unscanned.trans h.unscanned

theorem Moved.trans_grew (h' : Grew m s' s'') : Grew m s s'' where
  toTook := h.trans_took h'.toTook
  inside := h'.inside
  content := by rw [h'.content, h.content, h.unread]
  unscanned := by rw [h'.unscanned, h.unread, h.unscanned, h.size, delim, h.setup]

end

end JsonInput

/-- The first `m` bytes to come have been written behind the bytes in use,
    and nothing else has changed that matters here. -/
structure JsonInput.Behind (m : Nat) (s s' : JsonInput) : Prop extends Took m s s' where
  index : s'.input_buffer_index = s.input_buffer_index
  size : s'.input_buffer_size = s.input_buffer_size
  unscanned : s'.input_buffer_unscanned = s.input_buffer_unscanned
  buffer : s'.input_buffer =
    replace s.input_buffer (s.input_buffer_index + s.input_buffer_size) (s.unread.take m)

section behind
variable {m : Nat} {s s' : JsonInput}

theorem JsonInput.Behind.length (h : Behind m s s') (hi : s.Inside) (hm : m ≤ s.room) :
    s'.input_buffer.length = s.input_buffer.length := by
  have hin := hi.inside
  have hle : (s.unread.take m).length ≤ m := by simp
  unfold room at hm
  rw [h.buffer, length_replace (by omega)]

/-- The bytes in use are what they were. -/
theorem JsonInput.Behind.lost (h : Behind m s s') (hi : s.Inside) (hm : m ≤ s.room) :
    Lost m s s' where
  toTook := h.toTook
  inside := ⟨by rw [h.index, h.size, h.length hi hm]; exact hi.inside,
    by rw [h.unscanned, h.size]; exact hi.unscanned⟩
  content := by
    rw [content, h.buffer, h.index, h.size]
    exact slice_replace_left (le_refl _) hi.inside
  size := h.size
  unscanned := h.unscanned

/-- Nothing was there to be read. -/
theorem JsonInput.Lost.grew_nil (h : Lost m s s') (hnil : s.unread.take m = []) : Grew m s s' where
  toTook := h.toTook
  inside := h.inside
  content := by rw [h.content, hnil, List.append_nil]
  unscanned := by rw [if_pos hnil, h.unscanned]

/-- The bytes read are in use now. -/
theorem ensures_read_done (h : Behind m s s') (hi : s.Inside) (hm : m ≤ s.room)
    (hne : s.unread.take m ≠ []) {E : JsonInput → Prop} :
    Ensures (json_stream_read_done (s.unread.take m).length) s' (fun _ => Grew m s) E := by
  have hin := hi.inside
  have hlen : (s.unread.take m).length ≤ m := by simp
  have hroom : s.input_buffer_index + (s.input_buffer_size + (s.unread.take m).length) ≤
      s.input_buffer.length := by
    unfold room at hm
    omega
  refine ensures_modify_bind (ensures_pure ⟨⟨h.setup, h.unread, h.taken⟩, ⟨?_, ?_⟩, ?_, ?_⟩)
  · rw [h.index, h.size, h.length hi hm]
    exact hroom
  · dsimp only
    omega
  · show slice s'.input_buffer s'.input_buffer_index _ = _
    rw [h.buffer, h.index, h.size]
    exact slice_replace_append hi.inside
  · rw [if_neg hne, h.size, delim, h.setup]

end behind

theorem ensures_take_fds (env : StreamEnv) (fds : List Int) {Q : JsonInput → Prop}
    (hQ : ∀ input_fds closed, Q { s with input_fds := input_fds, closed := closed }) :
    Ensures (json_stream_take_fds env fds) s (fun _ => Q) Q := by
  refine ensures_get_bind ?_
  split
  · exact ensures_pure (hQ s.input_fds s.closed)
  · split
    · exact ensures_modify_bind (ensures_fail (hQ s.input_fds _))
    · split
      · exact ensures_modify_bind (ensures_fail (hQ s.input_fds _))
      · split
        · exact ensures_modify_bind (ensures_fail (hQ s.input_fds _))
        · exact ensures_modify (hQ _ s.closed)

/-- What is read is behind what was there before. -/
theorem ensures_receive (env : StreamEnv) (h : s.Inside) {rs : Nat} (hrs : rs ≤ s.room) :
    Ensures (json_stream_receive env rs) s
      (fun _ s' => ∃ m, m ≤ rs ∧ Grew m s s') (fun s' => ∃ m, m ≤ rs ∧ Lost m s s') := by
  have hsame : ∀ b d : Bool,
      Moved s { s with has_control_buffer := b, read_disconnected := d } := fun _ _ =>
    ⟨rfl, rfl, rfl, rfl, rfl, rfl, ⟨h.inside, h.unscanned⟩⟩
  refine ensures_get_bind (ensures_check_bind ⟨0, zero_le _, (Moved.refl h).lost⟩ fun _ =>
    ensures_modify_bind ?_)
  cases env.recv with
  | error e =>
    dsimp only
    split
    · exact ensures_pure ⟨0, zero_le _, (hsame _ s.read_disconnected).grew⟩
    · split
      · exact ensures_modify_bind (ensures_pure ⟨0, zero_le _, (hsame _ true).grew⟩)
      · exact ensures_fail ⟨0, zero_le _, (hsame _ s.read_disconnected).lost⟩
  | data k fds trunc ctrunc =>
    -- `m` is the number of bytes that the call took
    obtain ⟨m, hm, hbytes⟩ : ∃ m, m ≤ rs ∧ m = (s.available (min (k + 1) rs)).length :=
      ⟨_, (s.length_available _).trans (min_le_right _ _), rfl⟩
    have htake : s.available (min (k + 1) rs) = s.unread.take m := by
      rw [hbytes, available, List.length_take, ← List.take_eq_take_min]
    have hlen : (s.unread.take m).length = m := by rw [← htake, ← hbytes]
    have hbehind : ∀ (b d : Bool) (fds closed : List Int), Behind m s
        { (s.poke (s.unread.take m)).take (s.unread.take m).length with
          has_control_buffer := b, read_disconnected := d, input_fds := fds, closed := closed } := by
      intro b d fds closed
      rw [hlen]
      exact ⟨⟨rfl, rfl, rfl⟩, rfl, rfl, rfl, rfl⟩
    have hroom := hm.trans hrs
    dsimp only
    rw [htake]
    refine ensures_modify_bind ?_
    split
    · exact ensures_modify_bind (ensures_fail ⟨m, hm, (hbehind _ _ _ _).lost h hroom⟩)
    · refine ensures_modify_bind ?_
      split
      · next hempty =>
        refine ensures_modify_bind (ensures_pure ⟨m, hm, ?_⟩)
        exact ((hbehind _ true _ _).lost h hroom).grew_nil (by simpa using hempty)
      · next hne =>
        refine ensures_bind (R := fun _ s' => Behind m s s')
          (ensures_mono (ensures_take_fds env _ fun input_fds closed => ?_) (fun _ _ hb => hb)
            fun s' (hb : Behind m s s') => ⟨m, hm, hb.lost h hroom⟩) fun _ s' hb => ?_
        · exact hbehind _ _ input_fds closed
        · exact ensures_mono (ensures_read_done hb h hroom (by simpa using hne))
            (fun _ s'' hg => ⟨m, hm, hg⟩) fun _ hE => hE

/-- The room in the buffer once there is room. -/
def read_room (env : StreamEnv) (s : JsonInput) : Nat := (json_stream_make_room env s).2.room

/-- What the bytes taken must be where reads are bounded. -/
def Bounded (env : StreamEnv) (m : Nat) (s : JsonInput) : Prop :=
  s.setup.bounded_reads = true → Without s.delim s.content → ¬ Straddles env (read_room env s) s →
    StopsAt s.delim (s.content ++ s.unread.take m)

theorem bounded_zero (env : StreamEnv) (s : JsonInput) : Bounded env 0 s := fun _ hw _ => by
  simpa using hw.stopsAt

/-- A read as a whole. It takes nothing while there is something to scan. -/
theorem ensures_read (env : StreamEnv) (h : s.Inside) : Ensures (json_stream_read env) s
      (fun _ s' => ∃ m, Grew m s s' ∧ Bounded env m s ∧ (0 < m → s.input_buffer_unscanned = 0))
      (fun s' => ∃ m, Lost m s s' ∧ Bounded env m s ∧ (0 < m → s.input_buffer_unscanned = 0)) := by
  have hstay : ∃ m, Grew m s s ∧ Bounded env m s ∧ (0 < m → s.input_buffer_unscanned = 0) :=
    ⟨0, (Moved.refl h).grew, bounded_zero env s, fun hm => (lt_irrefl 0 hm).elim⟩
  refine ensures_get_bind ?_
  split
  · exact ensures_pure hstay
  · split
    · exact ensures_pure hstay
    · next hun =>
      split
      · exact ensures_pure hstay
      · have hun : s.input_buffer_unscanned = 0 := by omega
        have hfail : ∀ s', Moved s s' → ∃ m, Lost m s s' ∧ Bounded env m s ∧
            (0 < m → s.input_buffer_unscanned = 0) :=
          fun s' hs' => ⟨0, hs'.lost, bounded_zero env s, fun _ => hun⟩
        refine ensures_check_bind (hfail s (.refl h)) fun hmax => ?_
        simp only [decide_eq_true_eq] at hmax
        refine ensures_bind (ensures_mono (ensures_make_room env h hmax).run (fun _ _ hr => hr) hfail)
          fun _ s1 ⟨⟨hmoved, hpos⟩, hrun⟩ => ?_
        have hroom : read_room env s = s1.room := by rw [read_room, hrun]
        refine ensures_get_bind (ensures_bind (ensures_mono
          (ensures_peek env hmoved.inside (le_refl s1.room) hpos) (fun _ _ hr => hr)
          fun s2 hs2 => hfail s2 (hmoved.trans hs2)) fun rs s2 ⟨hmoved2, hsame, hrs, hstop⟩ => ?_)
        -- all this was said of the state after the buffer was moved
        have hstop : ∀ m, m ≤ rs → Bounded env m s := by
          intro m hm hb hw hs
          have hdelim : s1.delim = s.delim := by rw [delim, hmoved.setup]
          rw [hmoved.setup, hdelim, hmoved.content, hmoved.unread] at hstop
          have hs1 : ¬ Straddles env s1.room s1 := by
            rw [hroom] at hs
            unfold Straddles available at hs ⊢
            rwa [hdelim, hmoved.setup, hmoved.content, hmoved.unread]
          refine (hstop hb hw hs1).shorter s.setup.delim_ne ?_
          exact (List.prefix_append_right_inj _).mpr (List.take_prefix_take_left hm)
        have hall := hmoved.trans hmoved2
        have hrs' : rs ≤ s2.room := hsame ▸ hrs
        exact ensures_mono (ensures_receive env hmoved2.inside hrs')
          (fun _ s' ⟨m, hm, hg⟩ => ⟨m, hall.trans_grew hg, hstop m hm, fun _ => hun⟩)
          fun s' ⟨m, hm, ht⟩ => ⟨m, hall.trans_lost ht, hstop m hm, fun _ => hun⟩

end SdCompat.Json
