import SdCompat.SdJson.StreamRead

/-! # What a parse does, and bounded reads

    `json_stream_parse` finds the first delimiter in the bytes in use, though
    it only searches those that were not searched before, and takes the bytes
    up to it. With bounded reads nothing is in the buffer behind it then,
    unless a delimiter straddled.
-/

open Bytes Transition

namespace SdCompat.Json

open JsonInput Call Nat

variable {R : Type} [Double R]

/-! ## Section 1: Finding the delimiter -/

/-- The first place where the delimiter is. -/
def First (d l : List UInt8) (i : Nat) : Prop := d <+: l.drop i ∧ ∀ j < i, ¬ d <+: l.drop j

/-- The bytes that were searched already have no delimiter start in them. -/
def JsonInput.Scanned (s : JsonInput) : Prop :=
  ∀ j, j + s.input_buffer_unscanned < s.input_buffer_size → ¬ s.delim <+: s.content.drop j

section first
variable {d l l' : List UInt8} {i j : Nat}

theorem First.le (h : First d l i) (hd : d ≠ []) : i + d.length ≤ l.length := prefix_drop_le hd h.1

/-- The first delimiter stays the first when more bytes follow. -/
theorem First.append (h : First d l i) (hd : d ≠ []) : First d (l ++ l') i := by
  refine ⟨prefix_drop_append h.1 hd, fun j hj hp => h.2 j hj ?_⟩
  have := h.le hd
  exact prefix_drop_of_append hp (by omega)

theorem First.unique (h : First d l i) (h' : First d l j) : i = j := by
  rcases lt_trichotomy i j with hlt | heq | hgt
  · exact (h'.2 i hlt h.1).elim
  · exact heq
  · exact (h.2 j hgt h'.1).elim

theorem Without.not_first (h : Without d l) : ¬ First d l i := fun hf => h i hf.1

/-- Searching where it was not searched before finds the first delimiter. -/
theorem first_of_memmem {k : Nat} (hk : ∀ j < k, ¬ d <+: l.drop j)
    (hi : memmem_safe (l.drop k) d = some i) : First d l (k + i) := by
  constructor
  · have := memmem_safe_isPrefix hi
    rwa [List.drop_drop] at this
  · intro j hj hp
    by_cases hlt : j < k
    · exact hk j hlt hp
    · refine memmem_safe_first hi (j := j - k) (by omega) ?_
      rwa [List.drop_drop, Nat.add_sub_cancel' (Nat.le_of_not_lt hlt)]

theorem without_of_memmem {k : Nat} (hd : d ≠ []) (hk : ∀ j < k, ¬ d <+: l.drop j)
    (hi : memmem_safe (l.drop k) d = none) : Without d l := by
  intro j hp
  by_cases hlt : j < k
  · exact hk j hlt hp
  · refine memmem_safe_none hi hd (j - k) ?_
    rwa [List.drop_drop, Nat.add_sub_cancel' (Nat.le_of_not_lt hlt)]

end first

variable {s : JsonInput}

/-- Everything was searched. -/
theorem JsonInput.Scanned.without (h : s.Scanned) (hi : s.Inside)
    (hun : s.input_buffer_unscanned = 0) : Without s.delim s.content := by
  intro j hp
  have hle := prefix_drop_le s.setup.delim_ne hp
  have hpos := s.setup.delim_pos
  rw [hi.length_content] at hle
  exact h j (by omega) hp

/-! ## Section 2: The message in the buffer -/

section slice
variable {buf bs : List UInt8} {i n k : Nat}

/-- Bytes written before a part leave it as it is. -/
theorem slice_replace_right (h : k + bs.length ≤ i) (hi : i ≤ buf.length) :
    slice (replace buf k bs) i n = slice buf i n := by
  have hlen : (buf.take k ++ bs).length = k + bs.length := by
    rw [List.length_append, List.length_take, Nat.min_eq_left (by omega)]
  have hle : (buf.take k ++ bs).length ≤ i := by omega
  unfold slice replace
  rw [List.drop_append, List.drop_eq_nil_of_le hle, List.nil_append, List.drop_drop, hlen,
    Nat.add_sub_cancel' h]

/-- The part of a part. -/
theorem slice_drop (sz : Nat) : slice buf (i + sz) (n - sz) = (slice buf i n).drop sz := by
  rw [slice, slice, List.drop_take, List.drop_drop]

end slice

/-- A C string ends at its first NUL. -/
theorem cstring_append_nul (a b : List UInt8) : cstring (a ++ 0 :: b) = cstring a := by
  unfold cstring
  induction a with
  | nil => simp
  | cons c a ih =>
    by_cases hc : c = 0
    · simp [hc]
    · simpa [hc] using ih

theorem sd_json_parse_append_nul (a b : List UInt8) (flags : ParseFlags) :
    (sd_json_parse (a ++ 0 :: b) flags : Outcome (Variant R)) = sd_json_parse a flags := by
  unfold sd_json_parse
  rw [cstring_append_nul]

namespace JsonInput

/-- `sz` bytes have gone from the front of those in use, and the rest is to be
    searched. -/
structure Advanced (sz : Nat) (s s' : JsonInput) : Prop where
  setup : s'.setup = s.setup
  unread : s'.unread = s.unread
  taken : s'.taken = s.taken
  inside : s'.Inside
  content : s'.content = s.content.drop sz
  unscanned : s'.input_buffer_unscanned = s'.input_buffer_size

/-- What the parser is given, where the delimiter is at `e`. -/
def message (e : Nat) (s : JsonInput) : List UInt8 :=
  (if s.setup.delimiter.isSome then replace s.input_buffer (s.input_buffer_index + e) [0]
    else s.input_buffer).drop s.input_buffer_index

variable {s : JsonInput}

/-- The parser is given the bytes before the delimiter, and a NUL. -/
theorem message_eq (h : s.Inside) {e : Nat} (hf : First s.delim s.content e) :
    ∃ t, s.message e = s.content.take e ++ 0 :: t := by
  have hle := hf.le s.setup.delim_ne
  rw [h.length_content] at hle
  have hidx : (s.input_buffer.take s.input_buffer_index).length = s.input_buffer_index := by
    have := h.inside
    rw [List.length_take]
    omega
  have hdrop : s.input_buffer.drop s.input_buffer_index =
      s.content ++ s.input_buffer.drop (s.input_buffer_index + s.input_buffer_size) := by
    rw [content, slice, ← List.drop_drop, List.take_append_drop]
  unfold message
  cases hdel : s.setup.delimiter with
  | none =>
    -- the delimiter is a NUL itself
    have hd : s.delim = [0] := by rw [delim, StreamSetup.delim, hdel]
    obtain ⟨t, ht⟩ := hf.1
    rw [hd] at ht
    refine ⟨t ++ s.input_buffer.drop (s.input_buffer_index + s.input_buffer_size), ?_⟩
    rw [Option.isSome_none, if_neg Bool.false_ne_true, hdrop]
    conv_lhs => rw [← List.take_append_drop e s.content, ← ht]
    simp
  | some d =>
    rw [Option.isSome_some, if_pos rfl]
    unfold replace
    rw [List.take_add, List.append_assoc, List.append_assoc, List.drop_append,
      List.drop_eq_nil_of_le (Nat.le_of_eq hidx), List.nil_append, hidx, Nat.sub_self,
      List.drop_zero, hdrop, List.take_append_of_le_length (by rw [h.length_content]; omega)]
    exact ⟨_, rfl⟩

/-- The memory of the message may have been written over: the rest is what it
    was. -/
theorem Advanced.of_buffer (h : s.Inside) {sz : Nat} (hle : sz ≤ s.input_buffer_size)
    {buf : List UInt8} (hlen : buf.length = s.input_buffer.length)
    (hbuf : ∀ n, slice buf (s.input_buffer_index + sz) n = slice s.input_buffer (s.input_buffer_index + sz) n) :
    Advanced sz s (JsonInput.advance sz { s with input_buffer := buf }) := by
  have hin := h.inside
  refine ⟨rfl, rfl, rfl, ⟨?_, le_refl _⟩, ?_, rfl⟩
  · show (if s.input_buffer_size - sz = 0 then 0 else s.input_buffer_index + sz) +
      (s.input_buffer_size - sz) ≤ buf.length
    split
    · omega
    · omega
  · show slice buf (if s.input_buffer_size - sz = 0 then 0 else s.input_buffer_index + sz)
      (s.input_buffer_size - sz) = s.content.drop sz
    have hc : s.content.drop sz =
        slice buf (s.input_buffer_index + sz) (s.input_buffer_size - sz) := by
      rw [hbuf, slice_drop, JsonInput.content]
    rw [hc]
    split
    · next hz => simp [hz, slice]
    · rfl

/-- All that was buffered is dropped. -/
structure Dropped (s s' : JsonInput) : Prop where
  setup : s'.setup = s.setup
  unread : s'.unread = s.unread
  taken : s'.taken = s.taken
  inside : s'.Inside
  content : s'.content = []
  unscanned : s'.input_buffer_unscanned = 0

end JsonInput

/-- The four ways a parse can end. -/
inductive Parses (s : JsonInput) : Outcome (Option (Variant R)) × JsonInput → Prop where
  /-- There is no delimiter, and all is searched now. -/
  | waits {s' : JsonInput} (hw : Without s.delim s.content)
      (hs : Moved { s with input_buffer_unscanned := 0 } s') : Parses s (.ok none, s')
  /-- There is a message, which was taken from the buffer. -/
  | message {s' : JsonInput} {e : Nat} {v : Variant R} (hf : First s.delim s.content e)
      (hv : sd_json_parse (s.content.take e) MUST_BE_OBJECT = .ok v)
      (hs : Advanced (e + s.delim.length) s s') : Parses s (.ok (some v), s')
  /-- There is a message, and it was rejected. -/
  | rejected {s' : JsonInput} {e : Nat} {err : Errno} (hf : First s.delim s.content e)
      (hv : (sd_json_parse (s.content.take e) MUST_BE_OBJECT : Outcome (Variant R)) = .err err)
      (hs : Dropped s s') : Parses s (.err err, s')
  /-- The parser itself aborted. -/
  | aborted {s' : JsonInput} {e : Nat} (hf : First s.delim s.content e)
      (hv : (sd_json_parse (s.content.take e) MUST_BE_OBJECT : Outcome (Variant R)) = .abort)
      (hs : s'.setup = s.setup ∧ s'.unread = s.unread ∧ s'.taken = s.taken) : Parses s (.abort, s')

theorem parses (h : s.Inside) (hs : s.Scanned) : Parses s (json_stream_parse (R := R) s) := by
  have hd := s.setup.delim_ne
  have hin := h.inside
  unfold json_stream_parse
  rw [get_bind_run]
  by_cases hun : s.input_buffer_unscanned = 0
  · rw [if_pos hun]
    refine .waits (hs.without h hun) ?_
    exact ⟨rfl, rfl, hun, rfl, rfl, rfl, h⟩
  rw [if_neg hun, if_neg (by have := h.unscanned; omega)]
  have hscanned : ∀ j < s.input_buffer_size - s.input_buffer_unscanned,
      ¬ s.delim <+: s.content.drop j := fun j hj => hs j (by omega)
  cases hm : memmem_safe (s.content.drop (s.input_buffer_size - s.input_buffer_unscanned)) s.delim with
  | none =>
    refine .waits (without_of_memmem hd hscanned hm) ?_
    exact ⟨rfl, rfl, rfl, rfl, rfl, rfl, ⟨hin, zero_le _⟩⟩
  | some i =>
    have hf := first_of_memmem hscanned hm
    dsimp only
    generalize s.input_buffer_size - s.input_buffer_unscanned + i = e at hf
    have hle := hf.le hd
    rw [h.length_content] at hle
    obtain ⟨t, ht⟩ := message_eq h hf
    have hparse : (sd_json_parse (s.message e) MUST_BE_OBJECT : Outcome (Variant R)) =
        sd_json_parse (s.content.take e) MUST_BE_OBJECT := by
      rw [ht, sd_json_parse_append_nul]
    have hmsg : (if s.setup.delimiter.isSome then
        replace s.input_buffer (s.input_buffer_index + e) [0] else s.input_buffer).drop
          s.input_buffer_index = s.message e := rfl
    rw [modify_bind_run, get_bind_run, modify_bind_run]
    rw [hmsg, hparse]
    -- the buffer after the delimiter was made a NUL, and after it was erased
    generalize hb1 : (if s.setup.delimiter.isSome then
      replace s.input_buffer (s.input_buffer_index + e) [0] else s.input_buffer) = buf1
    generalize hb2 : (if s.setup.input_sensitive then
      replace buf1 s.input_buffer_index (List.replicate (e + s.delim.length) 0) else buf1) = buf2
    have hpos : 0 < s.delim.length := s.setup.delim_pos
    have hlen1 : buf1.length = s.input_buffer.length := by
      rw [← hb1]
      split
      · exact length_replace (by simp; omega)
      · rfl
    have hlen2 : buf2.length = s.input_buffer.length := by
      rw [← hb2]
      split
      · rw [length_replace (by simp; omega), hlen1]
      · exact hlen1
    cases hv : (sd_json_parse (s.content.take e) MUST_BE_OBJECT : Outcome (Variant R)) with
    | ok v =>
      refine .message hf hv (Advanced.of_buffer h hle hlen2 fun n => ?_)
      have h1 : slice buf1 (s.input_buffer_index + (e + s.delim.length)) n =
          slice s.input_buffer (s.input_buffer_index + (e + s.delim.length)) n := by
        rw [← hb1]
        split
        · exact slice_replace_right (by simp; omega) (by omega)
        · rfl
      rw [← h1, ← hb2]
      split
      · exact slice_replace_right (by simp) (by omega)
      · rfl
    | err err =>
      refine .rejected hf hv ⟨rfl, rfl, rfl, ⟨zero_le _, zero_le _⟩, ?_, rfl⟩
      show slice _ 0 0 = []
      simp [slice]
    | abort => exact .aborted hf hv ⟨rfl, rfl, rfl⟩

/-! ## Section 3: Runs -/

/-- The calls on the reading side, with what they meet. -/
inductive InputCall where
  | read (env : StreamEnv)
  | parse

/-- A stream that is read from and parsed, in any order. A call that aborts
    ends the process. -/
def input_system (R : Type) [Double R] : System JsonInput InputCall where
  init s := s.input_buffer = [] ∧ s.input_buffer_index = 0 ∧ s.input_buffer_size = 0 ∧
    s.input_buffer_unscanned = 0 ∧ s.taken = []
  step s l s' :=
    match l with
    | .read env => (json_stream_read env s).1 ≠ .abort ∧ s' = (json_stream_read env s).2
    | .parse => (json_stream_parse (R := R) s).1 ≠ .abort ∧ s' = (json_stream_parse (R := R) s).2

namespace JsonInput

/-- What every call keeps: nothing that was searched needs to be searched
    again. -/
structure Searched (s : JsonInput) : Prop where
  inside : s.Inside
  scanned : s.Scanned

variable {s : JsonInput}

theorem Searched.without (h : s.Searched) (hun : s.input_buffer_unscanned = 0) :
    Without s.delim s.content :=
  h.scanned.without h.inside hun

variable {s' : JsonInput}

/-- More bytes came: only the last of the old ones, fewer than the delimiter
    has, can be the start of one. -/
theorem Searched.grew {m : Nat} (h : s.Searched) (hg : Grew m s s')
    (hun : 0 < m → s.input_buffer_unscanned = 0) : s'.Searched := by
  refine ⟨hg.inside, fun j hj hp => ?_⟩
  have hlen := hg.inside.length_content
  have hlen0 := h.inside.length_content
  have hdelim : s'.delim = s.delim := by rw [delim, hg.setup]
  rw [hg.content, List.length_append] at hlen
  rw [hdelim, hg.content] at hp
  have hun' := hg.unscanned
  split at hun'
  · next hnil =>
    -- nothing came
    rw [hnil, List.append_nil] at hp
    rw [hnil, List.length_nil] at hlen
    exact h.scanned j (by omega) hp
  · next hne =>
    have hm : 0 < m := by
      rcases Nat.eq_zero_or_pos m with rfl | hm
      · exact (hne (by simp)).elim
      · exact hm
    refine h.without (hun hm) j (prefix_drop_of_append hp ?_)
    omega

theorem Searched.advanced {sz : Nat} (h : Advanced sz s s') : s'.Searched :=
  ⟨h.inside, fun j hj => by rw [h.unscanned] at hj; omega⟩

theorem Searched.dropped (h : Dropped s s') : s'.Searched := by
  refine ⟨h.inside, fun j _ hp => ?_⟩
  have hle := prefix_drop_le s'.setup.delim_ne hp
  have hpos := s'.setup.delim_pos
  rw [h.content, List.length_nil] at hle
  omega

end JsonInput

/-! ## Section 4: Bounded reads -/

/-- Bytes are taken from the socket that lie behind the delimiter of the
    message being read. -/
def Overruns (s s' : JsonInput) : Prop :=
  ∃ bytes i, s'.taken = s.taken ++ bytes ∧ s.delim <+: (s.content ++ bytes).drop i ∧
    i + s.delim.length < (s.content ++ bytes).length

/-- No call peeks at the rest of a delimiter whose start is buffered, and at
    more than that. -/
def NoStraddle (s : JsonInput) : InputCall → Prop
  | .read env => ¬ Straddles env (read_room env s) s
  | .parse => True

theorem JsonInput.Searched.lost {m : Nat} {s' : JsonInput} (h : s.Searched) (hl : Lost m s s') :
    s'.Searched := by
  refine ⟨hl.inside, fun j hj => ?_⟩
  rw [delim, hl.setup, hl.content]
  rw [hl.unscanned, hl.size] at hj
  exact h.scanned j hj

section bounded
variable {s s' : JsonInput} {l : InputCall}

variable {env : StreamEnv}

/-- What a read takes, and that it is in the buffer or lost. -/
theorem read_step (h : s.Searched) (hst : (input_system R).step s (.read env) s') :
    ∃ m, Bounded env m s ∧ (0 < m → s.input_buffer_unscanned = 0) ∧
      (Grew m s s' ∨ (∃ e, (json_stream_read env s).1 = .err e) ∧ Lost m s s') := by
  have hens := ensures_read env h.inside
  unfold Ensures at hens
  obtain ⟨-, rfl⟩ := hst
  match hr : json_stream_read env s with
  | (.ok a, s1) =>
    rw [hr] at hens
    obtain ⟨m, hg, hb, hun⟩ := hens
    exact ⟨m, hb, hun, .inl hg⟩
  | (.err e, s1) =>
    rw [hr] at hens
    obtain ⟨m, hl, hb, hun⟩ := hens
    exact ⟨m, hb, hun, .inr ⟨⟨e, rfl⟩, hl⟩⟩
  | (.abort, s1) =>
    rw [hr] at hens
    exact hens.elim

/-- What a parse leaves in the buffer: what was there, the part behind a
    message, or nothing. -/
theorem parse_step (h : s.Searched) (hst : (input_system R).step s .parse s') :
    s'.setup = s.setup ∧ s'.taken = s.taken ∧ s'.unread = s.unread ∧ s'.Searched ∧
      (s'.content = s.content ∧ Without s.delim s.content ∨
        (∃ e, First s.delim s.content e ∧ s'.content = s.content.drop (e + s.delim.length)) ∨
        s'.content = []) := by
  obtain ⟨hab, rfl⟩ := hst
  have hp := parses (R := R) h.inside h.scanned
  generalize json_stream_parse (R := R) s = r at hab hp
  cases hp with
  | waits hw hs =>
    refine ⟨hs.setup, hs.taken, hs.unread, ⟨hs.inside, fun j _ => ?_⟩, .inl ⟨hs.content, hw⟩⟩
    rw [delim, hs.setup, hs.content]
    exact hw j
  | message hf hv hs =>
    exact ⟨hs.setup, hs.taken, hs.unread, .advanced hs, .inr (.inl ⟨_, hf, hs.content⟩)⟩
  | rejected hf hv hs =>
    exact ⟨hs.setup, hs.taken, hs.unread, .dropped hs, .inr (.inr hs.content)⟩
  | aborted => exact (hab rfl).elim

/-- The invariant of bounded reads: nothing follows the delimiter in the
    buffer. -/
structure Stopped (s : JsonInput) : Prop where
  searched : s.Searched
  bounded : s.setup.bounded_reads = true → StopsAt s.delim s.content

theorem Stopped.init (h : (input_system R).init s) : Stopped s := by
  obtain ⟨hbuf, hidx, hsize, hun, -⟩ := h
  have hc : s.content = [] := by rw [content, hsize]; simp [slice]
  have hi : s.Inside := ⟨by simp [hidx, hsize], by simp [hun]⟩
  have hw : Without s.delim s.content := by
    intro j hp
    have hle := prefix_drop_le s.setup.delim_ne hp
    have hpos := s.setup.delim_pos
    rw [hc, List.length_nil] at hle
    omega
  exact ⟨⟨hi, fun j _ => hw j⟩, fun _ => hw.stopsAt⟩

/-- With a delimiter at its very end, what is in the buffer is one message. -/
theorem StopsAt.drop_first {d l : List UInt8} {e : Nat} (h : StopsAt d l) (hf : First d l e) :
    l.drop (e + d.length) = [] :=
  List.drop_eq_nil_of_le (le_of_eq (h e hf.1).symm)

/-- A read that does not meet a straddling delimiter. -/
theorem Stopped.read (h : Stopped s) (hs : ¬ Straddles env (read_room env s) s)
    (hst : (input_system R).step s (.read env) s') : Stopped s' ∧
      (s.setup.bounded_reads = true → ¬ Overruns s s') := by
  obtain ⟨m, hb, hun, hgl⟩ := read_step h.searched hst
  -- what was in the buffer together with what was taken
  have hstop : s.setup.bounded_reads = true → StopsAt s.delim (s.content ++ s.unread.take m) := by
    intro hbounded
    rcases Nat.eq_zero_or_pos m with rfl | hm
    · simpa using h.bounded hbounded
    · exact hb hbounded (h.searched.without (hun hm)) hs
  have htook : Took m s s' := by
    rcases hgl with hg | ⟨-, hl⟩
    · exact hg.toTook
    · exact hl.toTook
  refine ⟨?_, fun hbounded ⟨bytes, i, htaken, hp, hlt⟩ => ?_⟩
  · rcases hgl with hg | ⟨-, hl⟩
    · refine ⟨h.searched.grew hg hun, fun hbounded => ?_⟩
      rw [delim, hg.setup, hg.content]
      rw [hg.setup] at hbounded
      exact hstop hbounded
    · refine ⟨h.searched.lost hl, fun hbounded => ?_⟩
      rw [delim, hl.setup, hl.content]
      rw [hl.setup] at hbounded
      exact h.bounded hbounded
  · rw [htook.taken, List.append_cancel_left_eq] at htaken
    rw [← htaken] at hp hlt
    have := hstop hbounded i hp
    omega

/-- A parse. -/
theorem Stopped.parse (h : Stopped s) (hst : (input_system R).step s .parse s') : Stopped s' ∧
    (s.setup.bounded_reads = true → ¬ Overruns s s' ∧ (s'.content = s.content ∨ s'.content = [])) := by
  obtain ⟨hsetup, htaken, -, hsearched, hcontent⟩ := parse_step h.searched hst
  have hrest : s.setup.bounded_reads = true →
      s'.content = s.content ∧ Without s.delim s.content ∨ s'.content = [] := by
    intro hbounded
    rcases hcontent with hsame | ⟨e, hf, hc⟩ | hnil
    · exact .inl hsame
    · exact .inr (hc.trans ((h.bounded hbounded).drop_first hf))
    · exact .inr hnil
  refine ⟨⟨hsearched, fun hbounded => ?_⟩, fun hbounded => ⟨?_, (hrest hbounded).imp_left And.left⟩⟩
  · rw [hsetup] at hbounded
    rw [delim, hsetup]
    rcases hrest hbounded with ⟨hc, hw⟩ | hc
    · rw [hc]
      exact hw.stopsAt
    · rw [hc]
      intro i hp
      have hle := prefix_drop_le s.setup.delim_ne hp
      have hpos := s.setup.delim_pos
      rw [List.length_nil] at hle
      omega
  · rintro ⟨bytes, i, ht, hp, hlt⟩
    rw [htaken, List.self_eq_append_right] at ht
    rw [ht, List.append_nil] at hp hlt
    have := h.bounded hbounded i hp
    omega

theorem stopped_of_reachable (h : Reachable ((input_system R).restrict NoStraddle) s) :
    Stopped s := by
  refine Reachable.invariant (S := (input_system R).restrict NoStraddle)
    (fun _ hi => Stopped.init (R := R) hi) (fun s l s' hs hst => ?_) h
  cases l with
  | read env => exact (hs.read hst.1 hst.2).1
  | parse => exact (hs.parse hst.2).1

end bounded

/-- **Bounded reads stop at the delimiter**: in a run in which no read peeks
    at the rest of a delimiter whose start is buffered, and at more, no byte
    behind the delimiter of the message being read is taken from the socket;
    so that when a message is taken from the buffer, nothing is left in it. -/
theorem bounded_read_stops {s s' : JsonInput} {l : InputCall}
    (hr : Reachable ((input_system R).restrict NoStraddle) s)
    (hst : ((input_system R).restrict NoStraddle).step s l s')
    (hb : s.setup.bounded_reads = true) :
    ¬ Overruns s s' ∧ (l = .parse → s'.content = s.content ∨ s'.content = []) := by
  have hs := stopped_of_reachable hr
  cases l with
  | read env => exact ⟨(hs.read hst.1 hst.2).2 hb, fun h => InputCall.noConfusion h⟩
  | parse =>
    have hp := (hs.parse hst.2).2 hb
    exact ⟨hp.1, fun _ => hp.2⟩

/-! ### A delimiter that straddles -/

section straddle

theorem buffer_max_64_pos : 0 < 64 := by decide

theorem read_chunk_16_pos : 0 < 16 := by decide

theorem no_delimiter_nul (d : List UInt8) (hd : none = some d) : 0 ∉ d := by cases hd

/-- A bounded stream with the delimiter `"\r\n"`; the socket will have an
    empty object, and one byte of another protocol. -/
def straddle_start : JsonInput where
  setup :=
    { delimiter := some crlf, buffer_max := 64, read_chunk := 16, bounded_reads := true,
      prefer_read := false, input_sensitive := false, allow_fd_passing := false,
      buffer_max_pos := buffer_max_64_pos, read_chunk_pos := read_chunk_16_pos,
      delimiter_nul := fun d hd => by
        obtain rfl : crlf = d := Option.some.inj hd
        decide }
  connecting := false
  read_disconnected := false
  input_buffer := []
  input_buffer_index := 0
  input_buffer_size := 0
  input_buffer_unscanned := 0
  has_control_buffer := false
  input_fds := []
  unread := [123, 125, 13, 10, 88]
  taken := []
  closed := []

/-- `k + 1` bytes have arrived. -/
def arrived (k : Nat) : StreamEnv where
  grow := some []
  peek := .data k [] false false
  control_mem := true
  fds_mem := true
  recv := .data k [] false false

/-- The object and the first byte of the delimiter have been read. -/
def straddle_read : JsonInput := (json_stream_read (arrived 2) straddle_start).2

/-- The parser has found no delimiter yet. -/
def straddle_parsed : JsonInput := (json_stream_parse (R := Float) straddle_read).2

theorem straddle_reachable : Reachable (input_system Float) straddle_parsed := by
  have h0 : Reachable (input_system Float) straddle_start := .init ⟨rfl, rfl, rfl, rfl, rfl⟩
  have h1 : Reachable (input_system Float) straddle_read :=
    h0.step (a := .read (arrived 2)) ⟨by decide +kernel, rfl⟩
  exact h1.step (a := .parse) ⟨(fun h => by cases h), rfl⟩

/-- The rest of the delimiter arrives together with the byte behind it, and
    both are taken. -/
theorem straddle_overruns : ¬ ∀ (s s' : JsonInput) (l : InputCall),
    Reachable (input_system Float) s → (input_system Float).step s l s' →
    s.setup.bounded_reads = true → ¬ Overruns s s' := by
  intro h
  refine h straddle_parsed (json_stream_read (arrived 1) straddle_parsed).2 (.read (arrived 1))
    straddle_reachable ⟨by decide +kernel, rfl⟩ rfl ?_
  exact ⟨[10, 88], 2, by decide +kernel, by decide +kernel, by decide +kernel⟩

end straddle

/-- A run that keeps clear of it: the whole delimiter arrives at once, with a
    byte behind it, which stays in the socket. -/
theorem bounded_read_stops_one :
    ¬ Overruns straddle_start (json_stream_read (arrived 4) straddle_start).2 ∧
      (json_stream_read (arrived 4) straddle_start).2.unread = [88] := by
  have hns : ¬ Straddles (arrived 4) (read_room (arrived 4) straddle_start) straddle_start := by
    rintro ⟨-, -, k, fds, trunc, ctrunc, -, i, hi, -⟩
    exact not_lt_zero i hi
  have hst : ((input_system Float).restrict NoStraddle).step straddle_start (.read (arrived 4))
      (json_stream_read (arrived 4) straddle_start).2 :=
    ⟨hns, by decide +kernel, rfl⟩
  exact ⟨(bounded_read_stops (R := Float) (.init ⟨rfl, rfl, rfl, rfl, rfl⟩) hst rfl).1,
    by decide +kernel⟩

end SdCompat.Json
