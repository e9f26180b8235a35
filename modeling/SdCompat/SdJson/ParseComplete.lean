import SdCompat.SdJson.ParseSound

/-! # The JSON parser and the grammar

    The text of a value brings the parser from expecting it to what is
    expected after it, so `sd_json_parse` accepts the texts of the grammar. The
    last section has that it comes to an end on every text, without failing an
    assertion.
-/

namespace SdCompat.Json

open List Outcome Nat Number Variant

variable {R : Type} [Double R]

/-! ## Section 1: What is in the grammar is accepted -/

/-- What may follow a value: whitespace, a comma or a closing bracket, or
    nothing. -/
def Follows (rest : List UInt8) : Prop :=
  ∀ c ∈ rest.head?, is_whitespace c = true ∨ c = 44 ∨ c = 93 ∨ c = 125

/-- A number ends there. -/
theorem Follows.numberEnds {rest : List UInt8} (h : Follows rest) : NumberEnds rest := by
  have hall : ∀ c : UInt8, (is_whitespace c = true ∨ c = 44 ∨ c = 93 ∨ c = 125) →
      is_digit c = false ∧ c ≠ 46 ∧ c ≠ 101 ∧ c ≠ 69 := fun c =>
    forall_byte (P := fun c => (is_whitespace c = true ∨ c = 44 ∨ c = 93 ∨ c = 125) →
      is_digit c = false ∧ c ≠ 46 ∧ c ≠ 101 ∧ c ≠ 69) (by decide +kernel) c
  exact fun c hc => hall c (h c hc)

variable {w : List UInt8}

theorem Follows.ws (h : Ws w) : Follows w :=
  fun c hc => .inl (h c (mem_of_mem_head? hc))

theorem Follows.punctuation (h : Ws w) {c : UInt8} (hc : c = 44 ∨ c = 93 ∨ c = 125)
    (rest : List UInt8) : Follows (w ++ c :: rest) := by
  intro b hb
  cases w with
  | nil =>
    obtain rfl : c = b := by simpa using hb
    exact .inr hc
  | cons a w =>
    obtain rfl : a = b := by simpa using hb
    exact .inl (h a (by simp))

/-- The elements of an array are less deep than the array. -/
theorem shallow_of_depth {l : List (Variant R)} (h : depth_elements l ≤ DEPTH_MAX) : Shallow l := by
  induction l with
  | nil => simp [Shallow]
  | cons v l ih =>
    rw [depth_elements] at h
    intro w hw
    rcases mem_cons.mp hw with rfl | hw
    · omega
    · exact ih (by omega) w hw

/-- The values of an object are less deep than the object. -/
theorem shallow_of_pairs_depth {l : List (List UInt8 × Variant R)}
    (h : depth_pairs l ≤ DEPTH_MAX) : Shallow (l.map (·.2)) := by
  induction l with
  | nil => simp [Shallow]
  | cons m l ih =>
    rw [depth_pairs] at h
    intro w hw
    rcases mem_cons.mp hw with rfl | hw
    · exact lt_of_lt_of_le (lt_succ_self _) (le_trans (le_max_left _ _) h)
    · exact ih (by omega) w hw

section complete
variable {flags : ParseFlags} {v : Variant R}

variable {state : TokenizerState} {w : List UInt8}

/-- The run goes on the same after whitespace. -/
theorem Accepts.ws {p : List UInt8} {stack : List (JsonStack R)} (h : Accepts flags p state stack v)
    (hw : Ws w) : Accepts flags (w ++ p) state stack v := by
  cases h with
  | done ht h => exact .done (by rw [tokenize_ws hw]; exact ht) h
  | more ht h hmore => exact .more (by rw [tokenize_ws hw]; exact ht) h hmore

variable {below : List (JsonStack R)} {e : JsonExpect} {els : List (Variant R)} {rest : List UInt8}

/-- The run over the opening bracket of an array. -/
theorem accepts_array_open (hw : Ws w) (htakes : e.takes_value = true)
    (hallow : below = [] → (!flags.must_be_array && flags.must_be_object) = false)
    (hd : below.length + 1 ≤ DEPTH_MAX)
    (h : Accepts flags rest .STATE_VALUE (⟨.EXPECT_ARRAY_FIRST_ELEMENT, []⟩ :: ⟨e.after, els⟩ :: below) v) :
    Accepts flags (w ++ 91 :: rest) .STATE_VALUE (⟨e, els⟩ :: below) v :=
  .more (tokenize_value_punctuation .array_open hw rfl rfl)
    (open_eq_ok.mpr ⟨htakes, hallow, hd, rfl⟩) h

/-- The run over the opening bracket of an object. -/
theorem accepts_object_open (hw : Ws w) (htakes : e.takes_value = true)
    (hallow : below = [] → (flags.must_be_array && !flags.must_be_object) = false)
    (hd : below.length + 1 ≤ DEPTH_MAX)
    (h : Accepts flags rest .STATE_VALUE (⟨.EXPECT_OBJECT_FIRST_KEY, []⟩ :: ⟨e.after, els⟩ :: below) v) :
    Accepts flags (w ++ 123 :: rest) .STATE_VALUE (⟨e, els⟩ :: below) v :=
  .more (tokenize_value_punctuation .object_open hw rfl rfl)
    (open_eq_ok.mpr ⟨htakes, hallow, hd, rfl⟩) h

variable {outer : JsonStack R}

/-- The run over the closing bracket of an array, after an element or not. -/
theorem accepts_array_close (he : e = .EXPECT_ARRAY_FIRST_ELEMENT ∨ e = .EXPECT_ARRAY_COMMA)
    (hels : Shallow els)
    (h : Accepts flags rest .STATE_VALUE_POST (json_stack_add outer (.array els) :: below) v) :
    Accepts flags (93 :: rest) state (⟨e, els⟩ :: outer :: below) v := by
  have ht : json_tokenize (93 :: rest) state =
      .ok ((.array_close : Token R), .STATE_VALUE_POST, rest) := by
    cases state with
    | STATE_VALUE => exact tokenize_value_punctuation .array_close Ws.nil rfl rfl
    | STATE_VALUE_POST => exact tokenize_post_punctuation .array_close Ws.nil rfl rfl
  refine .more ht (close_eq_ok.mpr ⟨he, outer, below, .array els, rfl, ?_, rfl⟩) h
  rw [new_array_eq, if_pos hels]

/-- The run over the closing bracket of an object, after a member or not. -/
theorem accepts_object_close {l : List (List UInt8 × Variant R)}
    (he : e = .EXPECT_OBJECT_FIRST_KEY ∨ e = .EXPECT_OBJECT_COMMA) (hl : Shallow (l.map (·.2)))
    (h : Accepts flags rest .STATE_VALUE_POST (json_stack_add outer (.object l) :: below) v) :
    Accepts flags (125 :: rest) state (⟨e, flat l⟩ :: outer :: below) v := by
  have ht : json_tokenize (125 :: rest) state =
      .ok ((.object_close : Token R), .STATE_VALUE_POST, rest) := by
    cases state with
    | STATE_VALUE => exact tokenize_value_punctuation .object_close Ws.nil rfl rfl
    | STATE_VALUE_POST => exact tokenize_post_punctuation .object_close Ws.nil rfl rfl
  refine .more ht (close_eq_ok.mpr ⟨he, outer, below, .object l, rfl, ?_, rfl⟩) h
  rw [new_object_flat, if_pos hl]

/-- The run over a comma and the whitespace before it. -/
theorem accepts_comma {e' : JsonExpect} (hw : Ws w)
    (he : e = .EXPECT_ARRAY_COMMA ∧ e' = .EXPECT_ARRAY_NEXT_ELEMENT ∨ e = .EXPECT_OBJECT_COMMA ∧ e' = .EXPECT_OBJECT_NEXT_KEY)
    (h : Accepts flags rest .STATE_VALUE (⟨e', els⟩ :: below) v) :
    Accepts flags (w ++ 44 :: rest) .STATE_VALUE_POST (⟨e, els⟩ :: below) v := by
  refine .more (tokenize_post_punctuation .comma hw rfl rfl) ?_ h
  rcases he with ⟨rfl, rfl⟩ | ⟨rfl, rfl⟩
  · rfl
  · rfl

/-- The run over a key and the colon after it. -/
theorem accepts_key {k w' key : List UInt8} (hw : Ws w) (hk : StringText k key) (hw' : Ws w')
    (he : e = .EXPECT_OBJECT_FIRST_KEY ∨ e = .EXPECT_OBJECT_NEXT_KEY)
    (h : Accepts flags rest .STATE_VALUE (⟨.EXPECT_OBJECT_VALUE, els ++ [.string key]⟩ :: outer :: below) v) :
    Accepts flags (w ++ (k ++ (w' ++ 58 :: rest))) .STATE_VALUE (⟨e, els⟩ :: outer :: below) v := by
  have hvalid : utf8_is_valid key = true := by
    obtain ⟨body, -, hbody⟩ := hk
    exact hbody.valid
  have hcolon : Accepts flags (w' ++ 58 :: rest) .STATE_VALUE_POST
      (⟨.EXPECT_OBJECT_COLON, els ++ [.string key]⟩ :: outer :: below) v :=
    .more (tokenize_post_punctuation .colon hw' rfl rfl) rfl h
  refine .more (tokenize_string hw hk) ?_ hcolon
  rw [json_parse_token]
  refine scalar_eq_ok.mpr ⟨?_, fun hb => (by cases hb), .string key, new_string_eq_ok.mpr ⟨hvalid, rfl⟩, ?_⟩
  · rcases he with rfl | rfl
    · rfl
    · rfl
  · rcases he with rfl | rfl
    · rfl
    · rfl

mutual
/-- The text of a value brings the parser to what is expected after it. -/
theorem Value.accepts {d : Nat} {t : List UInt8} {x : Variant R} (h : Value d t x)
    {w rest : List UInt8} {e : JsonExpect} {els : List (Variant R)} {below : List (JsonStack R)}
    (hw : Ws w) (hrest : Follows rest) (hd : d + below.length ≤ DEPTH_MAX)
    (htakes : e.takes_value = true) (hallow : below = [] → Allowed flags x)
    (hgo : Accepts flags rest .STATE_VALUE_POST (⟨e.after, els ++ [x]⟩ :: below) v) :
    Accepts flags (w ++ (t ++ rest)) .STATE_VALUE (⟨e, els⟩ :: below) v := by
  cases h with
  | null =>
    exact .more (tokenize_literal .null hw (by simp))
      (scalar_eq_ok.mpr ⟨htakes, hallow, _, rfl, rfl⟩) hgo
  | true =>
    exact .more (tokenize_literal (.boolean Bool.true) hw (by simp))
      (scalar_eq_ok.mpr ⟨htakes, hallow, _, rfl, rfl⟩) hgo
  | false =>
    exact .more (tokenize_literal (.boolean Bool.false) hw (by simp))
      (scalar_eq_ok.mpr ⟨htakes, hallow, _, rfl, rfl⟩) hgo
  | @string _ _ s hs =>
    refine .more (tokenize_string hw hs) ?_ hgo
    obtain ⟨body, -, hbody⟩ := hs
    rw [json_parse_token]
    exact scalar_eq_ok.mpr ⟨by simp [htakes], hallow, .string s, new_string_eq_ok.mpr ⟨hbody.valid, rfl⟩, rfl⟩
  | number hn =>
    refine .more (tokenize_number hw hn hrest.numberEnds) ?_ hgo
    rw [parse_token_number]
    exact scalar_eq_ok.mpr ⟨htakes, fun hb => (allowed_number _).mp (hallow hb), _, rfl, rfl⟩
  | array_empty hw' =>
    rw [append_assoc, cons_append]
    refine accepts_array_open hw htakes (fun hb => (allowed_array _).mp (hallow hb)) (by omega) ?_
    exact (accepts_array_close (.inl rfl) (by simp [Shallow]) hgo).ws hw'
  | array hl =>
    rw [append_assoc, cons_append]
    have hdepth := hl.depth_le
    refine accepts_array_open hw htakes (fun hb => (allowed_array _).mp (hallow hb)) (by omega) ?_
    exact hl.accepts (.inl rfl) (by omega)
      (accepts_array_close (.inr rfl) (shallow_of_depth (by rw [nil_append]; omega)) hgo)
  | object_empty hw' =>
    rw [append_assoc, cons_append]
    refine accepts_object_open hw htakes (fun hb => (allowed_object _).mp (hallow hb)) (by omega) ?_
    exact (accepts_object_close (l := []) (.inl rfl) (by simp [Shallow]) hgo).ws hw'
  | object hl =>
    rw [append_assoc, cons_append]
    have hdepth := hl.depth_le
    refine accepts_object_open hw htakes (fun hb => (allowed_object _).mp (hallow hb)) (by omega) ?_
    exact hl.accepts (l := []) (.inl rfl) (by omega)
      (accepts_object_close (.inr rfl) (shallow_of_pairs_depth (by rw [nil_append]; omega)) hgo)

/-- The elements of an array bring the parser to its closing bracket. -/
theorem Elements.accepts {d : Nat} {t : List UInt8} {l : List (Variant R)} (h : Elements d t l)
    {rest : List UInt8} {e : JsonExpect} {els : List (Variant R)} {outer : JsonStack R}
    {below : List (JsonStack R)}
    (he : e = .EXPECT_ARRAY_FIRST_ELEMENT ∨ e = .EXPECT_ARRAY_NEXT_ELEMENT)
    (hd : d + (below.length + 1) ≤ DEPTH_MAX) (hgo : Accepts flags (93 :: rest) .STATE_VALUE_POST
      (⟨.EXPECT_ARRAY_COMMA, els ++ l⟩ :: outer :: below) v) :
    Accepts flags (t ++ 93 :: rest) .STATE_VALUE (⟨e, els⟩ :: outer :: below) v := by
  have htakes : e.takes_value = true ∧ e.after = .EXPECT_ARRAY_COMMA := by
    rcases he with rfl | rfl
    · exact ⟨rfl, rfl⟩
    · exact ⟨rfl, rfl⟩
  cases h with
  | one hw hv hw' =>
    rw [append_assoc, append_assoc]
    refine hv.accepts hw (.punctuation hw' (by simp) rest) hd htakes.1 (fun hb => by cases hb) ?_
    rw [htakes.2]
    exact hgo.ws hw'
  | @cons _ _ _ _ _ x l hw hv hw' hl =>
    rw [append_assoc, append_assoc, append_assoc, cons_append]
    refine hv.accepts hw (.punctuation hw' (by simp) _) hd htakes.1 (fun hb => by cases hb) ?_
    rw [htakes.2]
    refine accepts_comma hw' (.inl ⟨rfl, rfl⟩) (hl.accepts (.inr rfl) hd ?_)
    rwa [append_assoc]

/-- The members of an object bring the parser to its closing bracket. -/
theorem Members.accepts {d : Nat} {t : List UInt8} {l' : List (List UInt8 × Variant R)}
    (h : Members d t l') {rest : List UInt8} {e : JsonExpect} {l : List (List UInt8 × Variant R)}
    {outer : JsonStack R} {below : List (JsonStack R)}
    (he : e = .EXPECT_OBJECT_FIRST_KEY ∨ e = .EXPECT_OBJECT_NEXT_KEY)
    (hd : d + (below.length + 1) ≤ DEPTH_MAX) (hgo : Accepts flags (125 :: rest) .STATE_VALUE_POST
      (⟨.EXPECT_OBJECT_COMMA, flat (l ++ l')⟩ :: outer :: below) v) :
    Accepts flags (t ++ 125 :: rest) .STATE_VALUE (⟨e, flat l⟩ :: outer :: below) v := by
  cases h with
  | one hw1 hk hw2 hw3 hv hw4 =>
    simp only [append_assoc, cons_append]
    refine accepts_key hw1 hk hw2 he
      (hv.accepts hw3 (.punctuation hw4 (by simp) rest) hd rfl (fun hb => by cases hb) ?_)
    rw [flat_append] at hgo
    simpa [JsonExpect.after] using hgo.ws hw4
  | @cons _ _ _ _ _ _ _ _ key x l' hw1 hk hw2 hw3 hv hw4 hl =>
    simp only [append_assoc, cons_append]
    refine accepts_key hw1 hk hw2 he
      (hv.accepts hw3 (.punctuation hw4 (by simp) _) hd rfl (fun hb => by cases hb) ?_)
    have hnext := hl.accepts (l := l ++ [(key, x)]) (.inr rfl) hd (by rwa [append_assoc])
    rw [flat_append] at hnext
    simpa [JsonExpect.after] using accepts_comma hw4 (.inr ⟨rfl, rfl⟩) hnext
end

/-- A JSON text is accepted when the flags allow its value. -/
theorem JsonText.accepts {t : List UInt8} (h : JsonText DEPTH_MAX t v) (hallow : Allowed flags v) :
    Accepts flags t .STATE_VALUE [⟨.EXPECT_TOPLEVEL, []⟩] v := by
  obtain ⟨w, t, w', rfl, hw, hv, hw'⟩ := h
  refine hv.accepts hw (.ws hw') (le_refl _) rfl (fun _ => hallow) ?_
  exact .done (tokenize_end hw' _) rfl

end complete

/-! ## Section 2: The parser comes to an end -/

/-- What is expected inside a container. -/
def JsonExpect.inside : JsonExpect → Bool
  | .EXPECT_TOPLEVEL | .EXPECT_END => false
  | _ => true

/-- The entries below the current one: each expects what comes after the
    container that is open in it, and the one at the bottom the end. -/
inductive Pending : List (JsonStack R) → Prop where
  | bottom : Pending [⟨.EXPECT_END, []⟩]
  | frame {current : JsonStack R} {below : List (JsonStack R)}
      (he : current.expect.inside = true) (h : Pending below) : Pending (current :: below)

/-- The stacks there are between two tokens. -/
inductive StackOk : List (JsonStack R) → Prop where
  | start : StackOk [⟨.EXPECT_TOPLEVEL, []⟩]
  | finished (v : Variant R) : StackOk [⟨.EXPECT_END, [v]⟩]
  | inside {current : JsonStack R} {below : List (JsonStack R)}
      (he : current.expect.inside = true) (h : Pending below) : StackOk (current :: below)

theorem after_inside {e : JsonExpect} (h : e.inside = true) : e.after.inside = true := by
  cases e
  all_goals first | rfl | cases h

section total
variable {flags : ParseFlags} {current : JsonStack R} {below : List (JsonStack R)}

section
variable (h : StackOk (current :: below)) (htakes : current.expect ≠ .EXPECT_END)
include h htakes

/-- What a value that was read leaves: the current entry has it, or the whole
    text is read. -/
theorem StackOk.add (v : Variant R) :
    StackOk (⟨current.expect.after, current.elements ++ [v]⟩ :: below) := by
  cases h with
  | start => exact .finished v
  | finished => exact (htakes rfl).elim
  | inside he h => exact .inside (after_inside he) h

/-- What stays below a container that is opened. -/
theorem StackOk.pending : Pending (⟨current.expect.after, current.elements⟩ :: below) := by
  cases h with
  | start => exact .bottom
  | finished => exact (htakes rfl).elim
  | inside he h => exact .frame (after_inside he) h

end

/-- A container that is closed is an element of the entry below. -/
theorem Pending.add {outer : JsonStack R} (h : Pending (outer :: below)) (v : Variant R) :
    StackOk (json_stack_add outer v :: below) := by
  cases h with
  | bottom => exact .finished v
  | frame he h => exact .inside he h

theorem scalar_step (h : StackOk (current :: below)) {takes : JsonExpect → Bool}
    (ht : takes .EXPECT_END = false) {add : Outcome (Variant R)} (hadd : add ≠ .abort) :
    json_parse_scalar flags takes add current below ≠ .abort ∧
      ∀ stack, json_parse_scalar flags takes add current below = .ok (.more stack) → StackOk stack := by
  constructor
  · unfold json_parse_scalar
    split
    · simp
    · split
      · simp
      · simp [bind_eq_abort, hadd]
  · intro stack hs
    obtain ⟨htakes, -, v, -, hr⟩ := scalar_eq_ok.mp hs
    obtain rfl := Parsed.more.inj hr
    refine h.add (fun he => ?_) v
    rw [he, ht] at htakes
    cases htakes

variable {first : JsonExpect}

theorem open_step (h : StackOk (current :: below)) {refused : Bool} (hf : first.inside = true) :
    json_parse_open refused first current below ≠ .abort ∧
      ∀ stack, json_parse_open refused first current below = .ok (.more stack) → StackOk stack := by
  constructor
  · unfold json_parse_open
    repeat' split
    all_goals simp
  · intro stack hs
    obtain ⟨htakes, -, -, hr⟩ := open_eq_ok.mp hs
    obtain rfl := Parsed.more.inj hr
    refine .inside hf (h.pending fun he => ?_)
    rw [he] at htakes
    cases htakes

theorem close_step (h : StackOk (current :: below)) {comma : JsonExpect}
    {new : List (Variant R) → Outcome (Variant R)} (hf : first.inside = true)
    (hc : comma.inside = true) (hnew : ∀ l, new l ≠ .abort) :
    json_parse_close first comma new current below ≠ .abort ∧
      ∀ stack, json_parse_close first comma new current below = .ok (.more stack) →
        StackOk stack := by
  have hpending : current.expect = first ∨ current.expect = comma → Pending below := by
    intro he
    have hin : current.expect.inside = true := by
      rcases he with he | he
      · rw [he, hf]
      · rw [he, hc]
    cases h with
    | start => cases hin
    | finished => cases hin
    | inside _ h => exact h
  constructor
  · unfold json_parse_close
    split
    · next he =>
      cases hpending he with
      | bottom => simp [bind_eq_abort, hnew]
      | frame => simp [bind_eq_abort, hnew]
    · simp
  · intro stack hs
    obtain ⟨he, outer, rest, v, rfl, -, hr⟩ := close_eq_ok.mp hs
    obtain rfl := Parsed.more.inj hr
    exact (hpending he).add v

theorem new_array_not_abort (l : List (Variant R)) : sd_json_variant_new_array l ≠ .abort := by
  rw [new_array_eq]
  split
  all_goals simp

theorem put_pairs_not_abort (l : List (Variant R)) (acc : List (List UInt8 × Variant R)) :
    json_variant_object_put_elements acc l ≠ .abort := by
  fun_induction json_variant_object_put_elements acc l with
  | case1 => simp
  | case2 _ _ _ _ _ ih => exact ih
  | case3 => simp
  | case4 => simp

theorem new_object_not_abort (l : List (Variant R)) : sd_json_variant_new_object l ≠ .abort := by
  unfold sd_json_variant_new_object
  split
  · simp
  · simp [bind_eq_abort, put_pairs_not_abort]

theorem new_string_not_abort (s : List UInt8) :
    (sd_json_variant_new_string s : Outcome (Variant R)) ≠ .abort := by
  unfold sd_json_variant_new_string
  repeat' split
  all_goals simp

/-- No assertion fails on a token, and the stack stays well formed. -/
theorem token_step (h : StackOk (current :: below)) (tok : Token R) :
    json_parse_token flags current below tok ≠ .abort ∧
      ∀ stack, json_parse_token flags current below tok = .ok (.more stack) → StackOk stack := by
  cases tok with
  | «end» =>
    cases h with
    | start => simp [json_parse_token]
    | finished => simp [json_parse_token, json_parse_done]
    | inside he h =>
      rw [json_parse_token, if_pos]
      · simp
      · intro hend
        rw [hend] at he
        cases he
  | colon =>
    rw [json_parse_token]
    split
    · simp
    · next he =>
      refine ⟨by simp, fun stack hs => ?_⟩
      obtain rfl := Parsed.more.inj (ok.inj hs)
      cases h with
      | start => exact (he (by simp)).elim
      | finished => exact (he (by simp)).elim
      | inside _ h => exact .inside rfl h
  | comma =>
    rw [json_parse_token]
    split
    · next he =>
      refine ⟨by simp, fun stack hs => ?_⟩
      obtain rfl := Parsed.more.inj (ok.inj hs)
      cases h with
      | start => cases he
      | finished => cases he
      | inside _ h => exact .inside rfl h
    · split
      · next he =>
        refine ⟨by simp, fun stack hs => ?_⟩
        obtain rfl := Parsed.more.inj (ok.inj hs)
        cases h with
        | start => cases he
        | finished => cases he
        | inside _ h => exact .inside rfl h
      · simp
  | object_open => exact open_step h rfl
  | array_open => exact open_step h rfl
  | object_close => exact close_step h rfl rfl new_object_not_abort
  | array_close => exact close_step h rfl rfl new_array_not_abort
  | string s =>
    rw [json_parse_token]
    exact scalar_step h rfl (new_string_not_abort s)
  | real | integer | unsigned | boolean | null => exact scalar_step h rfl (by simp)

theorem tokenize_not_abort (p : List UInt8) (state : TokenizerState) :
    (json_tokenize p state : Outcome (Token R × TokenizerState × List UInt8)) ≠ .abort := by
  unfold json_tokenize json_token
  split
  · simp
  · split
    · repeat' split
      all_goals simp [bind_eq_abort, json_parse_string_not_abort, json_parse_number_not_abort]
    · split
      all_goals simp

/-- The loop has fuel enough, and no assertion fails. -/
theorem loop_not_abort {fuel : Nat} {p : List UInt8} {state : TokenizerState}
    {stack : List (JsonStack R)} (hf : p.length < fuel) (h : StackOk stack) :
    json_parse_loop flags false fuel p state stack ≠ .abort := by
  induction fuel generalizing p state stack with
  | zero => omega
  | succ fuel ih =>
    cases stack with
    | nil => cases h
    | cons current below =>
      intro habort
      rcases bind_eq_abort.mp habort with habort | ⟨⟨tok, state', rest⟩, ht, habort⟩
      · exact tokenize_not_abort _ _ habort
      rcases bind_eq_abort.mp habort with habort | ⟨r, hr, habort⟩
      · exact (token_step h tok).1 habort
      cases r with
      | done v => simp at habort
      | more stack =>
        have hshorter : rest.length < p.length := tokenize_shorter ht (more_ne_end hr)
        exact ih (lt_of_lt_of_le hshorter (le_of_lt_succ hf)) ((token_step h tok).2 stack hr)
          habort

end total

theorem sd_json_parse_not_abort (string : List UInt8) (flags : ParseFlags) :
    (sd_json_parse string flags : Outcome (Variant R)) ≠ .abort := by
  unfold sd_json_parse
  split
  · simp
  · simp [bind_eq_abort, json_parse_internal, loop_not_abort (lt_succ_self _) .start]

/-! ## Section 3: The parser and the grammar -/

variable {v : Variant R}

/-- A value has a text. -/
theorem Value.ne_nil {d : Nat} {t : List UInt8} (h : Value d t v) : t ≠ [] := by
  cases h with
  | number hn => exact text_ne_nil hn
  | string hs =>
    obtain ⟨body, rfl, -⟩ := hs
    simp
  | _ => simp [ascii]

/-- The parser succeeds on the texts of the grammar, with the value they
    denote. -/
theorem sd_json_parse_eq_ok {string : List UInt8} {flags : ParseFlags} :
    sd_json_parse string flags = .ok v ↔
      JsonText DEPTH_MAX (cstring string) v ∧ Allowed flags v := by
  unfold sd_json_parse
  split
  · next hnil =>
    rw [hnil]
    simp only [reduceCtorEq, false_iff, not_and]
    rintro ⟨w, t, w', ht, -, hv, -⟩
    simp only [nil_eq, append_eq_nil_iff] at ht
    exact (hv.ne_nil ht.2.1).elim
  · rw [bind_eq_ok]
    constructor
    · rintro ⟨⟨v', rest⟩, hloop, hv⟩
      obtain rfl := ok.inj hv
      exact (accepts_of_loop hloop).text
    · rintro ⟨htext, hallow⟩
      obtain ⟨rest, hloop⟩ := (htext.accepts hallow).loop (lt_succ_self _)
      exact ⟨(v, rest), hloop, rfl⟩

end SdCompat.Json
