import SdCompat.SdJson.Tokens

/-! # What the JSON parser accepts

    `Accepts` describes a run of the loop of `json_parse_internal` without its
    fuel. What is accepted is read off one entry of the stack after the other:
    a value where one is expected, and the rest of every container up to its
    closing bracket.
-/

namespace SdCompat.Json

open Outcome List JsonExpect Nat

variable {R : Type} [Double R]

/-! ## Section 1: The loop without its fuel -/

/-- The parser goes on from here to the end of the text, and the variant is
    this one. -/
inductive Accepts (flags : ParseFlags) :
    List UInt8 → TokenizerState → List (JsonStack R) → Variant R → Prop where
  | done {p rest : List UInt8} {state state' : TokenizerState} {tok : Token R}
      {current : JsonStack R} {below : List (JsonStack R)} {v : Variant R}
      (ht : json_tokenize p state = .ok (tok, state', rest))
      (h : json_parse_token flags current below tok = .ok (.done v)) :
      Accepts flags p state (current :: below) v
  | more {p rest : List UInt8} {state state' : TokenizerState} {tok : Token R}
      {current : JsonStack R} {below stack : List (JsonStack R)} {v : Variant R}
      (ht : json_tokenize p state = .ok (tok, state', rest))
      (h : json_parse_token flags current below tok = .ok (.more stack))
      (hmore : Accepts flags rest state' stack v) : Accepts flags p state (current :: below) v

section token
variable {flags : ParseFlags} {current : JsonStack R} {below : List (JsonStack R)} {r : Parsed R}

/-- A value that is not a container goes to the current entry. -/
theorem scalar_eq_ok {takes : JsonExpect → Bool} {add : Outcome (Variant R)} :
    json_parse_scalar flags takes add current below = .ok r ↔ takes current.expect = true ∧
        (below = [] → flags.must_be_array = false ∧ flags.must_be_object = false) ∧
        ∃ v, add = .ok v ∧
          r = .more (⟨current.expect.after, current.elements ++ [v]⟩ :: below) := by
  unfold json_parse_scalar
  split
  · next h => simp [show takes current.expect = false by simpa using h]
  · next h =>
    have htakes : takes current.expect = true := by simpa using h
    split
    · next hf =>
      have hf : below = [] ∧ (flags.must_be_array = true ∨ flags.must_be_object = true) := by
        simpa using hf
      simp only [reduceCtorEq, false_iff, not_and]
      rintro - hb
      rcases hf.2 with hf' | hf'
      · simp [hf'] at hb
        exact (hb hf.1).elim
      · simp [hf'] at hb
        exact (hb hf.1).elim
    · next hf =>
      have hb : below = [] → flags.must_be_array = false ∧ flags.must_be_object = false := by
        simpa using hf
      rw [bind_eq_ok]
      constructor
      · rintro ⟨v, hv, hr⟩
        exact ⟨htakes, hb, v, hv, (ok.inj hr).symm⟩
      · rintro ⟨-, -, v, hv, rfl⟩
        exact ⟨v, hv, rfl⟩

/-- A container is opened above the current entry. -/
theorem open_eq_ok {refused : Bool} {first : JsonExpect} :
    json_parse_open refused first current below = .ok r ↔
      current.expect.takes_value = true ∧ (below = [] → refused = false) ∧
        below.length + 1 ≤ DEPTH_MAX ∧
        r = .more (⟨first, []⟩ :: ⟨current.expect.after, current.elements⟩ :: below) := by
  unfold json_parse_open
  split
  · next h => simp [show current.expect.takes_value = false by simpa using h]
  · next h =>
    have htakes : current.expect.takes_value = true := by simpa using h
    split
    · next hf =>
      have hf : below = [] ∧ refused = true := by simpa using hf
      simp [hf.1, hf.2]
    · next hf =>
      have hb : below = [] → refused = false := by simpa using hf
      split
      · next hd =>
        simp only [reduceCtorEq, false_iff]
        omega
      · next hd =>
        constructor
        · intro hr
          exact ⟨htakes, hb, not_lt.mp hd, (ok.inj hr).symm⟩
        · rintro ⟨-, -, -, rfl⟩
          rfl

/-- A container is closed, and goes to the entry below. -/
theorem close_eq_ok {first comma : JsonExpect} {new : List (Variant R) → Outcome (Variant R)} :
    json_parse_close first comma new current below = .ok r ↔
      (current.expect = first ∨ current.expect = comma) ∧
        ∃ outer rest v, below = outer :: rest ∧ new current.elements = .ok v ∧
          r = .more (json_stack_add outer v :: rest) := by
  unfold json_parse_close
  split
  · next h =>
    cases below with
    | nil => simp
    | cons outer rest =>
      rw [bind_eq_ok]
      constructor
      · rintro ⟨v, hv, hr⟩
        exact ⟨h, outer, rest, v, rfl, hv, (ok.inj hr).symm⟩
      · rintro ⟨-, outer', rest', v, hb, hv, rfl⟩
        obtain ⟨rfl, rfl⟩ := cons.inj hb
        exact ⟨v, hv, rfl⟩
  · next h => simp [h]

/-- A number is treated like any other value. -/
theorem parse_token_number (n : Number) : json_parse_token flags current below n.token =
      json_parse_scalar flags JsonExpect.takes_value (.ok n.token.number) current below := by
  unfold Number.token
  repeat' split
  all_goals rfl

/-- The text ends where the end is expected. -/
theorem parse_token_end_eq_ok : json_parse_token flags current below .end = .ok r ↔
      current.expect = .EXPECT_END ∧ below = [] ∧ ∃ v, current.elements = [v] ∧ r = .done v := by
  simp only [json_parse_token]
  split
  · next h => simp [h]
  · next h =>
    rw [bind_eq_ok]
    unfold json_parse_done
    split
    · next v hv => simp_all [eq_comm]
    · next hne =>
      simp only [reduceCtorEq, false_and, exists_false, false_iff, not_and, not_exists]
      exact fun _ hb v hv => (hne v hv hb).elim

end token

section loop
variable {flags : ParseFlags}

variable {p : List UInt8} {stack : List (JsonStack R)} {state : TokenizerState}

variable {rest : List UInt8} {v : Variant R}

/-- The loop accepts what `Accepts` says. -/
theorem accepts_of_loop {fuel : Nat}
    (h : json_parse_loop flags false fuel p state stack = .ok (v, rest)) :
    Accepts flags p state stack v := by
  induction fuel generalizing p state stack with
  | zero => simp [json_parse_loop] at h
  | succ fuel ih =>
    cases stack with
    | nil => simp [json_parse_loop] at h
    | cons current below =>
      simp only [json_parse_loop, Bool.false_and, Bool.false_eq_true, if_false] at h
      rw [bind_eq_ok] at h
      obtain ⟨⟨tok, state', p'⟩, ht, h⟩ := h
      rw [bind_eq_ok] at h
      obtain ⟨r, hr, h⟩ := h
      cases r with
      | done v' =>
        obtain ⟨rfl, rfl⟩ : v' = v ∧ p' = rest := by simpa using h
        exact .done ht hr
      | more stack => exact .more ht hr (ih h)

variable {tok : Token R}

/-- A token that is not the end takes something from the text. -/
theorem tokenize_shorter {state' : TokenizerState}
    (ht : json_tokenize p state = .ok (tok, state', rest)) (hne : tok ≠ .end) :
    rest.length < p.length := by
  rcases tokenize_sound ht with ⟨he, -, -⟩ | ⟨w, lex, rfl, -, hlex, -, -⟩
  · exact (hne he).elim
  · have := length_pos_of_ne_nil hlex
    simp only [length_append]
    omega

variable {below : List (JsonStack R)} {current : JsonStack R}

/-- At the end of the text the parser does not go on. -/
theorem more_ne_end (h : json_parse_token flags current below tok = .ok (.more stack)) :
    tok ≠ .end := by
  rintro rfl
  obtain ⟨-, -, v, -, hv⟩ := parse_token_end_eq_ok.mp h
  cases hv

/-- Only the end of the text ends the loop. -/
theorem done_eq_end (h : json_parse_token flags current below tok = .ok (.done v)) :
    tok = .end := by
  cases tok with
  | «end» => rfl
  | colon =>
    rw [json_parse_token] at h
    split at h
    all_goals simp at h
  | comma =>
    rw [json_parse_token] at h
    repeat' split at h
    all_goals simp at h
  | object_open | array_open =>
    obtain ⟨-, -, -, hr⟩ := open_eq_ok.mp h
    cases hr
  | object_close | array_close =>
    obtain ⟨-, _, _, _, -, -, hr⟩ := close_eq_ok.mp h
    cases hr
  | string | real | integer | unsigned | boolean | null =>
    rw [json_parse_token] at h
    obtain ⟨-, -, _, -, hr⟩ := scalar_eq_ok.mp h
    cases hr

/-- The loop has fuel enough to accept it. -/
theorem Accepts.loop (h : Accepts flags p state stack v) {fuel : Nat} (hf : p.length < fuel) :
    ∃ rest, json_parse_loop flags false fuel p state stack = .ok (v, rest) := by
  induction h generalizing fuel with
  | done ht h =>
    obtain ⟨fuel, rfl⟩ : ∃ k, fuel = k + 1 := ⟨fuel - 1, by omega⟩
    simp [json_parse_loop, ht, h]
  | more ht h hmore ih =>
    obtain ⟨fuel, rfl⟩ : ∃ k, fuel = k + 1 := ⟨fuel - 1, by omega⟩
    have := tokenize_shorter ht (more_ne_end h)
    obtain ⟨rest, hr⟩ := ih (lt_of_lt_of_le this (le_of_lt_succ hf))
    exact ⟨rest, by simp [json_parse_loop, ht, h, hr]⟩

end loop

/-! ## Section 2: What is accepted is in the grammar -/

/-- The flags let a text with this value at the top level pass. -/
def Allowed (flags : ParseFlags) : Variant R → Prop
  | .array _ => flags.must_be_array = true ∨ flags.must_be_object = false
  | .object _ => flags.must_be_object = true ∨ flags.must_be_array = false
  | _ => flags.must_be_array = false ∧ flags.must_be_object = false

/-- The rest of an array, after an element. -/
def MoreElements (d : Nat) (t : List UInt8) (l : List (Variant R)) : Prop :=
  (Ws t ∧ l = []) ∨ ∃ w t', t = w ++ 44 :: t' ∧ Ws w ∧ Elements d t' l

/-- The rest of an object, after a member. -/
def MoreMembers (d : Nat) (t : List UInt8) (l : List (List UInt8 × Variant R)) : Prop :=
  (Ws t ∧ l = []) ∨ ∃ w t', t = w ++ 44 :: t' ∧ Ws w ∧ Members d t' l

variable {t t' : List UInt8} {v : Variant R}

theorem MoreElements.cons {d : Nat} {w : List UInt8} {l : List (Variant R)} (hw : Ws w)
    (hv : Value d t v) (h : MoreElements d t' l) : Elements d (w ++ (t ++ t')) (v :: l) := by
  rcases h with ⟨hw', rfl⟩ | ⟨w', t'', rfl, hw', hl⟩
  · exact .one hw hv hw'
  · exact .cons hw hv hw' hl

theorem MoreMembers.cons {d : Nat} {w₁ k w₂ w₃ key : List UInt8} {l : List (List UInt8 × Variant R)}
    (hw₁ : Ws w₁) (hk : StringText k key) (hw₂ : Ws w₂) (hw₃ : Ws w₃) (hv : Value d t v)
    (h : MoreMembers d t' l) :
    Members d (w₁ ++ (k ++ (w₂ ++ 58 :: (w₃ ++ (t ++ t'))))) ((key, v) :: l) := by
  rcases h with ⟨hw', rfl⟩ | ⟨w', t'', rfl, hw', hl⟩
  · exact .one hw₁ hk hw₂ hw₃ hv hw'
  · exact .cons hw₁ hk hw₂ hw₃ hv hw' hl

section sound
variable {flags : ParseFlags}

/-- The parser goes on with these elements in the current entry. -/
def GoesOn (flags : ParseFlags) (p : List UInt8) (current : JsonStack R)
    (below : List (JsonStack R)) (v : Variant R) : Prop :=
  ∃ state, Accepts flags p state (current :: below) v

/-- A value was read, and it is the last of the elements now. -/
def ReadsValue (flags : ParseFlags) (p : List UInt8) (current : JsonStack R)
    (below : List (JsonStack R)) (v : Variant R) : Prop :=
  ∃ w t x rest, p = w ++ (t ++ rest) ∧ Ws w ∧ t ≠ [] ∧ Value (DEPTH_MAX - below.length) t x ∧
    (below = [] → Allowed flags x) ∧
    GoesOn flags rest ⟨current.expect.after, current.elements ++ [x]⟩ below v

/-- The current entry was closed at once, and the container went to the entry
    below. -/
def ReadsClose (flags : ParseFlags) (bracket : UInt8) (container : Variant R) (p : List UInt8)
    (below : List (JsonStack R)) (v : Variant R) : Prop :=
  ∃ w rest outer lower, p = w ++ bracket :: rest ∧ Ws w ∧ below = outer :: lower ∧
    GoesOn flags rest (json_stack_add outer container) lower v

/-- What is known of all accepted texts shorter than `n`, by what the current
    entry expects. -/
structure Sound (flags : ParseFlags) (n : Nat) : Prop where
  value : ∀ {p : List UInt8} {current : JsonStack R} {below : List (JsonStack R)} {v : Variant R},
    p.length < n → GoesOn flags p current below v → current.expect.takes_value = true →
    ReadsValue flags p current below v ∨ current.expect = .EXPECT_ARRAY_FIRST_ELEMENT ∧
      ReadsClose flags 93 (.array current.elements) p below v
  elements : ∀ {p : List UInt8} {els : List (Variant R)} {below : List (JsonStack R)}
      {v : Variant R},
    p.length < n → GoesOn flags p ⟨.EXPECT_ARRAY_COMMA, els⟩ below v →
    ∃ t l rest outer lower, p = t ++ 93 :: rest ∧ MoreElements (DEPTH_MAX - below.length) t l ∧
      below = outer :: lower ∧ GoesOn flags rest (json_stack_add outer (.array (els ++ l))) lower v
  key : ∀ {p : List UInt8} {current : JsonStack R} {below : List (JsonStack R)}
      {l : List (List UInt8 × Variant R)} {v : Variant R},
    p.length < n → GoesOn flags p current below v → current.expect.takes_key = true →
    current.elements = flat l →
    (∃ w₁ k w₂ w₃ t key x rest, p = w₁ ++ (k ++ (w₂ ++ 58 :: (w₃ ++ (t ++ rest)))) ∧ Ws w₁ ∧
      StringText k key ∧ Ws w₂ ∧ Ws w₃ ∧ Value (DEPTH_MAX - below.length) t x ∧
      GoesOn flags rest ⟨.EXPECT_OBJECT_COMMA, flat (l ++ [(key, x)])⟩ below v) ∨
    current.expect = .EXPECT_OBJECT_FIRST_KEY ∧ ReadsClose flags 125 (.object l) p below v
  members : ∀ {p : List UInt8} {l : List (List UInt8 × Variant R)} {below : List (JsonStack R)}
      {v : Variant R},
    p.length < n → GoesOn flags p ⟨.EXPECT_OBJECT_COMMA, flat l⟩ below v →
    ∃ t l' rest outer lower, p = t ++ 125 :: rest ∧ MoreMembers (DEPTH_MAX - below.length) t l' ∧
      below = outer :: lower ∧ GoesOn flags rest (json_stack_add outer (.object (l ++ l'))) lower v

variable {below : List (JsonStack R)} {current : JsonStack R} {p : List UInt8} {v : Variant R}

/-- The first token of an accepted text. -/
theorem GoesOn.first (h : GoesOn flags p current below v) :
    (Ws p ∧ current.expect = .EXPECT_END ∧ below = [] ∧ current.elements = [v]) ∨
      ∃ w lex rest tok stack, p = w ++ (lex ++ rest) ∧ Ws w ∧ lex ≠ [] ∧ Lexeme tok lex ∧
        json_parse_token flags current below tok = .ok (.more stack) ∧
        ∃ state, Accepts flags rest state stack v := by
  obtain ⟨state, h⟩ := h
  cases h with
  | @done _ _ _ _ tok _ _ _ ht h =>
    left
    rcases tokenize_sound ht with ⟨rfl, hw, -⟩ | ⟨w, lex, -, -, -, hl, -⟩
    · obtain ⟨he, hb, v', hv, hr⟩ := parse_token_end_eq_ok.mp h
      obtain rfl := (Parsed.done.inj hr)
      exact ⟨hw, he, hb, hv⟩
    · exact (hl.ne_end (done_eq_end h)).elim
  | more ht h hmore =>
    right
    rcases tokenize_sound ht with ⟨rfl, -, -⟩ | ⟨w, lex, hp, hw, hne, hl, -⟩
    · exact (more_ne_end h rfl).elim
    · exact ⟨w, lex, _, _, _, hp, hw, hne, hl, h, _, hmore⟩

/-- A number is allowed like any value that is not a container. -/
theorem allowed_number (tok : Token R) :
    Allowed flags tok.number ↔ flags.must_be_array = false ∧ flags.must_be_object = false := by
  cases tok with
  | real x =>
    show Allowed flags (sd_json_variant_new_real x) ↔ _
    unfold sd_json_variant_new_real
    cases Double.fpclassify x
    all_goals rfl
  | _ => rfl

theorem allowed_array (l : List (Variant R)) :
    Allowed flags (.array l) ↔ (!flags.must_be_array && flags.must_be_object) = false := by
  cases h : flags.must_be_array
  all_goals simp [Allowed, h]

theorem allowed_object (l : List (List UInt8 × Variant R)) :
    Allowed flags (.object l) ↔ (flags.must_be_array && !flags.must_be_object) = false := by
  cases h : flags.must_be_object
  all_goals simp [Allowed, h]

omit [Double R] in
theorem new_string_eq_ok {s : List UInt8} :
    sd_json_variant_new_string s = .ok v ↔ utf8_is_valid s = true ∧ v = .string s := by
  unfold sd_json_variant_new_string
  split
  · next h =>
    subst h
    have hv : utf8_is_valid [] = true := rfl
    simp [hv, eq_comm]
  · split
    · next h => simp [h, eq_comm]
    · next h => simp [h]

/-- A value that is not a container. -/
theorem ReadsValue.scalar {w lex rest : List UInt8} {x : Variant R} (hp : p = w ++ (lex ++ rest))
    (hw : Ws w) (hne : lex ≠ []) (hx : Value (DEPTH_MAX - below.length) lex x)
    (hallow : below = [] → Allowed flags x)
    (h : GoesOn flags rest ⟨current.expect.after, current.elements ++ [x]⟩ below v) :
    ReadsValue flags p current below v :=
  ⟨w, lex, x, rest, hp, hw, hne, hx, hallow, h⟩

variable {n : Nat}

section
variable (h : Sound (R := R) flags n)
include h

variable {outer : JsonStack R}

/-- The array that was opened just now is closed sooner or later. -/
theorem Sound.array (hp : p.length < n)
    (hgo : GoesOn flags p ⟨.EXPECT_ARRAY_FIRST_ELEMENT, []⟩ (outer :: below) v) :
    ∃ t l rest, p = t ++ 93 :: rest ∧ (Ws t ∧ l = [] ∨ Elements (DEPTH_MAX - (below.length + 1)) t l) ∧
      GoesOn flags rest (json_stack_add outer (.array l)) below v := by
  rcases h.value hp hgo rfl with ⟨w, t, x, rest, rfl, hw, hne, hx, -, hgo⟩ |
      ⟨-, w, rest, outer', lower, rfl, hw, hb, hgo⟩
  · have hlen : rest.length < n := by
      simp only [length_append] at hp
      omega
    obtain ⟨t', l, rest', outer', lower, rfl, hl, hb, hgo⟩ := h.elements hlen hgo
    obtain ⟨rfl, rfl⟩ := cons.inj hb
    exact ⟨w ++ (t ++ t'), x :: l, rest', by simp, .inr (hl.cons hw hx), hgo⟩
  · obtain ⟨rfl, rfl⟩ := cons.inj hb
    exact ⟨w, [], rest, rfl, .inl ⟨hw, rfl⟩, hgo⟩

/-- The object that was opened just now is closed sooner or later. -/
theorem Sound.object (hp : p.length < n)
    (hgo : GoesOn flags p ⟨.EXPECT_OBJECT_FIRST_KEY, []⟩ (outer :: below) v) :
    ∃ t l rest, p = t ++ 125 :: rest ∧ (Ws t ∧ l = [] ∨ Members (DEPTH_MAX - (below.length + 1)) t l) ∧
      GoesOn flags rest (json_stack_add outer (.object l)) below v := by
  rcases h.key (l := []) hp hgo rfl rfl with
      ⟨w1, k, w2, w3, t, key, x, rest, rfl, hw1, hk, hw2, hw3, hx, hgo⟩ |
      ⟨-, w, rest, outer', lower, rfl, hw, hb, hgo⟩
  · have hlen : rest.length < n := by
      simp only [length_append, length_cons] at hp
      omega
    obtain ⟨t', l, rest', outer', lower, rfl, hl, hb, hgo⟩ := h.members hlen hgo
    obtain ⟨rfl, rfl⟩ := cons.inj hb
    exact ⟨w1 ++ (k ++ (w2 ++ 58 :: (w3 ++ (t ++ t')))), (key, x) :: l, rest', by simp,
      .inr (hl.cons hw1 hk hw2 hw3 hx), hgo⟩
  · obtain ⟨rfl, rfl⟩ := cons.inj hb
    exact ⟨w, [], rest, rfl, .inl ⟨hw, rfl⟩, hgo⟩

/-- Where a value may come, there is one, or the array is closed. -/
theorem Sound.value_step (hp : p.length < n + 1) (hgo : GoesOn flags p current below v)
    (htakes : current.expect.takes_value = true) :
    ReadsValue flags p current below v ∨ current.expect = .EXPECT_ARRAY_FIRST_ELEMENT ∧
      ReadsClose flags 93 (.array current.elements) p below v := by
  rcases hgo.first with ⟨-, he, -, -⟩ | ⟨w, lex, rest, tok, stack, hsplit, hw, hne, hl, htok, state, hacc⟩
  · rw [he] at htakes
    cases htakes
  · have hlen : rest.length < n := by
      have := length_pos_of_ne_nil hne
      rw [hsplit] at hp
      simp only [length_append] at hp
      omega
    cases hl with
    | colon =>
      rw [json_parse_token] at htok
      split at htok
      · simp at htok
      · next he =>
        rw [Decidable.not_not.mp he] at htakes
        cases htakes
    | comma =>
      rw [json_parse_token] at htok
      split at htok
      · next he =>
        rw [he] at htakes
        cases htakes
      · split at htok
        · next he =>
          rw [he] at htakes
          cases htakes
        · simp at htok
    | object_open =>
      obtain ⟨-, hallow, hroom, hstack⟩ := open_eq_ok.mp htok
      obtain rfl := Parsed.more.inj hstack
      obtain ⟨t, l, rest', rfl, hl, hgo⟩ := h.object hlen ⟨state, hacc⟩
      have hd : DEPTH_MAX - below.length = DEPTH_MAX - (below.length + 1) + 1 := by omega
      refine .inl ⟨w, 123 :: t ++ [125], .object l, rest', by simp [hsplit], hw, by simp, ?_,
        fun hb => (allowed_object l).mpr (hallow hb), hgo⟩
      rw [hd]
      rcases hl with ⟨hw, rfl⟩ | hl
      · exact .object_empty hw
      · exact .object hl
    | array_open =>
      obtain ⟨-, hallow, hroom, hstack⟩ := open_eq_ok.mp htok
      obtain rfl := Parsed.more.inj hstack
      obtain ⟨t, l, rest', rfl, hl, hgo⟩ := h.array hlen ⟨state, hacc⟩
      have hd : DEPTH_MAX - below.length = DEPTH_MAX - (below.length + 1) + 1 := by omega
      refine .inl ⟨w, 91 :: t ++ [93], .array l, rest', by simp [hsplit], hw, by simp, ?_,
        fun hb => (allowed_array l).mpr (hallow hb), hgo⟩
      rw [hd]
      rcases hl with ⟨hw, rfl⟩ | hl
      · exact .array_empty hw
      · exact .array hl
    | object_close =>
      obtain ⟨he | he, -⟩ := close_eq_ok.mp htok
      · rw [he] at htakes
        cases htakes
      · rw [he] at htakes
        cases htakes
    | array_close =>
      obtain ⟨he | he, outer, lower, c, rfl, hnew, hstack⟩ := close_eq_ok.mp htok
      · obtain rfl := Parsed.more.inj hstack
        rw [new_array_eq] at hnew
        split at hnew
        · obtain rfl := ok.inj hnew
          exact .inr ⟨he, w, rest, outer, lower, by simpa using hsplit, hw, rfl, state, hacc⟩
        · simp at hnew
      · rw [he] at htakes
        cases htakes
    | string _ htext =>
      rw [json_parse_token] at htok
      obtain ⟨-, hallow, x, hx, hstack⟩ := scalar_eq_ok.mp htok
      obtain rfl := Parsed.more.inj hstack
      obtain ⟨hv, rfl⟩ := new_string_eq_ok.mp hx
      exact .inl (.scalar hsplit hw hne (.string (htext hv)) hallow ⟨state, hacc⟩)
    | number hn =>
      rw [parse_token_number] at htok
      obtain ⟨-, hallow, x, hx, hstack⟩ := scalar_eq_ok.mp htok
      obtain rfl := Parsed.more.inj hstack
      obtain rfl := ok.inj hx
      exact .inl (.scalar hsplit hw hne (.number hn) (fun hb => (allowed_number _).mpr (hallow hb))
        ⟨state, hacc⟩)
    | true =>
      obtain ⟨-, hallow, x, hx, hstack⟩ := scalar_eq_ok.mp htok
      obtain rfl := Parsed.more.inj hstack
      obtain rfl := ok.inj hx
      exact .inl (.scalar (x := .boolean Bool.true) hsplit hw hne .true hallow ⟨state, hacc⟩)
    | false =>
      obtain ⟨-, hallow, x, hx, hstack⟩ := scalar_eq_ok.mp htok
      obtain rfl := Parsed.more.inj hstack
      obtain rfl := ok.inj hx
      exact .inl (.scalar (x := .boolean Bool.false) hsplit hw hne .false hallow ⟨state, hacc⟩)
    | null =>
      obtain ⟨-, hallow, x, hx, hstack⟩ := scalar_eq_ok.mp htok
      obtain rfl := Parsed.more.inj hstack
      obtain rfl := ok.inj hx
      exact .inl (.scalar (x := .null) hsplit hw hne .null hallow ⟨state, hacc⟩)

/-- The rest of an array, after an element. -/
theorem Sound.elements_step {els : List (Variant R)} (hp : p.length < n + 1)
    (hgo : GoesOn flags p ⟨.EXPECT_ARRAY_COMMA, els⟩ below v) :
    ∃ t l rest outer lower, p = t ++ 93 :: rest ∧ MoreElements (DEPTH_MAX - below.length) t l ∧
      below = outer :: lower ∧
      GoesOn flags rest (json_stack_add outer (.array (els ++ l))) lower v := by
  rcases hgo.first with ⟨-, he, -, -⟩ | ⟨w, lex, rest, tok, stack, hsplit, hw, hne, hl, htok, state, hacc⟩
  · cases he
  · have hlen : rest.length < n := by
      have := length_pos_of_ne_nil hne
      rw [hsplit] at hp
      simp only [length_append] at hp
      omega
    cases hl with
    | comma =>
      obtain rfl : ⟨.EXPECT_ARRAY_NEXT_ELEMENT, els⟩ :: below = stack := by
        simpa [json_parse_token] using htok
      rcases h.value hlen ⟨state, hacc⟩ rfl with ⟨w', t, x, rest', rfl, hw', hne', hx, -, hgo⟩ |
          ⟨he, -⟩
      · have hlen' : rest'.length < n := by
          simp only [length_append] at hlen
          omega
        obtain ⟨t', l, rest'', outer, lower, rfl, hl, rfl, hend⟩ := h.elements hlen' hgo
        refine ⟨w ++ 44 :: (w' ++ (t ++ t')), x :: l, rest'', outer, lower, by simp [hsplit],
          .inr ⟨w, _, rfl, hw, hl.cons hw' hx⟩, rfl, ?_⟩
        rwa [append_assoc] at hend
      · cases he
    | array_close =>
      obtain ⟨-, outer, lower, c, rfl, hnew, hstack⟩ := close_eq_ok.mp htok
      obtain rfl := Parsed.more.inj hstack
      rw [new_array_eq] at hnew
      split at hnew
      · obtain rfl := ok.inj hnew
        refine ⟨w, [], rest, outer, lower, by simpa using hsplit, .inl ⟨hw, rfl⟩, rfl, state, ?_⟩
        rwa [append_nil]
      · simp at hnew
    | number =>
      rw [parse_token_number] at htok
      simp [json_parse_scalar, takes_value] at htok
    | _ =>
      simp [json_parse_token, json_parse_open, json_parse_close, json_parse_scalar,
        takes_value, takes_key] at htok

variable {l : List (List UInt8 × Variant R)}

/-- The rest of an object, after a member. -/
theorem Sound.members_step (hp : p.length < n + 1)
    (hgo : GoesOn flags p ⟨.EXPECT_OBJECT_COMMA, flat l⟩ below v) :
    ∃ t l' rest outer lower, p = t ++ 125 :: rest ∧ MoreMembers (DEPTH_MAX - below.length) t l' ∧
      below = outer :: lower ∧
      GoesOn flags rest (json_stack_add outer (.object (l ++ l'))) lower v := by
  rcases hgo.first with ⟨-, he, -, -⟩ | ⟨w, lex, rest, tok, stack, hsplit, hw, hne, hl, htok, state, hacc⟩
  · cases he
  · have hlen : rest.length < n := by
      have := length_pos_of_ne_nil hne
      rw [hsplit] at hp
      simp only [length_append] at hp
      omega
    cases hl with
    | comma =>
      obtain rfl : ⟨.EXPECT_OBJECT_NEXT_KEY, flat l⟩ :: below = stack := by
        simpa [json_parse_token] using htok
      rcases h.key hlen ⟨state, hacc⟩ rfl rfl with
          ⟨w1, k, w2, w3, t, key, x, rest', rfl, hw1, hk, hw2, hw3, hx, hgo⟩ | ⟨he, -⟩
      · have hlen' : rest'.length < n := by
          simp only [length_append, length_cons] at hlen
          omega
        obtain ⟨t', l', rest'', outer, lower, rfl, hl, rfl, hend⟩ := h.members hlen' hgo
        refine ⟨w ++ 44 :: (w1 ++ (k ++ (w2 ++ 58 :: (w3 ++ (t ++ t'))))), (key, x) :: l', rest'',
          outer, lower, by simp [hsplit], .inr ⟨w, _, rfl, hw, hl.cons hw1 hk hw2 hw3 hx⟩, rfl, ?_⟩
        rwa [append_assoc] at hend
      · cases he
    | object_close =>
      obtain ⟨-, outer, lower, c, rfl, hnew, hstack⟩ := close_eq_ok.mp htok
      obtain rfl := Parsed.more.inj hstack
      rw [new_object_flat] at hnew
      split at hnew
      · obtain rfl := ok.inj hnew
        refine ⟨w, [], rest, outer, lower, by simpa using hsplit, .inl ⟨hw, rfl⟩, rfl, state, ?_⟩
        rwa [append_nil]
      · simp at hnew
    | number =>
      rw [parse_token_number] at htok
      simp [json_parse_scalar, takes_value] at htok
    | _ =>
      simp [json_parse_token, json_parse_open, json_parse_close, json_parse_scalar,
        takes_value, takes_key] at htok

end

/-- After a key there is a colon. -/
theorem GoesOn.colon {els : List (Variant R)}
    (hgo : GoesOn flags p ⟨.EXPECT_OBJECT_COLON, els⟩ below v) :
    ∃ w rest, p = w ++ 58 :: rest ∧ Ws w ∧
      GoesOn flags rest ⟨.EXPECT_OBJECT_VALUE, els⟩ below v := by
  rcases hgo.first with ⟨-, he, -, -⟩ | ⟨w, lex, rest, tok, stack, hsplit, hw, hne, hl, htok, state, hacc⟩
  · cases he
  · cases hl with
    | colon =>
      obtain rfl : ⟨.EXPECT_OBJECT_VALUE, els⟩ :: below = stack := by
        simpa [json_parse_token] using htok
      exact ⟨w, rest, by simpa using hsplit, hw, state, hacc⟩
    | number =>
      rw [parse_token_number] at htok
      simp [json_parse_scalar, takes_value] at htok
    | _ =>
      simp [json_parse_token, json_parse_open, json_parse_close, json_parse_scalar,
        takes_value, takes_key] at htok

/-- Where a key may come there is a member, or the object is closed. -/
theorem Sound.key_step (h : Sound (R := R) flags n) (hp : p.length < n + 1)
    (hgo : GoesOn flags p current below v) (htakes : current.expect.takes_key = true)
    (hels : current.elements = flat l) :
    (∃ w₁ k w₂ w₃ t key x rest, p = w₁ ++ (k ++ (w₂ ++ 58 :: (w₃ ++ (t ++ rest)))) ∧ Ws w₁ ∧
      StringText k key ∧ Ws w₂ ∧ Ws w₃ ∧ Value (DEPTH_MAX - below.length) t x ∧
      GoesOn flags rest ⟨.EXPECT_OBJECT_COMMA, flat (l ++ [(key, x)])⟩ below v) ∨
    current.expect = .EXPECT_OBJECT_FIRST_KEY ∧ ReadsClose flags 125 (.object l) p below v := by
  rcases hgo.first with ⟨-, he, -, -⟩ | ⟨w, lex, rest, tok, stack, hsplit, hw, hne, hl, htok, state, hacc⟩
  · rw [he] at htakes
    cases htakes
  · have hlen : rest.length < n := by
      have := length_pos_of_ne_nil hne
      rw [hsplit] at hp
      simp only [length_append] at hp
      omega
    have htv : current.expect.takes_value = false := by
      cases he : current.expect
      all_goals first | rfl | (rw [he] at htakes; cases htakes)
    have hafter : current.expect.after = .EXPECT_OBJECT_COLON := by
      cases he : current.expect
      all_goals first | rfl | (rw [he] at htakes; cases htakes)
    have hcolon : current.expect ≠ .EXPECT_OBJECT_COLON := by
      intro he
      rw [he] at htakes
      cases htakes
    have hcomma : current.expect ≠ .EXPECT_OBJECT_COMMA ∧ current.expect ≠ .EXPECT_ARRAY_COMMA ∧
        current.expect ≠ .EXPECT_ARRAY_FIRST_ELEMENT := by
      refine ⟨?_, ?_, ?_⟩
      all_goals
        intro he
        rw [he] at htakes
        cases htakes
    cases hl with
    | string _ htext =>
      rw [json_parse_token] at htok
      obtain ⟨-, -, x, hx, hstack⟩ := scalar_eq_ok.mp htok
      obtain rfl := Parsed.more.inj hstack
      obtain ⟨hv, rfl⟩ := new_string_eq_ok.mp hx
      rw [hafter, hels] at hacc
      obtain ⟨w₂, rest2, rfl, hw2, hgo⟩ := GoesOn.colon ⟨state, hacc⟩
      have hlen2 : rest2.length < n := by
        simp only [length_append, length_cons] at hlen
        omega
      rcases h.value hlen2 hgo rfl with ⟨w₃, t, x, rest3, rfl, hw3, -, hx, -, hgo⟩ | ⟨he, -⟩
      · refine .inl ⟨w, _, w₂, w₃, t, _, x, rest3, hsplit, hw, htext hv, hw2, hw3, hx, ?_⟩
        simpa [flat_append, JsonExpect.after] using hgo
      · cases he
    | object_close =>
      obtain ⟨he | he, outer, lower, c, rfl, hnew, hstack⟩ := close_eq_ok.mp htok
      · obtain rfl := Parsed.more.inj hstack
        rw [hels, new_object_flat] at hnew
        split at hnew
        · obtain rfl := ok.inj hnew
          exact .inr ⟨he, w, rest, outer, lower, by simpa using hsplit, hw, rfl, state, hacc⟩
        · simp at hnew
      · exact (hcomma.1 he).elim
    | number =>
      rw [parse_token_number] at htok
      simp [json_parse_scalar, htv] at htok
    | _ =>
      simp [json_parse_token, json_parse_open, json_parse_close, json_parse_scalar, htv, hcolon,
        hcomma] at htok

/-- So it is for texts of any length. -/
theorem sound (n : Nat) : Sound (R := R) flags n := by
  induction n with
  | zero =>
    exact ⟨fun h => (not_lt_zero _ h).elim, fun h => (not_lt_zero _ h).elim,
      fun h => (not_lt_zero _ h).elim, fun h => (not_lt_zero _ h).elim⟩
  | succ n ih => exact ⟨ih.value_step, ih.elements_step, ih.key_step, ih.members_step⟩

/-- What the parser accepts is a value with whitespace around it. -/
theorem Accepts.text {state : TokenizerState} (h : Accepts flags p state [⟨.EXPECT_TOPLEVEL, []⟩] v) :
    JsonText DEPTH_MAX p v ∧ Allowed flags v := by
  rcases (sound (p.length + 1)).value (lt_succ_self _) ⟨state, h⟩ rfl with
      ⟨w, t, x, rest, rfl, hw, -, hx, hallow, hgo⟩ | ⟨he, -⟩
  · rcases hgo.first with ⟨hrest, -, -, hv⟩ | ⟨w', lex, rest', tok, stack, -, -, -, hl, htok, -⟩
    · obtain rfl : x = v := by simpa using hv
      exact ⟨⟨w, t, rest, rfl, hw, hx, hrest⟩, hallow rfl⟩
    · -- after the value at the top level only the end is expected
      cases hl with
      | number =>
        rw [parse_token_number] at htok
        simp [json_parse_scalar, JsonExpect.takes_value, JsonExpect.after] at htok
      | _ =>
        simp [json_parse_token, json_parse_open, json_parse_close, json_parse_scalar,
          JsonExpect.takes_value, JsonExpect.takes_key, JsonExpect.after] at htok
  · cases he

end sound

end SdCompat.Json
