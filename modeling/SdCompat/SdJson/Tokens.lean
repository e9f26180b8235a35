import Mathlib.Data.List.TakeWhile
import SdCompat.SdJson.Grammar

/-! # The tokens of JSON

    The text of each token, and that `json_tokenize` reads just these, with
    whitespace before them.
-/

namespace SdCompat.Json

open List Outcome Number

variable {R : Type} [Double R]

/-! ## Section 1: What the tokenizer reads -/

/-- The text of a token. A string token is only known to be well formed when
    what it denotes is valid, which is checked later. -/
inductive Lexeme : Token R → List UInt8 → Prop where
  | colon : Lexeme .colon [58]
  | comma : Lexeme .comma [44]
  | object_open : Lexeme .object_open [123]
  | object_close : Lexeme .object_close [125]
  | array_open : Lexeme .array_open [91]
  | array_close : Lexeme .array_close [93]
  | string {s t : List UInt8} (ht : t ≠ []) (h : utf8_is_valid s = true → StringText t s) :
      Lexeme (.string s) t
  | number {n : Number} (h : n.WellFormed) : Lexeme n.token n.text
  | true : Lexeme (.boolean Bool.true) (ascii "true")
  | false : Lexeme (.boolean Bool.false) (ascii "false")
  | null : Lexeme .null (ascii "null")

/-- The state of the tokenizer after a token. -/
def Token.after : Token R → TokenizerState
  | .colon | .comma | .object_open | .array_open => .STATE_VALUE
  | _ => .STATE_VALUE_POST

theorem Number.token_after (n : Number) : (n.token : Token R).after = .STATE_VALUE_POST := by
  unfold token
  repeat' split
  all_goals rfl

variable {tok : Token R}

theorem Lexeme.ne_end {lex : List UInt8} (h : Lexeme tok lex) : tok ≠ .end := by
  cases h with
  | number =>
    unfold token
    repeat' split
    all_goals simp
  | _ => simp

variable {p w : List UInt8}

/-- The whitespace before a text that starts with something else. -/
theorem Ws.dropWhile (h : Ws w) : (w ++ p).dropWhile is_whitespace = p.dropWhile is_whitespace := by
  induction w with
  | nil => rfl
  | cons c w ih =>
    rw [cons_append, dropWhile_cons_of_pos (h c (by simp)), ih fun d hd => h d (by simp [hd])]

theorem ws_takeWhile (p : List UInt8) : Ws (p.takeWhile is_whitespace) :=
  fun _ hc => mem_takeWhile_imp hc

/-- The tokenizer skips whitespace. -/
theorem tokenize_ws (h : Ws w) (p : List UInt8) (state : TokenizerState) :
    (json_tokenize (w ++ p) state : Outcome (Token R × TokenizerState × List UInt8)) =
      json_tokenize p state := by
  rw [json_tokenize, json_tokenize, h.dropWhile]

variable {c : UInt8} {state : TokenizerState}

/-- The characters that are a token each, where a value is expected. -/
theorem value_punctuation_lexeme (h : value_punctuation c = some (tok, state)) :
    Lexeme tok [c] ∧ state = tok.after := by
  unfold value_punctuation at h
  repeat' split at h
  all_goals
    simp only [Option.some.injEq, reduceCtorEq] at h
  all_goals
    obtain ⟨rfl, rfl⟩ := h
    subst c
  · exact ⟨.object_open, rfl⟩
  · exact ⟨.object_close, rfl⟩
  · exact ⟨.array_open, rfl⟩
  · exact ⟨.array_close, rfl⟩

/-- The characters that are a token each, after a value. -/
theorem post_punctuation_lexeme (h : post_punctuation c = some (tok, state)) :
    Lexeme tok [c] ∧ state = tok.after := by
  unfold post_punctuation at h
  repeat' split at h
  all_goals
    simp only [Option.some.injEq, reduceCtorEq] at h
  all_goals
    obtain ⟨rfl, rfl⟩ := h
    subst c
  · exact ⟨.colon, rfl⟩
  · exact ⟨.comma, rfl⟩
  · exact ⟨.object_close, rfl⟩
  · exact ⟨.array_close, rfl⟩

variable {lit : List UInt8}

/-- A literal the text starts with. -/
theorem literal_split (h : lit.isPrefixOf p = true) : p = lit ++ p.drop lit.length := by
  obtain ⟨rest, rfl⟩ := List.isPrefixOf_iff_prefix.mp h
  rw [drop_left]

variable {rest : List UInt8}

variable {state' : TokenizerState}

/-- What the tokenizer reads after the whitespace is a token's text. -/
theorem json_token_sound (h : json_token state p = .ok (tok, state', rest)) :
    (tok = .end ∧ p = [] ∧ rest = []) ∨
      ∃ lex, p = lex ++ rest ∧ lex ≠ [] ∧ Lexeme tok lex ∧ state' = tok.after := by
  cases p with
  | nil =>
    obtain ⟨rfl, rfl, rfl⟩ : Token.end = tok ∧ state = state' ∧ [] = rest := by
      simpa [json_token] using h
    exact .inl ⟨rfl, rfl, rfl⟩
  | cons c r =>
    right
    rw [json_token.eq_def] at h
    cases state with
    | STATE_VALUE =>
      dsimp only at h
      split at h
      · next t s hpunct =>
        obtain ⟨rfl, rfl, rfl⟩ : t = tok ∧ s = state' ∧ r = rest := by simpa using h
        exact ⟨[c], rfl, by simp, value_punctuation_lexeme hpunct⟩
      · split at h
        · rw [bind_eq_ok] at h
          obtain ⟨⟨s, r'⟩, hs, h⟩ := h
          obtain ⟨rfl, rfl, rfl⟩ : Token.string s = tok ∧ TokenizerState.STATE_VALUE_POST = state' ∧
              r' = rest := by simpa using h
          obtain ⟨t, ht, hne, htext⟩ := json_parse_string_sound hs
          exact ⟨t, ht, hne, .string hne htext, rfl⟩
        · split at h
          · rw [bind_eq_ok] at h
            obtain ⟨⟨t, r'⟩, ht, h⟩ := h
            obtain ⟨rfl, rfl, rfl⟩ : t = tok ∧ TokenizerState.STATE_VALUE_POST = state' ∧
                r' = rest := by simpa using h
            obtain ⟨n, hn, htext, rfl⟩ := json_parse_number_sound ht
            exact ⟨n.text, htext, n.text_ne_nil hn, .number hn, n.token_after.symm⟩
          · repeat' split at h
            · next hlit =>
              obtain ⟨rfl, rfl, rfl⟩ : Token.boolean Bool.true = tok ∧
                TokenizerState.STATE_VALUE_POST = state' ∧ _ = rest := by simpa using h
              exact ⟨ascii "true", literal_split hlit, by decide, .true, rfl⟩
            · next hlit =>
              obtain ⟨rfl, rfl, rfl⟩ : Token.boolean Bool.false = tok ∧
                TokenizerState.STATE_VALUE_POST = state' ∧ _ = rest := by simpa using h
              exact ⟨ascii "false", literal_split hlit, by decide, .false, rfl⟩
            · next hlit =>
              obtain ⟨rfl, rfl, rfl⟩ : Token.null = tok ∧
                TokenizerState.STATE_VALUE_POST = state' ∧ _ = rest := by simpa using h
              exact ⟨ascii "null", literal_split hlit, by decide, .null, rfl⟩
            · simp at h
    | STATE_VALUE_POST =>
      dsimp only at h
      split at h
      · next t s hpunct =>
        obtain ⟨rfl, rfl, rfl⟩ : t = tok ∧ s = state' ∧ r = rest := by simpa using h
        exact ⟨[c], rfl, by simp, post_punctuation_lexeme hpunct⟩
      · simp at h

/-- What the tokenizer reads: at the end of the text there is only whitespace
    left, and else a token with whitespace before it. -/
theorem tokenize_sound (h : json_tokenize p state = .ok (tok, state', rest)) :
    (tok = .end ∧ Ws p ∧ rest = []) ∨
      ∃ w lex, p = w ++ (lex ++ rest) ∧ Ws w ∧ lex ≠ [] ∧ Lexeme tok lex ∧ state' = tok.after := by
  have hp := takeWhile_append_dropWhile (p := is_whitespace) (l := p)
  rcases json_token_sound h with ⟨rfl, hnil, rfl⟩ | ⟨lex, hlex, hne, hl, hs⟩
  · rw [hnil, append_nil] at hp
    exact .inl ⟨rfl, hp ▸ ws_takeWhile p, rfl⟩
  · exact .inr ⟨p.takeWhile is_whitespace, lex, by rw [← hlex, hp], ws_takeWhile p, hne, hl, hs⟩

/-! ## Section 2: What the tokenizer is given -/

/-- The end of the text. -/
theorem tokenize_end (h : Ws p) (state : TokenizerState) :
    json_tokenize p state = .ok ((.end : Token R), state, []) := by
  have := tokenize_ws (R := R) h [] state
  rw [append_nil] at this
  rw [this]
  rfl

/-- What starts with another character than whitespace starts with a token. -/
theorem tokenize_token (hw : Ws w) (hp : ∀ c ∈ p.head?, is_whitespace c = false)
    (state : TokenizerState) :
    (json_tokenize (w ++ p) state : Outcome (Token R × TokenizerState × List UInt8)) =
      json_token state p := by
  rw [tokenize_ws hw, json_tokenize]
  cases p with
  | nil => rfl
  | cons c p => rw [dropWhile_cons_of_neg (by simp [hp c (by simp)])]

/-- The punctuation where a value is expected. -/
theorem tokenize_value_punctuation (tok : Token R) (hw : Ws w) (hc : is_whitespace c = false)
    (h : value_punctuation c = some (tok, tok.after)) :
    json_tokenize (w ++ c :: rest) .STATE_VALUE = .ok (tok, tok.after, rest) := by
  rw [tokenize_token hw (by simpa using hc), json_token]
  rw [h]

/-- The punctuation after a value. -/
theorem tokenize_post_punctuation (tok : Token R) (hw : Ws w) (hc : is_whitespace c = false)
    (h : post_punctuation c = some (tok, tok.after)) :
    json_tokenize (w ++ c :: rest) .STATE_VALUE_POST = .ok (tok, tok.after, rest) := by
  rw [tokenize_token hw (by simpa using hc), json_token]
  rw [h]

/-- A string where a value is expected. -/
theorem tokenize_string {t s : List UInt8} (hw : Ws w) (h : StringText t s) :
    json_tokenize (w ++ (t ++ rest)) .STATE_VALUE =
      .ok ((.string s : Token R), .STATE_VALUE_POST, rest) := by
  have hparse := json_parse_string_complete h rest
  obtain ⟨body, rfl, -⟩ := h
  rw [tokenize_token hw (by simp [is_whitespace])]
  rw [cons_append, cons_append] at hparse ⊢
  rw [json_token]
  simp only [hparse, ok_bind, pure_eq]
  rfl

/-- The first character of a number. -/
theorem Number.text_head {n : Number} (hn : n.WellFormed) :
    ∃ c r, n.text = c :: r ∧ (c = 45 ∨ is_digit c = true) := by
  obtain ⟨d, ds, hds⟩ := exists_cons_of_ne_nil hn.integer.1.1
  cases hneg : n.negative with
  | true => exact ⟨45, _, by simp only [text, hneg]; rfl, .inl rfl⟩
  | false =>
    exact ⟨d, _, by simp only [text, hneg, hds]; rfl, .inr (hn.integer.1.2 d (by simp [hds]))⟩

/-- A number where a value is expected. -/
theorem tokenize_number (hw : Ws w) {n : Number} (hn : n.WellFormed) (hrest : NumberEnds rest) :
    json_tokenize (w ++ (n.text ++ rest)) .STATE_VALUE =
      .ok ((n.token : Token R), .STATE_VALUE_POST, rest) := by
  have hparse := json_parse_number_complete (R := R) hn hrest
  obtain ⟨c, r, htext, hc⟩ := n.text_head hn
  have hall : ∀ c : UInt8, (c = 45 ∨ is_digit c = true) →
      is_whitespace c = false ∧ c ≠ 123 ∧ c ≠ 125 ∧ c ≠ 91 ∧ c ≠ 93 ∧ c ≠ 34 := fun c =>
    forall_byte (P := fun c => (c = 45 ∨ is_digit c = true) →
      is_whitespace c = false ∧ c ≠ 123 ∧ c ≠ 125 ∧ c ≠ 91 ∧ c ≠ 93 ∧ c ≠ 34) (by decide +kernel) c
  obtain ⟨hws, h1, h2, h3, h4, h5⟩ := hall c hc
  rw [htext, cons_append] at hparse ⊢
  rw [tokenize_token hw (by simpa using hws)]
  have hnum : (c = 45 || is_digit c) = true := by simpa using hc
  simp [json_token, value_punctuation, h1, h2, h3, h4, h5, hnum, hparse]

/-- A literal where a value is expected. -/
theorem tokenize_literal (tok : Token R) (hw : Ws w)
    (h : (lit, tok) ∈ [(ascii "true", Token.boolean Bool.true), (ascii "false", Token.boolean Bool.false), (ascii "null", Token.null)]) :
    json_tokenize (w ++ (lit ++ rest)) .STATE_VALUE = .ok (tok, .STATE_VALUE_POST, rest) := by
  simp only [mem_cons, Prod.mk.injEq, not_mem_nil, or_false] at h
  rcases h with ⟨rfl, rfl⟩ | ⟨rfl, rfl⟩ | ⟨rfl, rfl⟩
  all_goals
    rw [tokenize_token hw (by simp [ascii, is_whitespace])]
    simp [ascii, json_token, value_punctuation, is_digit]

end SdCompat.Json
