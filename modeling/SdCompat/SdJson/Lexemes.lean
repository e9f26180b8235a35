import Mathlib.Data.List.Induction
import SdCompat.Basic.Utf8Chars
import SdCompat.SdJson.Parse

/-! # The lexical grammar of JSON

    The strings and numbers of JSON as the grammar has them, and that
    `json_parse_string` and `json_parse_number` read just these.
-/

namespace SdCompat.Json

open List Outcome Prod Nat Double

/-! ## Section 1: Strings -/

/-- The escapes of one letter, and the byte each stands for. -/
def short_escapes : List (UInt8 × UInt8) :=
  [(34, 34), (92, 92), (47, 47), (98, 8), (102, 12), (110, 10), (114, 13), (116, 9)]

/-- Four hexadecimal digits and their number. -/
inductive Hex4 : List UInt8 → Nat → Prop where
  | digits {a b c d aa bb cc dd : UInt8} (ha : unhexchar a = some aa) (hb : unhexchar b = some bb)
      (hc : unhexchar c = some cc) (hd : unhexchar d = some dd) :
      Hex4 [a, b, c, d] (((aa.toNat * 16 + bb.toNat) * 16 + cc.toNat) * 16 + dd.toNat)

/-- `StringChar text s`: the text of one character of a string, and the bytes
    it denotes. -/
inductive StringChar : List UInt8 → List UInt8 → Prop where
  /-- A code point that stands for itself: no control character, quote or
      backslash. -/
  | plain {ch : Nat} (hv : unichar_is_valid ch = true) (hctrl : 32 ≤ ch) (hdel : ch ≠ 127)
      (hquote : ch ≠ 34) (hback : ch ≠ 92) :
      StringChar (utf8_encode_unichar ch) (utf8_encode_unichar ch)
  /-- An escape such as `\n`. -/
  | short {e b : UInt8} (h : (e, b) ∈ short_escapes) : StringChar [92, e] [b]
  /-- The escape `\u` of a code point other than 0. -/
  | unicode {h : List UInt8} {x : Nat} (hx : Hex4 h x) (hne : x ≠ 0)
      (hs : utf16_is_surrogate x = false) (hv : unichar_is_valid x = true) :
      StringChar (92 :: 117 :: h) (utf8_encode_unichar x)
  /-- Two such escapes that are a surrogate pair. -/
  | pair {h h' : List UInt8} {x y : Nat} (hx : Hex4 h x) (hy : Hex4 h' y)
      (hlead : utf16_is_surrogate x = true) (hlead' : utf16_is_trailing_surrogate x = false)
      (htrail : utf16_is_trailing_surrogate y = true)
      (hv : unichar_is_valid (utf16_surrogate_pair_to_unichar x y) = true) :
      StringChar (92 :: 117 :: h ++ 92 :: 117 :: h')
        (utf8_encode_unichar (utf16_surrogate_pair_to_unichar x y))

/-- What stands between the quotes, and the string it denotes. -/
inductive StringChars : List UInt8 → List UInt8 → Prop where
  | nil : StringChars [] []
  | cons {t b t' s : List UInt8} : StringChar t b → StringChars t' s → StringChars (t ++ t') (b ++ s)

/-- A string in quotes. -/
def StringText (t s : List UInt8) : Prop := ∃ body, t = 34 :: body ++ [34] ∧ StringChars body s

/-! ### One round of the loop -/

/-- A piece the loop takes: a character, except that the code point of an
    escape may be one that is not valid. -/
inductive Piece : List UInt8 → List UInt8 → Prop where
  | char {t b : List UInt8} (h : StringChar t b) : Piece t b
  | invalid {t : List UInt8} {ch : Nat} (ht : t ≠ []) (hch : ch < 2097152)
      (hv : unichar_is_valid ch = false) : Piece t (utf8_encode_unichar ch)

theorem unhexchar_lt {c d : UInt8} (h : unhexchar c = some d) : d.toNat < 16 := by
  have hall : ∀ c : UInt8, ∀ d, unhexchar c = some d → d.toNat < 16 := fun c =>
    forall_byte (P := fun c => ∀ d, unhexchar c = some d → d.toNat < 16) (by decide +kernel) c
  exact hall c d h

variable {x : Nat}

variable {h : List UInt8}

theorem Hex4.lt (hx : Hex4 h x) : x < 65536 := by
  cases hx with
  | digits ha hb hc hd =>
    have := unhexchar_lt ha
    have := unhexchar_lt hb
    have := unhexchar_lt hc
    have := unhexchar_lt hd
    omega

theorem Hex4.length (hx : Hex4 h x) : h.length = 4 := by
  cases hx
  rfl

/-- The four digits are put together with shifts. -/
theorem ucs2_eq {a b c d : Nat} (hb : b < 16) (hc : c < 16) (hd : d < 16) :
    a <<< 12 ||| b <<< 8 ||| c <<< 4 ||| d = ((a * 16 + b) * 16 + c) * 16 + d := by
  have h1 : a <<< 12 ||| b <<< 8 = (a * 16 + b) <<< 8 := by
    rw [show a <<< 12 = (a <<< 4) <<< 8 by rw [← shiftLeft_add], ← shiftLeft_or_distrib,
      ← shiftLeft_add_eq_or_of_lt (by omega), shiftLeft_eq a 4]
  have h2 : (a * 16 + b) <<< 8 ||| c <<< 4 = ((a * 16 + b) * 16 + c) <<< 4 := by
    rw [show (a * 16 + b) <<< 8 = ((a * 16 + b) <<< 4) <<< 4 by rw [← shiftLeft_add],
      ← shiftLeft_or_distrib, ← shiftLeft_add_eq_or_of_lt (by omega),
      shiftLeft_eq (a * 16 + b) 4]
  rw [h1, h2, ← shiftLeft_add_eq_or_of_lt (by omega), shiftLeft_eq]

variable {c : List UInt8}

/-- `unhex_ucs2` reads four digits, which are not all zero. -/
theorem unhex_ucs2_eq_some :
    unhex_ucs2 c = some x ↔ x ≠ 0 ∧ ∃ h rest, c = h ++ rest ∧ Hex4 h x := by
  constructor
  · intro hu
    unfold unhex_ucs2 at hu
    split at hu
    · next a b c' d rest =>
      split at hu
      · next aa bb cc dd ha hb hc hd =>
        rw [ucs2_eq (unhexchar_lt hb) (unhexchar_lt hc) (unhexchar_lt hd)] at hu
        dsimp only at hu
        split at hu
        · simp at hu
        · next hne =>
          cases hu
          exact ⟨hne, [a, b, c', d], rest, rfl, .digits ha hb hc hd⟩
      · simp at hu
    · simp at hu
  · rintro ⟨hne, h, rest, rfl, hx⟩
    cases hx with
    | digits ha hb hc hd =>
      simp only [cons_append, unhex_ucs2, ha, hb, hc, hd]
      rw [ucs2_eq (unhexchar_lt hb) (unhexchar_lt hc) (unhexchar_lt hd), if_neg hne]

theorem simple_escape_iff {e b : UInt8} : simple_escape e = some b ↔ (e, b) ∈ short_escapes := by
  constructor
  · have hall : ∀ e : UInt8, ∀ b ∈ simple_escape e, (e, b) ∈ short_escapes := fun e =>
      forall_byte (P := fun e => ∀ b ∈ simple_escape e, (e, b) ∈ short_escapes)
        (by decide +kernel) e
    exact fun h => hall e b h
  · have hall : (short_escapes.all fun p => simple_escape p.1 == some p.2) = true := by decide +kernel
    exact fun h => eq_of_beq (all_eq_true.mp hall (e, b) h)

theorem surrogate_range : (utf16_is_surrogate x = true ↔ 0xd800 ≤ x ∧ x ≤ 0xdfff) ∧
      (utf16_is_trailing_surrogate x = true ↔ 0xdc00 ≤ x ∧ x ≤ 0xdfff) := by
  simp [utf16_is_surrogate, utf16_is_trailing_surrogate]

/-- A surrogate pair makes a code point within the unicode space. -/
theorem surrogate_pair_lt {y : Nat} (hx : utf16_is_surrogate x = true)
    (hx' : utf16_is_trailing_surrogate x = false) (hy : utf16_is_trailing_surrogate y = true) :
    utf16_surrogate_pair_to_unichar x y < 2097152 := by
  have hx := surrogate_range.1.mp hx
  have hx' : ¬ (0xdc00 ≤ x ∧ x ≤ 0xdfff) := by rw [← surrogate_range.2, hx']; simp
  have hy := surrogate_range.2.mp hy
  rw [utf16_surrogate_pair_to_unichar]
  omega

variable {rest s : List UInt8}

/-- What the escape `\u` reads: a piece that is a character when its code
    point is valid. -/
theorem unicode_escape_sound (h : json_parse_unicode_escape c = .ok (.piece s rest)) :
    ∃ t, 92 :: 117 :: c = t ++ rest ∧ Piece t s := by
  unfold json_parse_unicode_escape at h
  split at h
  · simp at h
  · next x hu =>
    obtain ⟨hne, hh, r, rfl, hx⟩ := unhex_ucs2_eq_some.mp hu
    rw [← hx.length, drop_left] at h
    dsimp only at h
    split at h
    · next hs =>
      -- a code point by itself
      simp only [Bool.not_eq_true'] at hs
      obtain ⟨rfl, rfl⟩ : utf8_encode_unichar x = s ∧ r = rest := by simpa using h
      refine ⟨92 :: 117 :: hh, rfl, ?_⟩
      cases hv : unichar_is_valid x with
      | true => exact .char (.unicode hx hne hs hv)
      | false => exact .invalid (by simp) (by have := hx.lt; omega) hv
    · next hs =>
      split at h
      · simp at h
      · next htr =>
        split at h
        · next c2 =>
          split at h
          · simp at h
          · next y hu2 =>
            obtain ⟨hne2, hh2, r2, rfl, hy⟩ := unhex_ucs2_eq_some.mp hu2
            have hdrop : (hh2 ++ r2).drop hh.length = r2 := by
              rw [hx.length, ← hy.length, drop_left]
            rw [hdrop] at h
            split at h
            · simp at h
            · next hty =>
              simp only [Bool.not_eq_true] at htr
              obtain ⟨rfl, rfl⟩ :
                  utf8_encode_unichar (utf16_surrogate_pair_to_unichar x y) = s ∧ r2 = rest := by
                simpa using h
              refine ⟨92 :: 117 :: hh ++ 92 :: 117 :: hh2, by simp, ?_⟩
              cases hv : unichar_is_valid (utf16_surrogate_pair_to_unichar x y) with
              | true =>
                exact .char (.pair hx hy (by simpa using hs) htr (by simpa using hty) hv)
              | false =>
                exact .invalid (by simp) (surrogate_pair_lt (by simpa using hs) htr (by simpa using hty)) hv
        · simp at h

/-- A byte compared with a small number. -/
theorem byte_facts (c : UInt8) :
    (c < 32 ↔ c.toNat < 32) ∧ (c = 0x7f ↔ c.toNat = 127) ∧ (c = 34 ↔ c.toNat = 34) ∧
      (c = 92 ↔ c.toNat = 92) := by
  refine ⟨UInt8.lt_iff_toNat_lt, ?_, ?_, ?_⟩
  · exact UInt8.toNat_inj.symm
  · exact UInt8.toNat_inj.symm
  · exact UInt8.toNat_inj.symm

/-- What a round of the loop has read. -/
theorem string_round_sound :
    (∀ rest, json_parse_string_round c = .ok (.closed rest) → c = 34 :: rest) ∧
      ∀ s rest, json_parse_string_round c = .ok (.piece s rest) → ∃ t, c = t ++ rest ∧ Piece t s := by
  cases c with
  | nil => simp [json_parse_string_round]
  | cons c r =>
    rw [json_parse_string_round.eq_def]
    dsimp only
    split
    · simp
    · next hctrl =>
      split
      · simp
      · next hdel =>
        split
        · next hq => simp [hq]
        · next hq =>
          split
          · next hb =>
            -- after a backslash
            cases r with
            | nil => simp
            | cons e r =>
              simp only
              split
              · next ch he =>
                refine ⟨by simp, fun s rest h => ?_⟩
                obtain ⟨rfl, rfl⟩ : [ch] = s ∧ r = rest := by simpa using h
                exact ⟨[92, e], by simp [hb], .char (.short (simple_escape_iff.mp he))⟩
              · split
                · next hu =>
                  refine ⟨fun rest h => ?_, fun s rest h => ?_⟩
                  · -- the escape never closes the string
                    unfold json_parse_unicode_escape at h
                    repeat' (first | split at h | dsimp only at h)
                    all_goals simp at h
                  · obtain ⟨t, ht, hp⟩ := unicode_escape_sound h
                    exact ⟨t, by rw [hb, hu, ht], hp⟩
                · simp
          · next hb =>
            -- a character that stands for itself
            split
            · simp
            · next len hv =>
              refine ⟨by simp, fun s rest h => ?_⟩
              obtain ⟨rfl, rfl⟩ : (c :: r).take len = s ∧ (c :: r).drop len = rest := by simpa using h
              obtain ⟨ch, hvalid, hlen, htake⟩ := encode_of_valid_unichar (by simp) hv
              refine ⟨(c :: r).take len, (take_append_drop _ _).symm, ?_⟩
              have hlt : ch < 2097152 := Nat.lt_of_lt_of_le (lt_of_valid hvalid) (by decide)
              obtain ⟨c', t, henc, hlow, hhigh⟩ := encode_head hlt
              have hc : c' = c := by
                rw [henc] at htake hlen
                rw [hlen, length_cons, take_succ_cons] at htake
                exact (cons.inj htake).1.symm
              subst hc
              have hf := byte_facts c'
              rw [hf.1] at hctrl
              rw [hf.2.1] at hdel
              rw [hf.2.2.1] at hq
              rw [hf.2.2.2] at hb
              rw [htake]
              exact .char (.plain hvalid (by omega) (by omega) (by omega) (by omega))

variable {b t : List UInt8}

/-- A character is read as it is. -/
theorem string_round_char (h : StringChar t b) (rest : List UInt8) :
    json_parse_string_round (t ++ rest) = .ok (.piece b rest) := by
  cases h with
  | @plain ch hv hctrl hdel hquote hback =>
    have hlt : ch < 2097152 := by have := lt_of_valid hv; omega
    obtain ⟨c, t, henc, hlow, hhigh⟩ := encode_head hlt
    have hvalid := valid_unichar_encode hlt rest
    rw [hv, if_pos rfl, henc, cons_append] at hvalid
    have hf := byte_facts c
    rw [henc, cons_append, json_parse_string_round.eq_def]
    dsimp only
    rw [if_neg (by rw [hf.1]; omega),
      if_neg (by rw [hf.2.1]; omega), if_neg (by rw [hf.2.2.1]; omega),
      if_neg (by rw [hf.2.2.2]; omega), hvalid, ← cons_append]
    simp
  | @short e b h =>
    have he := simple_escape_iff.mpr h
    simp [json_parse_string_round, he]
  | @unicode hh x hx hne hs hv =>
    have hu : unhex_ucs2 (hh ++ rest) = some x := unhex_ucs2_eq_some.mpr ⟨hne, hh, rest, rfl, hx⟩
    have hesc : simple_escape 117 = none := by decide
    have hdrop : (hh ++ rest).drop 4 = rest := by rw [← hx.length, drop_left]
    simp [json_parse_string_round, hesc, json_parse_unicode_escape, hu, hs, hdrop]
  | @pair hh hh' x y hx hy hlead hlead' htrail hv =>
    have hxr := surrogate_range.1.mp hlead
    have hyr := surrogate_range.2.mp htrail
    have hu : unhex_ucs2 (hh ++ 92 :: 117 :: (hh' ++ rest)) = some x :=
      unhex_ucs2_eq_some.mpr ⟨by omega, hh, _, rfl, hx⟩
    have hu' : unhex_ucs2 (hh' ++ rest) = some y :=
      unhex_ucs2_eq_some.mpr ⟨by omega, hh', rest, rfl, hy⟩
    have hesc : simple_escape 117 = none := by decide
    have hdrop : (hh ++ 92 :: 117 :: (hh' ++ rest)).drop 4 = 92 :: 117 :: (hh' ++ rest) := by
      rw [← hx.length, drop_left]
    have hdrop' : (hh' ++ rest).drop 4 = rest := by rw [← hy.length, drop_left]
    simp [json_parse_string_round, hesc, json_parse_unicode_escape, hu, hu', hlead, hlead', htrail,
      hdrop, hdrop']

/-! ### The loop -/

/-- Pieces one after the other. -/
inductive Pieces : List UInt8 → List UInt8 → Prop where
  | nil : Pieces [] []
  | cons {t b t' s : List UInt8} : Piece t b → Pieces t' s → Pieces (t ++ t') (b ++ s)

/-- The bytes of a character are the encoding of a valid code point. -/
theorem StringChar.encoded (h : StringChar t b) :
    t ≠ [] ∧ ∃ ch, unichar_is_valid ch = true ∧ b = utf8_encode_unichar ch := by
  cases h with
  | plain hv =>
    have := lt_of_valid hv
    exact ⟨encode_ne_nil (by omega), _, hv, rfl⟩
  | @short e b h =>
    refine ⟨by simp, b.toNat, ?_⟩
    have hall : (short_escapes.all fun p => unichar_is_valid p.2.toNat && p.2.toNat < 128) = true := by
      decide +kernel
    have hb := all_eq_true.mp hall (e, b) h
    rw [Bool.and_eq_true, decide_eq_true_eq] at hb
    exact ⟨hb.1, (encode_ascii hb.2).symm⟩
  | unicode hx hne hs hv => exact ⟨by simp, _, hv, rfl⟩
  | pair hx hy hlead hlead' htrail hv => exact ⟨by simp, _, hv, rfl⟩

/-- A piece is a character if its bytes are valid. -/
theorem Piece.encoded (h : Piece t b) : t ≠ [] ∧ ∃ ch, ch < 2097152 ∧ b = utf8_encode_unichar ch ∧
      (unichar_is_valid ch = true → StringChar t b) := by
  cases h with
  | char h =>
    obtain ⟨hne, ch, hv, hb⟩ := h.encoded
    exact ⟨hne, ch, by have := lt_of_valid hv; omega, hb, fun _ => h⟩
  | invalid ht hch hv => exact ⟨ht, _, hch, rfl, fun h => by simp [hv] at h⟩

/-- The string as a whole is valid exactly when all its pieces are. -/
theorem Pieces.chars (h : Pieces t s) (hv : utf8_is_valid s = true) : StringChars t s := by
  induction h with
  | nil => exact .nil
  | cons hp _ ih =>
    obtain ⟨-, ch, hlt, rfl, hchar⟩ := hp.encoded
    rw [utf8_is_valid_encode_append hlt, Bool.and_eq_true] at hv
    exact .cons (hchar hv.1) (ih hv.2)

theorem StringChars.valid (h : StringChars t s) : utf8_is_valid s = true := by
  induction h with
  | nil => rfl
  | cons hc _ ih =>
    obtain ⟨-, ch, hv, rfl⟩ := hc.encoded
    have := lt_of_valid hv
    rw [utf8_is_valid_encode_append (by omega), hv, ih]
    rfl

theorem string_loop_sound {fuel : Nat} {s' : List UInt8}
    (h : json_parse_string_loop fuel s c = .ok (s', rest)) :
    ∃ body b, c = body ++ 34 :: rest ∧ s' = s ++ b ∧ Pieces body b := by
  induction fuel generalizing s c with
  | zero => simp [json_parse_string_loop] at h
  | succ fuel ih =>
    rw [json_parse_string_loop, bind_eq_ok] at h
    obtain ⟨round, hround, h⟩ := h
    cases round with
    | closed r =>
      obtain ⟨rfl, rfl⟩ : s = s' ∧ r = rest := by simpa using h
      exact ⟨[], [], string_round_sound.1 r hround, by simp, .nil⟩
    | piece p r =>
      obtain ⟨t, rfl, hp⟩ := string_round_sound.2 p r hround
      obtain ⟨body, b, rfl, rfl, hps⟩ := ih h
      exact ⟨t ++ body, p ++ b, by simp, by simp, .cons hp hps⟩

theorem string_loop_complete {body : List UInt8} (h : StringChars body b) (rest : List UInt8) :
    ∀ (fuel : Nat) (s : List UInt8), body.length < fuel →
      json_parse_string_loop fuel s (body ++ 34 :: rest) = .ok (s ++ b, rest) := by
  induction h with
  | nil =>
    intro fuel s hf
    obtain ⟨fuel, rfl⟩ : ∃ k, fuel = k + 1 := ⟨fuel - 1, by simp at hf; omega⟩
    simp [json_parse_string_loop, json_parse_string_round]
  | @cons t b t' s' hc _ ih =>
    intro fuel s hf
    obtain ⟨fuel, rfl⟩ : ∃ k, fuel = k + 1 := ⟨fuel - 1, by omega⟩
    have hpos := length_pos_iff.mpr hc.encoded.1
    rw [length_append] at hf
    rw [json_parse_string_loop, append_assoc, string_round_char hc, ok_bind]
    dsimp only
    rw [ih fuel (s ++ b) (by omega), append_assoc]

theorem unicode_escape_not_abort (c : List UInt8) : json_parse_unicode_escape c ≠ .abort := by
  unfold json_parse_unicode_escape
  split
  · simp
  · dsimp only
    split
    · simp
    · split
      · simp
      · repeat' split
        all_goals simp

theorem string_round_not_abort (c : List UInt8) : json_parse_string_round c ≠ .abort := by
  unfold json_parse_string_round
  repeat' split
  all_goals first | simp; done | exact unicode_escape_not_abort _

/-- The loop has fuel enough. -/
theorem string_loop_not_abort {fuel : Nat} (hf : c.length < fuel) :
    json_parse_string_loop fuel s c ≠ .abort := by
  induction fuel generalizing s c with
  | zero => omega
  | succ fuel ih =>
    intro h
    rw [json_parse_string_loop, bind_eq_abort] at h
    rcases h with h | ⟨round, hround, h⟩
    · exact string_round_not_abort c h
    · cases round with
      | closed r => simp at h
      | piece p r =>
        obtain ⟨t, rfl, hp⟩ := string_round_sound.2 p r hround
        have hpos := length_pos_iff.mpr hp.encoded.1
        rw [length_append] at hf
        exact ih (by omega) h

/-- `json_parse_string` reads a string; it may have to be refused for a code
    point that is not valid. -/
theorem json_parse_string_sound (h : json_parse_string c = .ok (s, rest)) :
    ∃ t, c = t ++ rest ∧ t ≠ [] ∧ (utf8_is_valid s = true → StringText t s) := by
  unfold json_parse_string at h
  split at h
  · obtain ⟨body, b, rfl, rfl, hps⟩ := string_loop_sound h
    refine ⟨34 :: body ++ [34], by simp, by simp, fun hv => ⟨body, rfl, ?_⟩⟩
    exact hps.chars (by simpa using hv)
  · simp at h

theorem json_parse_string_complete (h : StringText t s) (rest : List UInt8) :
    json_parse_string (t ++ rest) = .ok (s, rest) := by
  obtain ⟨body, rfl, hc⟩ := h
  have := string_loop_complete hc rest ((body ++ 34 :: rest).length + 1) []
    (by rw [length_append]; omega)
  simpa [json_parse_string] using this

theorem json_parse_string_not_abort (c : List UInt8) : json_parse_string c ≠ .abort := by
  unfold json_parse_string
  split
  · exact string_loop_not_abort (lt_succ_self _)
  · simp

/-! ## Section 2: Numbers -/

/-- A number as it is written: its sign, the digits of the integer part, those
    of the fraction, and of the exponent the letter with the sign, and the
    digits. -/
structure Number where
  negative : Bool
  integer : List UInt8
  fraction : Option (List UInt8)
  exponent : Option (UInt8 × List UInt8 × List UInt8)

/-- One digit or more. -/
def Digits (t : List UInt8) : Prop := t ≠ [] ∧ ∀ c ∈ t, is_digit c = true

namespace Number

/-- The number syntax of JSON: no leading zeroes, digits after a point, and
    digits in an exponent. -/
structure WellFormed (n : Number) : Prop where
  integer : Digits n.integer ∧ (n.integer.head? = some 48 → n.integer = [48])
  fraction : ∀ t, n.fraction = some t → Digits t
  exponent : ∀ e sign t, n.exponent = some (e, sign, t) →
    (e = 101 ∨ e = 69) ∧ (sign = [] ∨ sign = [43] ∨ sign = [45]) ∧ Digits t

/-- The text of a fraction. -/
def fraction_text : Option (List UInt8) → List UInt8
  | none => []
  | some t => 46 :: t

/-- The text of an exponent. -/
def exponent_text : Option (UInt8 × List UInt8 × List UInt8) → List UInt8
  | none => []
  | some (e, sign, t) => e :: sign ++ t

def text (n : Number) : List UInt8 :=
  (if n.negative then [45] else []) ++ n.integer ++ fraction_text n.fraction ++
    exponent_text n.exponent

/-- The number that digits denote. -/
def digits_value (t : List UInt8) : Nat := t.foldl (fun v c => 10 * v + digit c) 0

variable {R : Type} [Double R]

/-- The integer part in floating point; for a zero there is nothing to
    compute. -/
def integer_real (t : List UInt8) : R :=
  if t = [48] then ofNat 0 else t.foldl exponent_digit (ofNat 0)

/-- The fraction in floating point, and its denominator. -/
def fraction_real (t : Option (List UInt8)) : R × R :=
  (t.getD []).foldl fraction_digit (ofNat 0, ofNat 1)

/-- The exponent in floating point. -/
def exponent_real (t : Option (UInt8 × List UInt8 × List UInt8)) : R :=
  ((t.map (·.2.2)).getD []).foldl exponent_digit (ofNat 0)

/-- The floating point number computed for a number. -/
def real (n : Number) : R :=
  real_value n.negative (integer_real n.integer) (fraction_real n.fraction)
    ((n.exponent.map (·.2.1)).getD [] == [45]) (exponent_real n.exponent)

/-- What a number denotes: an integer that fits is exact, any other number is
    one in floating point. -/
def token (n : Number) : Token R :=
  if n.fraction.isNone && n.exponent.isNone then
    if n.negative then
      if digits_value n.integer ≤ 2 ^ 63 then .integer (-(digits_value n.integer : Int))
      else .real n.real
    else if digits_value n.integer < 2 ^ 64 then .unsigned (digits_value n.integer)
    else .real n.real
  else .real n.real

end Number

export Number (digits_value)

/-- Nothing that a number could go on with. -/
def NumberEnds (rest : List UInt8) : Prop :=
  ∀ c ∈ rest.head?, is_digit c = false ∧ c ≠ 46 ∧ c ≠ 101 ∧ c ≠ 69

section digits
variable {σ : Type} {f : σ → UInt8 → σ}

theorem take_digits_append {ds : List UInt8} (hds : ∀ c ∈ ds, is_digit c = true)
    {rest : List UInt8} (hrest : ∀ c ∈ rest.head?, is_digit c = false) (s : σ) :
    take_digits f s (ds ++ rest) = (ds.foldl f s, rest) := by
  induction ds generalizing s with
  | nil =>
    cases rest with
    | nil => rfl
    | cons c rest => simp [take_digits, hrest c (by simp)]
  | cons c ds ih =>
    have hc : is_digit c = true := hds c (by simp)
    simp only [cons_append, take_digits, hc, foldl_cons]
    exact ih (fun d hd => hds d (by simp [hd])) _

/-- The loop takes all the digits there are. -/
theorem take_digits_spec (s : σ) (c : List UInt8) :
    ∃ ds rest, c = ds ++ rest ∧ (∀ d ∈ ds, is_digit d = true) ∧
      (∀ d ∈ rest.head?, is_digit d = false) ∧ take_digits f s c = (ds.foldl f s, rest) := by
  induction c generalizing s with
  | nil => exact ⟨[], [], rfl, by simp, by simp, rfl⟩
  | cons c rest ih =>
    cases hc : is_digit c with
    | true =>
      obtain ⟨ds, r, rfl, hds, hr, heq⟩ := ih (f s c)
      refine ⟨c :: ds, r, rfl, ?_, hr, by simp [take_digits, hc, heq]⟩
      intro d hd
      rcases mem_cons.mp hd with rfl | hd
      · exact hc
      · exact hds d hd
    | false => exact ⟨[], c :: rest, rfl, by simp, by simp [hc], by simp [take_digits, hc]⟩

end digits

/-! ### The integer part -/

section integer
variable {R : Type} [Double R]

theorem digit_le {c : UInt8} (h : is_digit c = true) : digit c ≤ 9 := by
  have hall : ∀ c : UInt8, is_digit c = true → digit c ≤ 9 := fun c =>
    forall_byte (P := fun c => is_digit c = true → digit c ≤ 9) (by decide +kernel) c
  exact hall c h

theorem digits_value_concat (ds : List UInt8) (c : UInt8) :
    Number.digits_value (ds ++ [c]) = 10 * Number.digits_value ds + digit c := by
  simp [Number.digits_value]

/-- One digit of a number without a sign: it becomes a real when it does not
    fit any more, and stays one. -/
theorem integer_digit_unsigned (s : IntegerPart R) {c : UInt8} (hc : digit c ≤ 9) :
    integer_digit false s c =
      if s.is_real = true ∨ 2 ^ 64 ≤ 10 * s.u + digit c then
        { s with is_real := true, x := exponent_digit s.x c }
      else { s with u := 10 * s.u + digit c, x := exponent_digit s.x c } := by
  have hmax : UINT64_MAX = 2 ^ 64 - 1 := rfl
  obtain ⟨is_real, i, u, x⟩ := s
  simp only [integer_digit, exponent_digit]
  cases is_real with
  | true => simp
  | false =>
    simp only [Bool.false_eq_true, if_false, false_or]
    split
    · rw [if_pos (by omega)]
    · split
      · rw [if_pos (by omega)]
      · rw [if_neg (by omega)]

/-- One digit of a negative number. -/
theorem integer_digit_negative (s : IntegerPart R) {c : UInt8} (hc : digit c ≤ 9) :
    integer_digit true s c =
      if s.is_real = true ∨ 10 * s.i - digit c < -2 ^ 63 then
        { s with is_real := true, x := exponent_digit s.x c }
      else { s with i := 10 * s.i - digit c, x := exponent_digit s.x c } := by
  have hmin : INT64_MIN = -2 ^ 63 := rfl
  have hmin' : INT64_MIN.tdiv 10 = -922337203685477580 := by decide
  obtain ⟨is_real, i, u, x⟩ := s
  simp only [integer_digit, exponent_digit, if_true]
  cases is_real with
  | true => simp
  | false =>
    simp only [Bool.false_eq_true, if_false, false_or]
    split
    · rw [if_pos (by omega)]
    · split
      · rw [if_pos (by omega)]
      · rw [if_neg (by omega)]

variable {ds : List UInt8}

/-- The integer is exact as long as it fits. -/
theorem integer_digits_unsigned (hds : ∀ c ∈ ds, is_digit c = true) : ∃ (i : Int) (u : Nat),
      ds.foldl (integer_digit false) (⟨false, 0, 0, ofNat 0⟩ : IntegerPart R) =
        ⟨decide (2 ^ 64 ≤ Number.digits_value ds), i, u, ds.foldl exponent_digit (ofNat 0)⟩ ∧
      (Number.digits_value ds < 2 ^ 64 → u = Number.digits_value ds) := by
  induction ds using reverseRecOn with
  | nil => exact ⟨0, 0, rfl, fun _ => rfl⟩
  | append_singleton ds c ih =>
    obtain ⟨i, u, heq, hu⟩ := ih fun d hd => hds d (by simp [hd])
    have hc := digit_le (hds c (by simp))
    rw [foldl_concat, foldl_concat, heq, digits_value_concat,
      integer_digit_unsigned _ hc]
    generalize Number.digits_value ds = v at hu
    by_cases hv : 2 ^ 64 ≤ 10 * v + digit c
    · refine ⟨i, u, ?_, fun h => by omega⟩
      rw [if_pos]
      · rw [decide_eq_true hv]
      · by_cases h : 2 ^ 64 ≤ v
        · exact .inl (decide_eq_true h)
        · exact .inr (by rw [hu (by omega)]; exact hv)
    · obtain rfl : u = v := hu (by omega)
      refine ⟨i, 10 * u + digit c, ?_, fun _ => rfl⟩
      rw [if_neg]
      · rw [decide_eq_false hv, decide_eq_false (show ¬ 2 ^ 64 ≤ u by omega)]
      · rintro (h | h)
        · have := of_decide_eq_true h
          omega
        · exact hv h

theorem integer_digits_negative (hds : ∀ c ∈ ds, is_digit c = true) : ∃ (i : Int) (u : Nat),
      ds.foldl (integer_digit true) (⟨false, 0, 0, ofNat 0⟩ : IntegerPart R) =
        ⟨decide (2 ^ 63 < Number.digits_value ds), i, u, ds.foldl exponent_digit (ofNat 0)⟩ ∧
      (Number.digits_value ds ≤ 2 ^ 63 → i = -(Number.digits_value ds : Int)) := by
  induction ds using reverseRecOn with
  | nil => exact ⟨0, 0, rfl, fun _ => rfl⟩
  | append_singleton ds c ih =>
    obtain ⟨i, u, heq, hi⟩ := ih fun d hd => hds d (by simp [hd])
    have hc := digit_le (hds c (by simp))
    rw [foldl_concat, foldl_concat, heq, digits_value_concat,
      integer_digit_negative _ hc]
    generalize Number.digits_value ds = v at hi
    by_cases hv : 2 ^ 63 < 10 * v + digit c
    · refine ⟨i, u, ?_, fun h => by omega⟩
      rw [if_pos]
      · rw [decide_eq_true hv]
      · by_cases h : 2 ^ 63 < v
        · exact .inl (decide_eq_true h)
        · exact .inr (by dsimp only; omega)
    · refine ⟨10 * i - digit c, u, ?_, fun _ => by omega⟩
      rw [if_neg]
      · rw [decide_eq_false hv, decide_eq_false (show ¬ 2 ^ 63 < v by omega)]
      · rintro (h | h)
        · have := of_decide_eq_true h
          omega
        · dsimp only at h
          omega

end integer

section number
variable {R : Type} [Double R]

/-- What the variables of the loop are for the digits of an integer part. -/
structure IntegerPart.Of (negative : Bool) (ds : List UInt8) (n : IntegerPart R) : Prop where
  x : n.x = Number.integer_real ds
  unsigned : negative = false → n.is_real = decide (2 ^ 64 ≤ Number.digits_value ds) ∧
    (Number.digits_value ds < 2 ^ 64 → n.u = Number.digits_value ds)
  integer : negative = true → n.is_real = decide (2 ^ 63 < Number.digits_value ds) ∧
    (Number.digits_value ds ≤ 2 ^ 63 → n.i = -(Number.digits_value ds : Int))

variable {ds : List UInt8}

/-- The loop, over digits of which the first is not zero. -/
theorem integer_part_of_digits (negative : Bool) (hds : ∀ c ∈ ds, is_digit c = true)
    (hne : ds ≠ [48]) : IntegerPart.Of negative ds
      (ds.foldl (integer_digit negative) (⟨false, 0, 0, ofNat 0⟩ : IntegerPart R)) := by
  cases negative with
  | false =>
    obtain ⟨i, u, heq, hu⟩ := integer_digits_unsigned (R := R) hds
    rw [heq]
    exact ⟨by rw [Number.integer_real, if_neg hne], fun _ => ⟨rfl, hu⟩, fun h => by cases h⟩
  | true =>
    obtain ⟨i, u, heq, hi⟩ := integer_digits_negative (R := R) hds
    rw [heq]
    exact ⟨by rw [Number.integer_real, if_neg hne], (fun h => by cases h), fun _ => ⟨rfl, hi⟩⟩

theorem integer_part_zero (negative : Bool) :
    IntegerPart.Of negative [48] (⟨false, 0, 0, ofNat 0⟩ : IntegerPart R) := by
  have hv : Number.digits_value [48] = 0 := by decide
  exact ⟨by rw [Number.integer_real, if_pos rfl], fun _ => ⟨by rw [hv]; rfl, fun _ => hv.symm⟩,
    fun _ => ⟨by rw [hv]; rfl, fun _ => by rw [hv]; rfl⟩⟩

variable {c rest : List UInt8} {negative : Bool}

theorem integer_part_sound {n : IntegerPart R}
    (h : json_parse_integer_part negative c = .ok (n, rest)) :
    ∃ ds, c = ds ++ rest ∧ (Digits ds ∧ (ds.head? = some 48 → ds = [48])) ∧ n.Of negative ds := by
  cases c with
  | nil => simp [json_parse_integer_part] at h
  | cons c r =>
    rw [json_parse_integer_part] at h
    split at h
    · next hz =>
      obtain ⟨rfl, rfl⟩ : (⟨false, 0, 0, ofNat 0⟩ : IntegerPart R) = n ∧ r = rest := by
        simpa using h
      exact ⟨[48], by simp [hz], ⟨⟨by simp, forall_mem_singleton.mpr (by decide)⟩, fun _ => rfl⟩,
        integer_part_zero negative⟩
    · next hz =>
      split at h
      · next hd =>
        obtain ⟨ds, r', hc, hds, hr, heq⟩ := take_digits_spec (f := integer_digit negative)
          (⟨false, 0, 0, ofNat 0⟩ : IntegerPart R) (c :: r)
        rw [heq] at h
        obtain ⟨rfl, rfl⟩ := mk.inj (ok.inj h)
        -- the first of the digits is `c`
        obtain ⟨ds, rfl⟩ : ∃ ds', ds = c :: ds' := by
          cases ds with
          | nil =>
            rw [nil_append] at hc
            rw [← hc] at hr
            simp [hd] at hr
          | cons d ds' =>
            exact ⟨ds', by rw [(cons.inj hc).1]⟩
        have hne : c :: ds ≠ [48] := fun he => hz (cons.inj he).1
        exact ⟨c :: ds, hc, ⟨⟨by simp, hds⟩, fun hh => (hz (by simpa using hh)).elim⟩,
          integer_part_of_digits negative hds hne⟩
      · simp at h

theorem integer_part_complete (h : Digits ds ∧ (ds.head? = some 48 → ds = [48]))
    (hrest : ∀ c ∈ rest.head?, is_digit c = false) :
    ∃ n : IntegerPart R, json_parse_integer_part negative (ds ++ rest) = .ok (n, rest) ∧
      n.Of negative ds := by
  obtain ⟨⟨hne, hds⟩, hzero⟩ := h
  obtain ⟨c, ds, rfl⟩ := exists_cons_of_ne_nil hne
  by_cases hz : c = 48
  · obtain rfl : ds = [] := by simpa [hz] using hzero (by simp [hz])
    subst hz
    exact ⟨_, by rw [cons_append]; rfl,
      integer_part_zero negative⟩
  · refine ⟨_, ?_, integer_part_of_digits negative hds fun he => hz (cons.inj he).1⟩
    rw [cons_append, json_parse_integer_part, if_neg hz, if_pos (hds c (by simp)),
      ← cons_append, take_digits_append hds hrest]

/-! ### Fraction and exponent -/

theorem head_digit (h : (c.head?.map is_digit).getD false = true) :
    ∃ d r, c = d :: r ∧ is_digit d = true := by
  cases c with
  | nil => simp at h
  | cons d r => exact ⟨d, r, rfl, by simpa using h⟩

/-- A loop over digits that starts at one. -/
theorem take_digits_first {σ : Type} (f : σ → UInt8 → σ) (s : σ)
    (h : (c.head?.map is_digit).getD false = true) :
    ∃ ds rest, c = ds ++ rest ∧ Digits ds ∧ take_digits f s c = (ds.foldl f s, rest) := by
  obtain ⟨d, r, rfl, hd⟩ := head_digit h
  obtain ⟨ds, rest, hc, hds, hr, heq⟩ := take_digits_spec (f := f) s (d :: r)
  refine ⟨ds, rest, hc, ⟨?_, hds⟩, heq⟩
  rintro rfl
  rw [nil_append] at hc
  rw [← hc] at hr
  simp [hd] at hr

/-- Digits are found where they start. -/
theorem Digits.first (h : Digits ds) : ((ds ++ rest).head?.map is_digit).getD false = true := by
  obtain ⟨d, ds, rfl⟩ := exists_cons_of_ne_nil h.1
  simpa using h.2 d (by simp)

theorem fraction_sound {b : Bool} {y : R × R} (h : json_parse_fraction c = .ok (b, y, rest)) :
    ∃ t, c = Number.fraction_text t ++ rest ∧ (∀ ds, t = some ds → Digits ds) ∧ b = t.isSome ∧
      y = Number.fraction_real t := by
  unfold json_parse_fraction at h
  split at h
  · next c =>
    split at h
    · next hd =>
      obtain ⟨ds, r, rfl, hds, heq⟩ := take_digits_first fraction_digit
        ((ofNat 0, ofNat 1) : R × R) hd
      rw [heq] at h
      obtain ⟨rfl, rfl, rfl⟩ := h
      refine ⟨some ds, rfl, fun ds' h => ?_, rfl, rfl⟩
      cases h
      exact hds
    · simp at h
  · obtain ⟨rfl, rfl, rfl⟩ := h
    exact ⟨none, rfl, by simp, rfl, rfl⟩

theorem fraction_complete {t : Option (List UInt8)} (h : ∀ ds, t = some ds → Digits ds)
    (hrest : ∀ c ∈ rest.head?, is_digit c = false ∧ c ≠ 46) :
    json_parse_fraction (Number.fraction_text t ++ rest) =
      .ok (t.isSome, (Number.fraction_real t : R × R), rest) := by
  cases t with
  | none =>
    rw [Number.fraction_text, nil_append]
    unfold json_parse_fraction
    split
    · next c => exact ((hrest 46 (by simp)).2 rfl).elim
    · rfl
  | some ds =>
    have hds := h ds rfl
    rw [Number.fraction_text, cons_append, json_parse_fraction, if_pos hds.first,
      take_digits_append hds.2 fun c hc => (hrest c hc).1]
    rfl

/-- The sign of an exponent, before its digits. -/
theorem exponent_sign_digits {sign : List UInt8} (hs : sign = [] ∨ sign = [43] ∨ sign = [45])
    (hds : Digits ds) : exponent_sign (sign ++ (ds ++ rest)) = (sign == [45], ds ++ rest) := by
  rcases hs with rfl | rfl | rfl
  · obtain ⟨d, ds, rfl⟩ := exists_cons_of_ne_nil hds.1
    have hd : is_digit d = true := hds.2 d (by simp)
    have hd1 : d ≠ 45 := by rintro rfl; simp [is_digit] at hd
    have hd2 : d ≠ 43 := by rintro rfl; simp [is_digit] at hd
    unfold exponent_sign
    split
    · next h => exact (hd1 (cons.inj h).1).elim
    · next h => exact (hd2 (cons.inj h).1).elim
    · rfl
  · rfl
  · rfl

theorem exponent_sign_spec (c : List UInt8) :
    ∃ sign rest, c = sign ++ rest ∧ (sign = [] ∨ sign = [43] ∨ sign = [45]) ∧
      exponent_sign c = (sign == [45], rest) := by
  unfold exponent_sign
  split
  · next c => exact ⟨[45], c, rfl, by simp, rfl⟩
  · next c => exact ⟨[43], c, rfl, by simp, rfl⟩
  · exact ⟨[], _, rfl, by simp, rfl⟩

theorem exponent_sound {b : Bool} {x : R} (h : json_parse_exponent c = .ok (b, negative, x, rest)) :
    ∃ t, c = Number.exponent_text t ++ rest ∧ (∀ e sign ds, t = some (e, sign, ds) →
        (e = 101 ∨ e = 69) ∧ (sign = [] ∨ sign = [43] ∨ sign = [45]) ∧ Digits ds) ∧
      b = t.isSome ∧ negative = ((t.map (·.2.1)).getD [] == [45]) ∧ x = Number.exponent_real t := by
  unfold json_parse_exponent at h
  split at h
  · next e c =>
    split at h
    · next he =>
      obtain ⟨sign, c', rfl, hs, hsign⟩ := exponent_sign_spec c
      rw [hsign] at h
      dsimp only at h
      split at h
      · next hd =>
        obtain ⟨ds, r, rfl, hds, heq⟩ := take_digits_first exponent_digit (ofNat 0 : R) hd
        rw [heq] at h
        obtain ⟨rfl, rfl, rfl, rfl⟩ := h
        refine ⟨some (e, sign, ds), by simp [Number.exponent_text], fun e' sign' ds' h => ?_, rfl,
          rfl, rfl⟩
        obtain ⟨rfl, rfl, rfl⟩ := h
        exact ⟨he, hs, hds⟩
      · simp at h
    · obtain ⟨rfl, rfl, rfl, rfl⟩ := h
      exact ⟨none, rfl, by simp, rfl, rfl, rfl⟩
  · obtain ⟨rfl, rfl, rfl, rfl⟩ := h
    exact ⟨none, rfl, by simp, rfl, rfl, rfl⟩

theorem exponent_complete {t : Option (UInt8 × List UInt8 × List UInt8)}
    (h : ∀ e sign ds, t = some (e, sign, ds) → (e = 101 ∨ e = 69) ∧ (sign = [] ∨ sign = [43] ∨ sign = [45]) ∧ Digits ds)
    (hrest : ∀ c ∈ rest.head?, is_digit c = false ∧ c ≠ 101 ∧ c ≠ 69) :
    json_parse_exponent (Number.exponent_text t ++ rest) =
      .ok (t.isSome, (t.map (·.2.1)).getD [] == [45], (Number.exponent_real t : R), rest) := by
  cases t with
  | none =>
    cases rest with
    | nil => rfl
    | cons c rest =>
      have hc := hrest c (by simp)
      rw [Number.exponent_text, nil_append, json_parse_exponent,
        if_neg (by rintro (h | h); exacts [hc.2.1 h, hc.2.2 h])]
      rfl
  | some t =>
    obtain ⟨e, sign, ds⟩ := t
    obtain ⟨he, hs, hds⟩ := h e sign ds rfl
    rw [Number.exponent_text, cons_append, cons_append, append_assoc,
      json_parse_exponent, if_pos he, exponent_sign_digits hs hds]
    dsimp only
    rw [if_pos hds.first, take_digits_append hds.2 fun c hc => (hrest c hc).1]
    rfl

/-! ### The number -/

variable {n : Number}

/-- The last lines of `json_parse_number` choose the token of the number. -/
theorem Number.token_eq {p : IntegerPart R} (hp : p.Of n.negative n.integer) :
    (if p.is_real || n.fraction.isSome || n.exponent.isSome then
      .real (real_value n.negative p.x (Number.fraction_real n.fraction)
        ((n.exponent.map (·.2.1)).getD [] == [45]) (Number.exponent_real n.exponent))
    else if n.negative then .integer p.i
    else .unsigned p.u : Token R) = n.token := by
  rw [hp.x]
  unfold Number.token
  by_cases hint : n.fraction.isNone && n.exponent.isNone
  · have hfe : n.fraction.isSome = false ∧ n.exponent.isSome = false := by simpa using hint
    rw [if_pos hint, hfe.1, hfe.2]
    cases hneg : n.negative with
    | true =>
      obtain ⟨hreal, hi⟩ := hp.integer hneg
      rw [hreal]
      by_cases hv : 2 ^ 63 < Number.digits_value n.integer
      · rw [if_pos (by simpa using hv), if_pos rfl, if_neg (by omega), Number.real, hneg]
      · rw [if_neg (by simpa using hv), if_pos rfl, if_pos rfl, if_pos (by omega), hi (by omega)]
    | false =>
      obtain ⟨hreal, hu⟩ := hp.unsigned hneg
      rw [hreal]
      by_cases hv : 2 ^ 64 ≤ Number.digits_value n.integer
      · rw [if_pos (by simpa using hv), if_neg (by simp), if_neg (by omega), Number.real, hneg]
      · rw [if_neg (by simpa using hv), if_neg (by simp), if_neg (by simp), if_pos (by omega),
          hu (by omega)]
  · have hfe : (p.is_real || n.fraction.isSome || n.exponent.isSome) = true := by
      cases hf : n.fraction with
      | none =>
        cases he : n.exponent with
        | none => simp [hf, he] at hint
        | some e => simp
      | some f => simp
    rw [if_neg hint, if_pos hfe, Number.real]

/-- `json_parse_number` reads a number as the grammar has it. -/
theorem json_parse_number_sound {p : List UInt8} {tok : Token R}
    (h : json_parse_number p = .ok (tok, rest)) :
    ∃ n : Number, n.WellFormed ∧ p = n.text ++ rest ∧ tok = n.token := by
  unfold json_parse_number at h
  rw [bind_eq_ok] at h
  obtain ⟨⟨ip, c1⟩, hip, h⟩ := h
  rw [bind_eq_ok] at h
  obtain ⟨⟨bf, y, c2⟩, hf, h⟩ := h
  rw [bind_eq_ok] at h
  obtain ⟨⟨be, eneg, x, c3⟩, he, h⟩ := h
  obtain ⟨ds, hds, hwf, hof⟩ := integer_part_sound hip
  obtain ⟨f, rfl, hfw, rfl, rfl⟩ := fraction_sound hf
  obtain ⟨e, rfl, hew, rfl, rfl, rfl⟩ := exponent_sound he
  -- the number read
  let n : Number := ⟨p.head? == some 45, ds, f, e⟩
  have hn : n.WellFormed := ⟨hwf, hfw, hew⟩
  have htok := Number.token_eq (n := n) hof
  refine ⟨n, hn, ?_, ?_⟩
  · have hrest : rest = c3 := by
      dsimp only at h
      split at h
      · exact (mk.inj (ok.inj h)).2.symm
      · split at h
        · exact (mk.inj (ok.inj h)).2.symm
        · exact (mk.inj (ok.inj h)).2.symm
    subst hrest
    have hp : p = (if (p.head? == some 45) = true then [45] else []) ++
        (if (p.head? == some 45) = true then p.drop 1 else p) := by
      cases p with
      | nil => rfl
      | cons c p =>
        by_cases hc : c = 45
        · simp [hc]
        · simp [hc]
    rw [hp, hds]
    simp [n, Number.text]
  · rw [← htok]
    dsimp only at h ⊢
    split at h
    · next hr => rw [if_pos hr]; exact (mk.inj (ok.inj h)).1.symm
    · next hr =>
      rw [if_neg hr]
      split at h
      · next hneg => rw [if_pos hneg]; exact (mk.inj (ok.inj h)).1.symm
      · next hneg => rw [if_neg hneg]; exact (mk.inj (ok.inj h)).1.symm

/-- A number is read where nothing follows that it could go on with. -/
theorem json_parse_number_complete (hn : n.WellFormed) (hrest : NumberEnds rest) :
    json_parse_number (n.text ++ rest) = .ok ((n.token : Token R), rest) := by
  have hend : ∀ c ∈ rest.head?, is_digit c = false ∧ c ≠ 101 ∧ c ≠ 69 :=
    fun c hc => ⟨(hrest c hc).1, (hrest c hc).2.2⟩
  have he := exponent_complete (R := R) hn.exponent hend
  -- what follows the fraction is no digit, and what follows the integer part no point either
  have hexp : ∀ c ∈ (Number.exponent_text n.exponent ++ rest).head?, is_digit c = false ∧ c ≠ 46 := by
    cases hexp : n.exponent with
    | none => exact fun c hc => ⟨(hrest c hc).1, (hrest c hc).2.1⟩
    | some t =>
      obtain ⟨e, sign, ds⟩ := t
      intro c hc
      obtain rfl : e = c := by simpa [Number.exponent_text] using hc
      rcases (hn.exponent e sign ds hexp).1 with rfl | rfl
      · decide
      · decide
  have hf := fraction_complete (R := R) hn.fraction hexp
  have hfrac : ∀ c ∈ (Number.fraction_text n.fraction ++
      (Number.exponent_text n.exponent ++ rest)).head?, is_digit c = false := by
    cases hfr : n.fraction with
    | none => exact fun c hc => (hexp c hc).1
    | some t =>
      intro c hc
      obtain rfl : 46 = c := by simpa [Number.fraction_text] using hc
      decide
  obtain ⟨p, hp, hof⟩ : ∃ p : IntegerPart R, json_parse_integer_part n.negative (n.integer ++ _) =
      .ok (p, _) ∧ p.Of n.negative n.integer := integer_part_complete hn.integer hfrac
  obtain ⟨d, ds, hds⟩ := exists_cons_of_ne_nil hn.integer.1.1
  have hd : d ≠ 45 := by
    rintro rfl
    have := hn.integer.1.2 45 (by simp [hds])
    simp [is_digit] at this
  have hhead : ((n.text ++ rest).head? == some 45) = n.negative := by
    cases hneg : n.negative with
    | true => simp [Number.text, hneg]
    | false => simp [Number.text, hneg, hds, hd]
  have hdrop : (if n.negative = true then (n.text ++ rest).drop 1 else n.text ++ rest) =
      n.integer ++ (Number.fraction_text n.fraction ++ (Number.exponent_text n.exponent ++ rest)) := by
    cases hneg : n.negative with
    | true => simp [Number.text, hneg]
    | false => simp [Number.text, hneg]
  unfold json_parse_number
  simp only [hhead, hdrop, hp, hf, he, ok_bind]
  rw [← Number.token_eq hof]
  split
  · rfl
  · split
    · rfl
    · rfl

theorem Number.text_ne_nil (hn : n.WellFormed) : n.text ≠ [] := by
  obtain ⟨d, ds, hds⟩ := exists_cons_of_ne_nil hn.integer.1.1
  simp [Number.text, hds]

theorem json_parse_number_not_abort (p : List UInt8) :
    (json_parse_number p : Outcome (Token R × List UInt8)) ≠ .abort := by
  intro h
  unfold json_parse_number at h
  rw [bind_eq_abort] at h
  rcases h with h | ⟨⟨ip, c1⟩, -, h⟩
  · unfold json_parse_integer_part at h
    repeat' split at h
    all_goals simp at h
  rw [bind_eq_abort] at h
  rcases h with h | ⟨⟨bf, y, c2⟩, -, h⟩
  · unfold json_parse_fraction at h
    repeat' split at h
    all_goals simp at h
  rw [bind_eq_abort] at h
  rcases h with h | ⟨⟨be, eneg, x, c3⟩, -, h⟩
  · unfold json_parse_exponent at h
    repeat' split at h
    all_goals simp at h
  · repeat' split at h
    all_goals simp at h

end number

end SdCompat.Json
